import VariantGraph.Proofs.Publication.Reading
import VariantGraph.Publication.Output

/-!
# Which publications have a document

There is a document exactly if everything that belongs into it can be represented: attribute values
are not foreign, projects are known, children are published and files can be measured. Otherwise
nothing at all is written.

Main statements: `Publication.exists_document_iff` for the document and
`Publication.generate_iff_representable` for what is written to an output.
-/

namespace VariantGraph

open Document

/-! ## The last member with a property -/

/-- A member of a list has a property that no member after it has. -/
def IsLast {α : Type} (P : α → Prop) (l : List α) (a : α) : Prop :=
  ∃ before after, l = before ++ a :: after ∧ P a ∧ ∀ b ∈ after, ¬ P b

theorem find?_reverse_eq_some_iff {α : Type} {q : α → Bool} {l : List α} {a : α} :
    l.reverse.find? q = some a ↔ IsLast (fun x => q x = true) l a := by
  rw [List.find?_eq_some_iff_append]
  constructor
  · rintro ⟨ha, front, back, hl, hfront⟩
    have hl : l = back.reverse ++ a :: front.reverse := by
      rw [← List.reverse_reverse l, hl]
      simp
    refine ⟨back.reverse, front.reverse, hl, ha, fun b hb => ?_⟩
    have hnot := hfront b (List.mem_reverse.1 hb)
    simpa using hnot
  · rintro ⟨before, after, rfl, ha, hafter⟩
    refine ⟨ha, after.reverse, before.reverse, by simp, fun b hb => ?_⟩
    have hnot := hafter b (List.mem_reverse.1 hb)
    simpa using hnot

theorem find?_reverse_eq_none_iff {α : Type} {q : α → Bool} {l : List α} :
    l.reverse.find? q = none ↔ ∀ a ∈ l, ¬ q a = true := by
  simp

/-! ## What can be represented -/

/-- Some attributes hold no foreign value. -/
def Attributes.Writable (a : Attributes) : Prop :=
  ∀ name typeName shown, a.get? name ≠ some (.foreign typeName shown)

theorem unwritable?_eq_none_iff {a : Attributes} : unwritable? a = none ↔ a.Writable := by
  unfold unwritable? Attributes.Writable
  rw [List.findSome?_eq_none_iff]
  constructor
  · intro h name typeName shown hget
    have hnone := h _ (Table.mem_toList_iff.2 hget)
    cases hnone
  · rintro h ⟨name, v⟩ he
    have hget := Table.mem_toList_iff.1 he
    cases v with
    | foreign typeName shown => exact absurd hget (h name typeName shown)
    | _ => rfl

/-- A variant can be written with the document: no value in it is foreign, the projects that it
depends on are known and its files can be measured. -/
structure PublishedVariant.Representable (b : Build) (v : PublishedVariant) : Prop where
  attributes : v.attributes.Writable
  dependencies : ∀ d ∈ v.dependencies, d.attributes.Writable
  projects : ∀ d ∈ v.dependencies, ∀ name, d.target = .project name →
    ∃ id, b.projects.get? name = some id
  constraints : ∀ c ∈ v.constraints, c.attributes.Writable
  artifacts : ∀ a ∈ v.artifacts, ∃ m, b.measure? a.file = some m

namespace Publication

variable {b : Build} {all : List Publication} {p c : Publication} {name : String}

/-- A component name means the last publication that has it. -/
def Names (all : List Publication) (name : String) : Publication → Prop :=
  IsLast (fun q => q.component.name = name) all

/-- The owner of a component is what the name of the last publication means that has it as a
child. -/
def Owns (all : List Publication) (name : String) (owner : Publication) : Prop :=
  ∃ q, IsLast (fun q => name ∈ q.component.children) all q ∧ Names all q.component.name owner

/-- The publication that a document shows as its component: the owner, or itself without one. -/
def Shows (all : List Publication) (p shown : Publication) : Prop :=
  Owns all p.component.name shown ∨
    (∀ q ∈ all, p.component.name ∉ q.component.children) ∧ shown = p

/-- Everything that belongs into the document of a publication can be represented. -/
structure Representable (b : Build) (all : List Publication) (p : Publication) : Prop where
  component : ∃ shown, Shows all p shown ∧ shown.attributes.Writable
  variants : ∀ v ∈ p.component.variants, v.Representable b
  published : ∀ child ∈ p.component.children, ∃ q ∈ all, q.component.name = child
  children : ∀ child ∈ p.component.children, ∀ c, Names all child c →
    ∀ v ∈ c.component.variants, v.attributes.Writable

/-! ## Names and owners -/

theorem named?_eq_some_iff : named? all name = some c ↔ Names all name c := by
  unfold named? Names
  rw [find?_reverse_eq_some_iff]
  simp only [beq_iff_eq]

theorem named?_eq_none_iff : named? all name = none ↔ ∀ q ∈ all, q.component.name ≠ name := by
  unfold named?
  rw [find?_reverse_eq_none_iff]
  simp only [beq_iff_eq, ne_eq]

/-- A component of some name is published exactly if the name means a publication. -/
theorem exists_named?_iff :
    (∃ c, named? all name = some c) ↔ ∃ q ∈ all, q.component.name = name := by
  rw [← Option.ne_none_iff_exists', ne_eq, named?_eq_none_iff]
  push Not
  rfl

theorem ownerOf?_eq_some_iff : ownerOf? all name = some c ↔ Owns all name c := by
  unfold ownerOf? Owns
  rw [Option.bind_eq_some_iff]
  simp only [find?_reverse_eq_some_iff, named?_eq_some_iff, List.contains_iff_mem]

/-- An owner is never missing: a publication that has the component as a child is listed itself. -/
theorem ownerOf?_eq_none_iff :
    ownerOf? all name = none ↔ ∀ q ∈ all, name ∉ q.component.children := by
  unfold ownerOf?
  cases h : all.reverse.find? fun q => q.component.children.contains name with
  | none =>
    rw [find?_reverse_eq_none_iff] at h
    simpa using h
  | some q =>
    have hq : q ∈ all := List.mem_reverse.1 (List.mem_of_find?_eq_some h)
    have hchild : name ∈ q.component.children := by simpa using List.find?_some h
    obtain ⟨owner, howner⟩ := exists_named?_iff.2 ⟨q, hq, rfl⟩
    rw [Option.bind_some, howner]
    exact iff_of_false (Option.some_ne_none owner) fun hnone => hnone q hq hchild

/-! ## Parts of a document -/

theorem exists_scalarsOf_iff {a : Attributes} : (∃ s, scalarsOf a = .ok s) ↔ a.Writable := by
  rw [← unwritable?_eq_none_iff, scalarsOf, ofAttributes]
  cases unwritable? a with
  | none => simp [Except.mapError]
  | some u => simp [Except.mapError]

theorem exists_componentOf_iff :
    (∃ d, componentOf all p = .ok d) ↔ ∃ shown, Shows all p shown ∧ shown.attributes.Writable := by
  unfold componentOf
  dsimp only
  rw [exists_bind_pure_eq_ok_iff, exists_scalarsOf_iff]
  unfold Shows
  cases h : ownerOf? all p.component.name with
  | none =>
    have hnone := ownerOf?_eq_none_iff.1 h
    constructor
    · exact fun hp => ⟨p, .inr ⟨hnone, rfl⟩, hp⟩
    · rintro ⟨shown, howns | ⟨-, rfl⟩, hshown⟩
      · rw [ownerOf?_eq_some_iff.2 howns] at h
        cases h
      · exact hshown
  | some owner =>
    have howns := ownerOf?_eq_some_iff.1 h
    constructor
    · exact fun howner => ⟨owner, .inl howns, howner⟩
    · rintro ⟨shown, howns' | ⟨hnone, -⟩, hshown⟩
      · rw [ownerOf?_eq_some_iff.2 howns', Option.some.injEq] at h
        exact h ▸ hshown
      · rw [ownerOf?_eq_none_iff.2 hnone] at h
        cases h

theorem exists_targetOf_iff (mapping : Option VersionMapping) {d : PublishedDependency} :
    (∃ t, targetOf b mapping d = .ok t) ↔
      ∀ name, d.target = .project name → ∃ id, b.projects.get? name = some id := by
  unfold targetOf
  cases d.target with
  | module m => simp
  | project name => cases h : b.projects.get? name <;> simp [h]

theorem exists_dependencyOf_iff {mapping : Option VersionMapping} {global : List ExcludeRule}
    {d : PublishedDependency} : (∃ w, dependencyOf b mapping global d = .ok w) ↔
      (∀ name, d.target = .project name → ∃ id, b.projects.get? name = some id) ∧
        d.attributes.Writable := by
  rw [← exists_targetOf_iff mapping, ← exists_scalarsOf_iff]
  exact exists_bind_eq_ok_iff_and fun target => exists_bind_pure_eq_ok_iff

theorem exists_constraintOf_iff {mapping : Option VersionMapping} {c : DependencyConstraint} :
    (∃ w, Publication.constraintOf mapping c = .ok w) ↔ c.attributes.Writable := by
  rw [← exists_scalarsOf_iff]
  exact exists_bind_pure_eq_ok_iff

theorem exists_fileOf_iff {a : Artifact} :
    (∃ f, fileOf b a = .ok f) ↔ ∃ m, b.measure? a.file = some m := by
  unfold fileOf
  cases b.measure? a.file <;> simp

theorem exists_localVariant_iff {v : PublishedVariant} :
    (∃ w, localVariant b p v = .ok w) ↔ v.Representable b := by
  have hparts : (∃ w, localVariant b p v = .ok w) ↔
      (∃ l, v.dependencies.mapM (dependencyOf b (p.mappingFor? v) v.excludes) = .ok l) ∧
        (∃ l, v.constraints.mapM (Publication.constraintOf (p.mappingFor? v)) = .ok l) ∧
          (∃ l, v.artifacts.mapM (fileOf b) = .ok l) ∧ ∃ s, scalarsOf v.attributes = .ok s :=
    exists_bind_eq_ok_iff_and fun dependencies => exists_bind_eq_ok_iff_and fun constraints =>
      exists_bind_eq_ok_iff_and fun files => exists_bind_pure_eq_ok_iff
  rw [hparts]
  simp only [exists_mapM_eq_ok_iff, exists_dependencyOf_iff, exists_constraintOf_iff,
    exists_fileOf_iff, exists_scalarsOf_iff]
  constructor
  · rintro ⟨hdependencies, hconstraints, hartifacts, hattributes⟩
    exact ⟨hattributes, fun d hd => (hdependencies d hd).2, fun d hd => (hdependencies d hd).1,
      hconstraints, hartifacts⟩
  · rintro ⟨hattributes, hdependencies, hprojects, hconstraints, hartifacts⟩
    exact ⟨fun d hd => ⟨hprojects d hd, hdependencies d hd⟩, hconstraints, hartifacts, hattributes⟩

theorem exists_childVariants_iff {child : String} :
    (∃ l, childVariants all p child = .ok l) ↔ (∃ q ∈ all, q.component.name = child) ∧
      ∀ c, Names all child c → ∀ v ∈ c.component.variants, v.attributes.Writable := by
  have hlinked : ∀ c : Publication, (∃ l, c.component.variants.mapM (linkedVariant c) = .ok l) ↔
      ∀ v ∈ c.component.variants, v.attributes.Writable := by
    intro c
    rw [exists_mapM_eq_ok_iff]
    refine forall₂_congr fun v _ => ?_
    rw [← exists_scalarsOf_iff]
    exact exists_bind_pure_eq_ok_iff
  unfold childVariants
  rw [← exists_named?_iff]
  simp only [← named?_eq_some_iff]
  cases named? all child with
  | none => simp
  | some c => simp [hlinked]

/-! ## Documents -/

/-- A publication has a document exactly if everything that belongs into it can be represented. -/
theorem exists_document_iff : (∃ d, p.document b all = .ok d) ↔ Representable b all p := by
  have hparts : (∃ d, p.document b all = .ok d) ↔ (∃ component, componentOf all p = .ok component) ∧
      (∃ own, p.component.variants.mapM (localVariant b p) = .ok own) ∧
        ∃ children, p.component.children.mapM (childVariants all p) = .ok children := by
    refine exists_bind_eq_ok_iff_and fun component => exists_bind_pure_eq_ok_iff.trans ?_
    exact exists_bind_eq_ok_iff_and fun own => exists_bind_pure_eq_ok_iff
  rw [hparts]
  simp only [exists_mapM_eq_ok_iff, exists_componentOf_iff, exists_localVariant_iff,
    exists_childVariants_iff]
  constructor
  · rintro ⟨hcomponent, hvariants, hchildren⟩
    exact ⟨hcomponent, hvariants, fun child h => (hchildren child h).1,
      fun child h => (hchildren child h).2⟩
  · rintro ⟨hcomponent, hvariants, hpublished, hchildren⟩
    exact ⟨hcomponent, hvariants, fun child h => ⟨hpublished child h, hchildren child h⟩⟩

/-- A publication that can be represented has a document, and its text is written to the output as a
whole. One that cannot has none, and the output is left as it is. -/
theorem generate_iff_representable (b : Build) (all : List Publication) (p : Publication) :
    ((∃ d, p.document b all = .ok d) ↔ Representable b all p) ∧
      ∀ {σ ε : Type} (o : Output σ ε) (out : σ),
        (∀ d, p.document b all = .ok d → p.generate o b all out =
          ((o.put d.write out).1.mapError .output, (o.put d.write out).2)) ∧
        (¬ Representable b all p → ∃ e, p.document b all = .error e ∧
          p.generate o b all out = (.error (.publication e), out)) := by
  refine ⟨exists_document_iff, fun o out => ⟨fun d hd => ?_, fun hnot => ?_⟩⟩
  · simp only [generate, hd]
  · cases h : p.document b all with
    | ok d => exact absurd (exists_document_iff.1 ⟨d, h⟩) hnot
    | error e => exact ⟨e, rfl, by simp only [generate, h]⟩

/-- The component `library-jvm` with an attribute value that no document can hold. -/
def foreignJvm : Publication where
  coordinates := ⟨"org", "library-jvm", "1.0"⟩
  component :=
    { name := "library-jvm"
      variants :=
        [{ name := "jvm"
           attributes := Table.ofList [("platform", .foreign "Platform" "jvm")] }] }

/-- The attribute of a child keeps the document of its parent from being written. -/
theorem generate_iff_representable_library :
    Representable uniformBuild [library, libraryJvm] library ∧
      ¬ Representable uniformBuild [library, foreignJvm] library ∧
      (library.generate Output.text uniformBuild [library, foreignJvm] "before").2 = "before" := by
  have hok : (library.document uniformBuild [library, libraryJvm]).toOption.isSome = true := by
    decide +kernel
  have hfail : (library.document uniformBuild [library, foreignJvm]).toOption.isSome = false := by
    decide +kernel
  have hgood : Representable uniformBuild [library, libraryJvm] library := by
    obtain ⟨hiff, -⟩ := generate_iff_representable uniformBuild [library, libraryJvm] library
    cases h : library.document uniformBuild [library, libraryJvm] with
    | ok d => exact hiff.1 ⟨d, h⟩
    | error e => simp [h, Except.toOption] at hok
  obtain ⟨hiff, hgenerate⟩ := generate_iff_representable uniformBuild [library, foreignJvm] library
  have hbad : ¬ Representable uniformBuild [library, foreignJvm] library := by
    intro hrepresentable
    obtain ⟨d, hd⟩ := hiff.2 hrepresentable
    simp [hd, Except.toOption] at hfail
  obtain ⟨e, -, heq⟩ := (hgenerate Output.text "before").2 hbad
  exact ⟨hgood, hbad, congrArg Prod.snd heq⟩

end Publication

end VariantGraph
