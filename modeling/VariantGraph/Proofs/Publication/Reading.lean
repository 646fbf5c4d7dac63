import VariantGraph.Proofs.Document.RoundTrip
import VariantGraph.Proofs.Traversal
import VariantGraph.Publication.Document

/-!
# Reading what is published

A consumer reads the document of a publication as module data. This says, part by part, what the
data is in terms of what was published: the same, but names have become texts, a strict version is
also a required one, the excludes of a variant have been added to those of its dependencies, and
empty reasons are gone.

Main statements: `Publication.isReadAs_of_document` for what is read from the document of a
publication, `Publication.exists_read_write_of_document` for what is read from its text.
-/

namespace VariantGraph

open Document Publication

/-! ## Attributes -/

/-- A value as it is read. -/
def Value.published : Value → Value
  | .named s => .string s
  | v => v

/-- Attributes as they are read. -/
def Attributes.published (a : Attributes) : Attributes := a.mapValues Value.published

theorem toValue_of_writable {v : Value} (h : ∀ typeName shown, v ≠ .foreign typeName shown) :
    Scalar.toValue ((Scalar.ofValue? v).getD (.text v.text)) = v.published := by
  cases v with
  | foreign typeName shown => exact absurd rfl (h typeName shown)
  | _ => rfl

theorem toAttributes_of_scalarsOf {a : Attributes} {s : Scalars} (h : scalarsOf a = .ok s) :
    toAttributes s = a.published := by
  rw [scalarsOf, ofAttributes] at h
  cases hu : unwritable? a with
  | some u => rw [hu] at h; cases h
  | none =>
    rw [hu] at h
    obtain rfl := Except.ok.inj h
    have hwritable : ∀ e ∈ a.entries, ∀ typeName shown, e.2 ≠ .foreign typeName shown := by
      intro e he typeName shown heq
      have hnone := List.findSome?_eq_none_iff.1 hu e he
      rw [heq] at hnone
      cases hnone
    simp only [toAttributes, Attributes.published, Table.mapValues, List.map_map, Table.mk.injEq]
    exact List.map_congr_left fun e he =>
      congrArg (e.1, ·) (toValue_of_writable (hwritable e he))

/-! ## Dependencies and constraints -/

/-- A constraint as it is read. -/
def VersionConstraint.published (c : VersionConstraint) : VersionConstraint :=
  { c with required := c.required <|> c.strict }

/-- An exclude rule as it is read, in which `*` stands for anything. -/
def ExcludeRule.published (r : ExcludeRule) : ExcludeRule :=
  ⟨r.group.bind partOf, r.name.bind partOf⟩

/-- How a dependency of a variant with some excludes is read. -/
structure PublishedDependency.IsReadAs (global : List ExcludeRule) (d : PublishedDependency)
    (r : Dependency) : Prop where
  target : d.target = .module r.module
  constraint : r.constraint = d.constraint.published
  effectiveExcludes : r.effectiveExcludes =
    if d.transitive then
      (OrderedSet.ofElements (global.map ExcludeRule.published)).union
        (OrderedSet.ofElements (d.excludes.map ExcludeRule.published))
    else OrderedSet.ofElements [ExcludeRule.all]
  attributes : r.attributes = d.attributes.published
  capabilities : r.capabilities = d.capabilities
  reason : r.reason = d.reason.filter (· ≠ "")
  force : r.force = false
  targetVariant : r.targetVariant = none

/-- A dependency constraint as it is read. -/
def DependencyConstraint.published (c : DependencyConstraint) : DependencyConstraint :=
  { module := c.module
    constraint := c.constraint.published
    attributes := c.attributes.published
    reason := c.reason.filter (· ≠ "") }

theorem constraintOf_versionOf (c : VersionConstraint) :
    Document.constraintOf (versionOf c none) = c.published := by
  rw [versionOf]
  split
  · next h =>
    obtain ⟨preferred, required, strict, rejects, forSubgraph⟩ := c
    simp only [VersionConstraint.isEmpty, Bool.and_eq_true, Option.isNone_iff_eq_none,
      List.isEmpty_iff, Bool.not_eq_true'] at h
    obtain ⟨⟨⟨⟨rfl, rfl⟩, rfl⟩, rfl⟩, rfl⟩ := h
    rfl
  · rfl

theorem toRule_excludeOf (r : ExcludeRule) : (excludeOf r).toRule = r.published := by
  obtain ⟨group, name⟩ := r
  cases group <;> cases name <;> rfl

theorem ofElements_excludesOf (d : PublishedDependency) (global : List ExcludeRule) :
    OrderedSet.ofElements ((excludesOf d global).map Exclude.toRule) =
      if d.transitive then
        (OrderedSet.ofElements (global.map ExcludeRule.published)).union
          (OrderedSet.ofElements (d.excludes.map ExcludeRule.published))
      else OrderedSet.ofElements [ExcludeRule.all] := by
  have htoRule : Exclude.toRule ∘ excludeOf = ExcludeRule.published := funext toRule_excludeOf
  rw [excludesOf, List.map_map, htoRule]
  split
  · refine OrderedSet.ext_elements fun r => ?_
    rw [OrderedSet.mem_elements_union]
    simp only [OrderedSet.mem_elements_ofElements, List.mem_map, List.mem_eraseDups,
      List.mem_append, or_and_right, exists_or]
  · rfl

theorem isReadAs_of_dependencyOf {b : Build} {global : List ExcludeRule} {d : PublishedDependency}
    {w : Document.Dependency} (h : dependencyOf b none global d = .ok w) {m : ModuleId}
    (hm : d.target = .module m) : d.IsReadAs global w.meaning := by
  obtain ⟨target, htarget, h⟩ := bind_eq_ok_iff.1 h
  obtain ⟨attributes, hattributes, h⟩ := bind_eq_ok_iff.1 h
  obtain rfl := Except.ok.inj h
  rw [targetOf, hm] at htarget
  obtain rfl := Except.ok.inj htarget
  exact
    { target := hm
      constraint := constraintOf_versionOf d.constraint
      effectiveExcludes := ofElements_excludesOf d global
      attributes := toAttributes_of_scalarsOf hattributes
      capabilities := by simp [Dependency.meaning, Function.comp_def, Capability.id]
      reason := rfl
      force := rfl
      targetVariant := rfl }

theorem meaning_of_constraintOf {c : DependencyConstraint} {w : Document.Constraint}
    (h : Publication.constraintOf none c = .ok w) : w.meaning = c.published := by
  obtain ⟨attributes, hattributes, h⟩ := bind_eq_ok_iff.1 h
  obtain rfl := Except.ok.inj h
  have hconstraint := constraintOf_versionOf c.constraint
  rw [DependencyConstraint.published, ← toAttributes_of_scalarsOf hattributes, ← hconstraint]
  rfl

/-! ## Variants -/

/-- How an artifact is read. -/
structure Artifact.IsReadAs (b : Build) (a : Artifact) (f : FileRef) : Prop where
  name : f.name = a.name
  url : f.url = a.url
  measured : b.measure? a.file = some ⟨f.size, f.sha1, f.md5⟩

/-- How a variant of a component is read from the document of this component. -/
structure PublishedVariant.IsReadAs (b : Build) (v : PublishedVariant) (r : Variant) : Prop where
  name : r.name = v.name
  attributes : r.attributes = v.attributes.published
  capabilities : r.capabilities = v.capabilities
  here : r.availableAt? = none
  dependencies :
    List.Forall₂ (PublishedDependency.IsReadAs v.excludes) v.dependencies r.dependencies
  constraints : r.constraints = v.constraints.map DependencyConstraint.published
  files : List.Forall₂ (Artifact.IsReadAs b) v.artifacts r.files

/-- How a variant is read from a document that advertises it. -/
def PublishedVariant.advertised (v : PublishedVariant) (target : Coordinates) : Variant :=
  { name := v.name
    attributes := v.attributes.published
    capabilities := []
    source := .availableAt target }

theorem isReadAs_of_fileOf {b : Build} {a : Artifact} {f : FileRef} (h : fileOf b a = .ok f) :
    a.IsReadAs b f := by
  rw [fileOf] at h
  cases hm : b.measure? a.file with
  | none => rw [hm] at h; cases h
  | some m =>
    rw [hm] at h
    obtain rfl := Except.ok.inj h
    exact ⟨rfl, rfl, hm⟩

theorem isReadAs_of_localVariant {b : Build} {p : Publication} {v : PublishedVariant}
    {w : Document.Variant} (h : localVariant b p v = .ok w) (hmapping : p.mappingFor? v = none)
    (hexternal : ∀ d ∈ v.dependencies, ∃ m, d.target = .module m) :
    v.IsReadAs b w.meaning := by
  rw [localVariant, hmapping] at h
  obtain ⟨dependencies, hdependencies, h⟩ := bind_eq_ok_iff.1 h
  obtain ⟨constraints, hconstraints, h⟩ := bind_eq_ok_iff.1 h
  obtain ⟨files, hfiles, h⟩ := bind_eq_ok_iff.1 h
  obtain ⟨attributes, hattributes, h⟩ := bind_eq_ok_iff.1 h
  obtain rfl := Except.ok.inj h
  exact
    { name := rfl
      attributes := toAttributes_of_scalarsOf hattributes
      capabilities := rfl
      here := rfl
      dependencies := List.forall₂_map_right_iff.2 <| forall₂_of_mapM_eq_ok hdependencies
        fun d hd w hw => isReadAs_of_dependencyOf hw (hexternal d hd).choose_spec
      constraints :=
        map_eq_map_of_mapM_eq_ok hconstraints fun c _ w hw => meaning_of_constraintOf hw
      files := forall₂_of_mapM_eq_ok hfiles fun a _ f hf => isReadAs_of_fileOf hf }

theorem meaning_of_linkedVariant {c : Publication} {v : PublishedVariant} {w : Document.Variant}
    (h : linkedVariant c v = .ok w) : w.meaning = v.advertised c.coordinates := by
  obtain ⟨attributes, hattributes, h⟩ := bind_eq_ok_iff.1 h
  obtain rfl := Except.ok.inj h
  rw [PublishedVariant.advertised, ← toAttributes_of_scalarsOf hattributes]
  rfl

/-! ## Publications -/

namespace Publication

/-- The variants of a publication as they are read from a document that advertises them. -/
def advertised (p : Publication) : List Variant :=
  p.component.variants.map fun v => v.advertised p.coordinates

/-- How a publication of a build is read: under its own coordinates, with the attributes of its
owner if there is one, and with its own variants before those that it advertises. -/
structure IsReadAs (b : Build) (all : List Publication) (p : Publication) (data : ModuleData) :
    Prop where
  id : data.id = p.coordinates
  attributes : data.attributes = ((ownerOf? all p.component.name).getD p).attributes.published
  variants : ∃ (own : List Variant) (children : List Publication),
    List.Forall₂ (PublishedVariant.IsReadAs b) p.component.variants own ∧
    List.Forall₂ (fun name c => named? all name = some c) p.component.children children ∧
    data.variants = own ++ children.flatMap advertised
  artifacts : data.artifacts = []

theorem map_meaning_of_childVariants {all : List Publication} {p : Publication} {child : String}
    {l : List Document.Variant} (h : childVariants all p child = .ok l) :
    ∃ c, named? all child = some c ∧ l.map Variant.meaning = c.advertised := by
  rw [childVariants] at h
  cases hc : named? all child with
  | none => rw [hc] at h; cases h
  | some c =>
    rw [hc] at h
    exact ⟨c, rfl, map_eq_map_of_mapM_eq_ok h fun v _ w hw => meaning_of_linkedVariant hw⟩

theorem flatten_meaning_of_childVariants {all : List Publication} {p : Publication}
    {names : List String} {lists : List (List Document.Variant)}
    (h : List.Forall₂ (fun name l => childVariants all p name = .ok l) names lists) :
    ∃ children, List.Forall₂ (fun name c => named? all name = some c) names children ∧
      lists.flatten.map Variant.meaning = children.flatMap advertised := by
  induction h with
  | nil => exact ⟨[], .nil, rfl⟩
  | cons hname _ ih =>
    obtain ⟨c, hc, hmeaning⟩ := map_meaning_of_childVariants hname
    obtain ⟨children, hchildren, hflatten⟩ := ih
    refine ⟨c :: children, .cons hc hchildren, ?_⟩
    rw [List.flatten_cons, List.map_append, hmeaning, hflatten, List.flatMap_cons]

variable {b : Build} {all : List Publication} {p : Publication}

theorem toAttributes_of_componentOf {c : Document.Component} (h : componentOf all p = .ok c) :
    toAttributes c.attributes = ((ownerOf? all p.component.name).getD p).attributes.published := by
  obtain ⟨attributes, hattributes, h⟩ := bind_eq_ok_iff.1 h
  obtain rfl := Except.ok.inj h
  exact toAttributes_of_scalarsOf hattributes

/-- A publication whose variants depend on modules only and have no version mapping is what its
document is read as. -/
theorem isReadAs_of_document {d : Document} (h : p.document b all = .ok d)
    (hexternal : ∀ v ∈ p.component.variants, ∀ e ∈ v.dependencies, ∃ m, e.target = .module m)
    (hmapping : ∀ v ∈ p.component.variants, p.mappingFor? v = none) :
    p.IsReadAs b all (d.moduleData p.coordinates) := by
  obtain ⟨component, hcomponent, h⟩ := bind_eq_ok_iff.1 h
  obtain ⟨variants, hvariants, h⟩ := bind_eq_ok_iff.1 h
  obtain rfl := Except.ok.inj h
  obtain ⟨own, hown, hvariants⟩ := bind_eq_ok_iff.1 hvariants
  obtain ⟨lists, hlists, hvariants⟩ := bind_eq_ok_iff.1 hvariants
  obtain rfl := Except.ok.inj hvariants
  obtain ⟨children, hchildren, hflatten⟩ :=
    flatten_meaning_of_childVariants (mapM_eq_ok_iff.1 hlists)
  have hownRead : List.Forall₂ (PublishedVariant.IsReadAs b) p.component.variants
      (own.map Variant.meaning) :=
    List.forall₂_map_right_iff.2 <| forall₂_of_mapM_eq_ok hown fun v hv w hw =>
      isReadAs_of_localVariant hw (hmapping v hv) (hexternal v hv)
  exact
    { id := rfl
      attributes := toAttributes_of_componentOf hcomponent
      variants := ⟨own.map Variant.meaning, children, hownRead, hchildren, by
        rw [variants_moduleData, List.map_append, hflatten]⟩
      artifacts := rfl }

/-- Such a publication is also what the text of its document is read as. -/
theorem exists_read_write_of_document {d : Document} (h : p.document b all = .ok d)
    (hexternal : ∀ v ∈ p.component.variants, ∀ e ∈ v.dependencies, ∃ m, e.target = .module m)
    (hmapping : ∀ v ∈ p.component.variants, p.mappingFor? v = none) :
    ∃ d', Document.read d.write = .ok d' ∧ p.IsReadAs b all (d'.moduleData p.coordinates) := by
  refine ⟨d, ?_, isReadAs_of_document h hexternal hmapping⟩
  rw [Document.read, Document.parse?_write]

/-- A library with a named attribute, an exclude of everything in a group, a strict dependency that
is not transitive and a file, which advertises the variant of its component `library-jvm`. -/
def library : Publication where
  coordinates := ⟨"org", "library", "1.0"⟩
  component :=
    { name := "library"
      variants :=
        [{ name := "api"
           attributes := Table.ofList [("usage", .named "java-api")]
           dependencies :=
             [{ target := .module ⟨"org", "strict"⟩
                constraint := { strict := some "2.0", preferred := some "2.0" }
                transitive := false
                reason := some "" },
               { target := .module ⟨"org", "open"⟩
                 excludes := [⟨some "com", some "*"⟩] }]
           constraints := [{ module := ⟨"org", "open"⟩, constraint := .require "1.0" }]
           artifacts := [⟨"library.jar", "library.jar", ⟨"out/library.jar"⟩⟩]
           capabilities := [⟨"org", "library", none⟩] }]
      children := ["library-jvm"] }

def libraryJvm : Publication where
  coordinates := ⟨"org", "library-jvm", "1.0"⟩
  component := { name := "library-jvm", variants := [{ name := "jvm" }] }

/-- A build in which every file has the same content. -/
def uniformBuild : Build where
  tool := { version := "1.0", buildId := some "build" }
  measure? _ := some ⟨4, "sha1", "md5"⟩

theorem exists_read_write_of_document_library :
    ∃ d, library.document uniformBuild [library, libraryJvm] = .ok d ∧
      d.variants.map Document.Variant.name = ["api", "jvm"] ∧
      ∃ d', Document.read d.write = .ok d' ∧ library.IsReadAs uniformBuild [library, libraryJvm]
        (d'.moduleData library.coordinates) := by
  have hok : (library.document uniformBuild [library, libraryJvm]).toOption.map
      (fun d => d.variants.map Document.Variant.name) = some ["api", "jvm"] := by
    decide +kernel
  have hexternal : ∀ v ∈ library.component.variants, ∀ e ∈ v.dependencies,
      ∃ m, e.target = .module m := by
    simp [library]
  have hmapping : ∀ v ∈ library.component.variants, library.mappingFor? v = none :=
    fun _ _ => rfl
  cases h : library.document uniformBuild [library, libraryJvm] with
  | error e => simp [h, Except.toOption] at hok
  | ok d =>
    refine ⟨d, rfl, ?_, exists_read_write_of_document h hexternal hmapping⟩
    simpa [h, Except.toOption] using hok

end Publication

end VariantGraph
