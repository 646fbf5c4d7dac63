import VariantGraph.Proofs.Publication.Publishing
import VariantGraph.Proofs.Publication.Reading
import VariantGraph.Proofs.Table

/-!
# Declared dependencies and published ones

A declaration of a manifest means a dependency to the resolution of the project. It is published
too, and another project reads it in the document. For a dependency on a module, what is read is
what the declaration means. For a dependency on another project of the build only the version of
that project is written: what else the declaration asks for, or another version, is lost.

Main statements: `Manifest.published_requiring_eq_iff` says when a declaration on a project asks for
no more than is written, `Project.isReadAs_of_publish` how the declarations of a project are read in
its document.
-/

namespace VariantGraph

open Document Publication

/-! ## Agreement -/

/-- A dependency that is read asks for what another one means, where a strict version is also a
required one and an empty reason is none. -/
structure Dependency.AgreesWith (r d : Dependency) : Prop where
  module : r.module = d.module
  required : r.constraint.required = (d.constraint.required <|> d.constraint.strict)
  preferred : r.constraint.preferred = d.constraint.preferred
  strict : r.constraint.strict = d.constraint.strict
  rejects : r.constraint.rejects = d.constraint.rejects
  forSubgraph : r.constraint.forSubgraph = d.constraint.forSubgraph
  capabilities : r.capabilities = d.capabilities
  reason : r.reason = d.reason.filter (· ≠ "")

theorem VersionConstraint.eq_published_iff {c d : VersionConstraint} : c = d.published ↔
    c.preferred = d.preferred ∧ c.required = (d.required <|> d.strict) ∧ c.strict = d.strict ∧
      c.rejects = d.rejects ∧ c.forSubgraph = d.forSubgraph := by
  obtain ⟨preferred, required, strict, rejects, forSubgraph⟩ := c
  simp only [published, mk.injEq]

namespace Manifest

variable {m : Manifest} {root : Path} {e : Declaration}

/-- A declaration asks for nothing but some version. -/
structure Declaration.RequiresOnly (e : Declaration) (version : String) : Prop where
  strictly : e.strictly = none
  prefers : e.prefers = none
  rejects : e.rejects = []
  forSubgraph : e.forSubgraph = false
  requires : ∀ v, (e.requires <|> e.version) = some v → v = version

/-- The constraint of a dependency on a target as it is read. Of a project it is the version. -/
def Target.writtenConstraint (c : VersionConstraint) : Target → VersionConstraint
  | .module _ => c.published
  | .project _ id => .require id.version

/-- How the declaration of a dependency is read, which is on a target and means some dependency to
the resolution of the project. -/
structure Declaration.IsReadAs (projects : Table String String) (e : Declaration) (target : Target)
    (spec r : Dependency) : Prop where
  target_eq : e.target projects = .ok target
  spec_eq : e.dependency projects = .ok spec
  module : r.module = spec.module
  constraint : r.constraint = target.writtenConstraint spec.constraint
  capabilities : r.capabilities = spec.capabilities
  reason : r.reason = spec.reason.filter (· ≠ "")

theorem Declaration.requiresOnly_iff {version : String} : e.RequiresOnly version ↔
    e.strictly = none ∧ e.prefers = none ∧ e.rejects = [] ∧ e.forSubgraph = false ∧
      ∀ v, (e.requires <|> e.version) = some v → v = version :=
  ⟨fun h => ⟨h.strictly, h.prefers, h.rejects, h.forSubgraph, h.requires⟩,
    fun h => ⟨h.1, h.2.1, h.2.2.1, h.2.2.2.1, h.2.2.2.2⟩⟩

/-- A dependency on a project that asks for no version requires that of the project, and nothing is
lost when only this is written. -/
theorem published_requiring_eq_iff {version : String} :
    (Declaration.requiring e.constraint version).published = .require version ↔
      e.RequiresOnly version := by
  rw [Declaration.requiresOnly_iff]
  unfold Declaration.requiring Declaration.constraint VersionConstraint.require
    VersionConstraint.published VersionConstraint.requestedVersion
  -- A strict and a preferred version stay in the constraint, where the written one has none.
  cases e.strictly with
  | some s => simp [VersionConstraint.strictly]
  | none =>
    cases e.prefers with
    | some preferred => cases (e.requires <|> e.version) <;> simp
    | none =>
      cases (e.requires <|> e.version) with
      | none => simp
      | some required => grind

theorem get?_projectTable {projects : Table String Coordinates} (h : m.projectTable = .ok projects)
    {name s : String} {id : Coordinates} (hname : m.projects.get? name = some s)
    (hid : readProject name s = .ok id) : projects.get? name = some id := by
  obtain ⟨l, hl, rfl⟩ := map_eq_ok_iff.1 h
  have hkeys : l.map Prod.fst = m.projects.toList.map Prod.fst := by
    refine map_eq_map_of_mapM_eq_ok hl fun e _ b hb => ?_
    obtain ⟨id, -, rfl⟩ := map_eq_ok_iff.1 hb
    rfl
  have hascending : l.Pairwise fun a b => compare a.1 b.1 = .lt := by
    have hpairwise : (m.projects.toList.map Prod.fst).Pairwise fun a b => compare a b = .lt :=
      List.pairwise_map.2 m.projects.ascending
    rw [← hkeys] at hpairwise
    exact List.pairwise_map.1 hpairwise
  obtain ⟨b, hb, hread⟩ := exists_of_mem_of_forall₂ (mapM_eq_ok_iff.1 hl)
    (Table.mem_toList_iff.2 hname)
  simp only [hid, Except.map, Except.ok.injEq] at hread
  subst hread
  rw [Table.ofList, Table.get?_insertMany_of_ascending hascending,
    Table.lookupEntry_of_mem hascending hb]
  rfl

/-! ## Writing and reading -/

theorem exists_of_dependency {projects : Table String String} {spec : Dependency}
    (h : e.dependency projects = .ok spec) :
    ∃ target, e.target projects = .ok target ∧ spec.module = target.moduleId ∧
      spec.constraint = e.constraintOn target := by
  obtain ⟨target, htarget, h⟩ := bind_eq_ok_iff.1 h
  obtain ⟨excludes, -, h⟩ := bind_eq_ok_iff.1 h
  obtain ⟨capabilities, -, h⟩ := bind_eq_ok_iff.1 h
  obtain rfl := Except.ok.inj h
  exact ⟨target, htarget, rfl, rfl⟩

/-- The coordinates of a declared project are those of the manifest. -/
theorem exists_of_target_project {projects : Table String String} {name : String}
    {id : Coordinates} (h : e.target projects = .ok (.project name id)) :
    ∃ s, projects.get? name = some s ∧ readProject name s = .ok id := by
  unfold Declaration.target at h
  split at h
  · obtain ⟨id', -, htarget⟩ := map_eq_ok_iff.1 h
    cases htarget
  · split at h
    · next s hs =>
      obtain ⟨id', hread, htarget⟩ := map_eq_ok_iff.1 h
      obtain ⟨rfl, rfl⟩ := Target.project.inj htarget
      exact ⟨s, hs, hread⟩
    · cases h
  · cases h
  · cases h

/-- What is published for a declaration. -/
theorem exists_of_publishedDependency {projects : Table String String}
    {published : PublishedDependency} (h : publishedDependency projects e = .ok published) :
    ∃ spec target, e.dependency projects = .ok spec ∧ e.target projects = .ok target ∧
      published = { PublishedDependency.ofDependency spec with
        target := match target with
          | .module _ => .module spec.module
          | .project name _ => .project name } := by
  obtain ⟨spec, hspec, h⟩ := bind_eq_ok_iff.1 h
  obtain ⟨target, htarget, h⟩ := bind_eq_ok_iff.1 h
  obtain rfl := Except.ok.inj h
  refine ⟨spec, target, hspec, htarget, ?_⟩
  cases target <;> rfl

theorem isReadAs_of_dependencyOf {published : PublishedDependency}
    (h : publishedDependency m.projects e = .ok published) {b : Build}
    (hprojects : m.projectTable = .ok b.projects) {global : List ExcludeRule}
    {w : Document.Dependency} (hw : dependencyOf b none global published = .ok w) :
    ∃ target spec, e.IsReadAs m.projects target spec w.meaning := by
  obtain ⟨spec, target, hspec, htarget, rfl⟩ := exists_of_publishedDependency h
  obtain ⟨target', htarget', hmodule, hconstraint⟩ := exists_of_dependency hspec
  obtain rfl := Except.ok.inj (htarget.symm.trans htarget')
  refine ⟨target, spec, ?_⟩
  obtain ⟨written, hwritten, hw⟩ := bind_eq_ok_iff.1 hw
  obtain ⟨attributes, -, hw⟩ := bind_eq_ok_iff.1 hw
  obtain rfl := Except.ok.inj hw
  have hcapabilities : (spec.capabilities.map fun c => (⟨c.group, c.name, none⟩ : Capability)).map
      Capability.id = spec.capabilities := by
    simp [Function.comp_def, Capability.id]
  cases target with
  | module id =>
    obtain rfl := Except.ok.inj hwritten
    exact
      { target_eq := htarget
        spec_eq := hspec
        module := rfl
        constraint := constraintOf_versionOf spec.constraint
        capabilities := hcapabilities
        reason := rfl }
  | project name id =>
    obtain ⟨s, hs, hread⟩ := exists_of_target_project htarget
    rw [targetOf] at hwritten
    dsimp only at hwritten
    rw [get?_projectTable hprojects hs hread] at hwritten
    obtain rfl := Except.ok.inj hwritten
    exact
      { target_eq := htarget
        spec_eq := hspec
        module := hmodule.symm
        constraint := constraintOf_versionOf (.require id.version)
        capabilities := hcapabilities
        reason := rfl }

/-- Nothing is lost of a dependency on a module, and nothing of one on a project that asks for its
version only. -/
theorem agreesWith_iff {projects : Table String String} {spec r : Dependency} {target : Target}
    (h : e.IsReadAs projects target spec r) : r.AgreesWith spec ↔
      ∀ name id, target = .project name id → e.RequiresOnly id.version := by
  obtain ⟨target', htarget', -, hconstraint⟩ := exists_of_dependency h.spec_eq
  obtain rfl := Except.ok.inj (h.target_eq.symm.trans htarget')
  have hagrees : r.AgreesWith spec ↔ r.constraint = spec.constraint.published := by
    constructor
    · intro ha
      exact VersionConstraint.eq_published_iff.2
        ⟨ha.preferred, ha.required, ha.strict, ha.rejects, ha.forSubgraph⟩
    · intro hr
      obtain ⟨hpreferred, hrequired, hstrict, hrejects, hforSubgraph⟩ :=
        VersionConstraint.eq_published_iff.1 hr
      exact ⟨h.module, hrequired, hpreferred, hstrict, hrejects, hforSubgraph, h.capabilities,
        h.reason⟩
  rw [hagrees, h.constraint, hconstraint]
  cases target with
  | module id =>
    simp [Target.writtenConstraint, Declaration.constraintOn]
  | project name id =>
    rw [Target.writtenConstraint, Declaration.constraintOn, eq_comm, published_requiring_eq_iff]
    simp

/-- How the dependencies of a variant of the project are read. -/
theorem forall₂_isReadAs_of_localVariant {v : VariantEntry} {x : PublishedVariant}
    {w : Document.Variant} (hx : Manifest.localVariant m root v = .ok x) {b : Build}
    (hprojects : m.projectTable = .ok b.projects) {p : Publication} (hp : p.mappings = [])
    (hw : Publication.localVariant b p x = .ok w) :
    List.Forall₂ (fun e r => ∃ target spec, Declaration.IsReadAs m.projects e target spec r)
      (v.allDependencies m) w.meaning.dependencies := by
  have hmapping : p.mappingFor? x = none := by
    rw [mappingFor?, hp]
    rfl
  obtain ⟨dependencies, hdependencies, hx⟩ := bind_eq_ok_iff.1 hx
  obtain ⟨constraints, -, hx⟩ := bind_eq_ok_iff.1 hx
  obtain ⟨capabilities, -, hx⟩ := bind_eq_ok_iff.1 hx
  obtain ⟨excludes, -, hx⟩ := bind_eq_ok_iff.1 hx
  obtain rfl := Except.ok.inj hx
  rw [Publication.localVariant, hmapping] at hw
  obtain ⟨written, hwritten, hw⟩ := bind_eq_ok_iff.1 hw
  obtain ⟨writtenConstraints, -, hw⟩ := bind_eq_ok_iff.1 hw
  obtain ⟨files, -, hw⟩ := bind_eq_ok_iff.1 hw
  obtain ⟨attributes, -, hw⟩ := bind_eq_ok_iff.1 hw
  obtain rfl := Except.ok.inj hw
  refine List.forall₂_map_right_iff.2 ?_
  exact forall₂_of_forall₂_mapM (mapM_eq_ok_iff.1 hdependencies) hwritten
    fun e _ published w he hw => isReadAs_of_dependencyOf he hprojects hw

end Manifest

namespace Project

/-- When a project is published with the declared versions, its document is read with the variants
of the project first, and their dependencies belong to those that are declared for the variants or
inherited. Each of them asks for what its declaration means to the resolution of the project, unless
it is on a project of the build and asks for anything but its version. -/
theorem isReadAs_of_publish {t t' : FileTree} {c : Config} {atHand : String} {o : PublishOptions}
    {file path : Path} (h : publish t c atHand o file = (t', .ok path))
    (ho : o.resolvedVersions = false) :
    ∃ p d own linked, load t file = .ok p ∧ t'.HoldsDocument path d ∧
      (d.moduleData p.manifest.component.id).variants = own ++ linked ∧
      List.Forall₂ (fun v r => List.Forall₂
          (fun e x => ∃ target spec,
            Manifest.Declaration.IsReadAs p.manifest.projects e target spec x ∧
            (x.AgreesWith spec ↔
              ∀ name id, target = .project name id → e.RequiresOnly id.version))
          (Manifest.VariantEntry.allDependencies v p.manifest) (Variant.dependencies r))
        (p.manifest.entriesAt none) own := by
  obtain ⟨p, d, placed, owner, mappings, projects, hload, hholds, hprepares⟩ := exists_of_publish h
  obtain ⟨own, children, hown, -, hvariants⟩ := variants_of_document hprepares.document_eq
  have hmappings : [] = mappings := by
    have heq := hprepares.mappings_eq
    rw [Project.mappings, ho] at heq
    exact Except.ok.inj heq
  refine ⟨p, d, own.map Variant.meaning, children.flatten.map Variant.meaning, hload, hholds,
    ?_, ?_⟩
  · rw [variants_moduleData, hvariants, List.map_append]
  · refine List.forall₂_map_right_iff.2 ?_
    refine forall₂_of_forall₂_mapM
      (Manifest.forall₂_isPlacedAs_heldBy hprepares.placed_eq none) hown ?_
    intro v hv x w hx hw
    have hlocal := hx.here (Manifest.host?_of_mem_entriesAt hv)
    have hread := Manifest.forall₂_isReadAs_of_localVariant hlocal hprepares.projects_eq
      hmappings.symm hw
    refine hread.imp ?_
    rintro e r ⟨target, spec, hr⟩
    exact ⟨target, spec, hr, Manifest.agreesWith_iff hr⟩

/-- The library asks for a strict version of a project. What is read of it is not strict. -/
theorem isReadAs_of_publish_libraryTree :
    ∃ t' d api linked spec x, publish libraryTree {} "build" {} ⟨manifestName⟩ =
        (t', .ok ⟨"./repo/g/lib/1/lib-1.module"⟩) ∧
      t'.HoldsDocument ⟨"./repo/g/lib/1/lib-1.module"⟩ d ∧
      (d.moduleData libraryManifest.component.id).variants = api :: linked ∧
      api.dependencies = [x] ∧ coreDeclaration.dependency libraryManifest.projects = .ok spec ∧
      spec.constraint = .strictly "1" ∧ x.constraint = .require "1" ∧ ¬ x.AgreesWith spec := by
  obtain ⟨t', hpublish⟩ := publish_libraryTree
  obtain ⟨p, d, own, linked, hload, hholds, hvariants, hread⟩ := isReadAs_of_publish hpublish rfl
  obtain rfl := Except.ok.inj (load_libraryTree.symm.trans hload)
  have hentries : libraryProject.manifest.entriesAt none =
      [{ name := "api", dependencies := [coreDeclaration] }] := by
    decide +kernel
  rw [hentries] at hread
  obtain ⟨api, own, hapi, hrest, rfl⟩ := List.forall₂_cons_left_iff.1 hread
  obtain rfl := List.forall₂_nil_left_iff.1 hrest
  obtain ⟨x, deps, ⟨target, spec, hx, hagrees⟩, hnoOther, hdeps⟩ :=
    List.forall₂_cons_left_iff.1 hapi
  obtain rfl := List.forall₂_nil_left_iff.1 hnoOther
  have htarget : coreDeclaration.target libraryManifest.projects =
      .ok (.project "core" ⟨"g", "core", "1"⟩) := by
    decide +kernel
  have hstrict : (coreDeclaration.dependency libraryManifest.projects).toOption.map
      Dependency.constraint = some (.strictly "1") := by
    decide +kernel
  have hspec : coreDeclaration.dependency libraryManifest.projects = .ok spec := hx.spec_eq
  rw [hspec] at hstrict
  obtain rfl := Except.ok.inj (htarget.symm.trans hx.target_eq)
  refine ⟨t', d, api, linked, spec, x, hpublish, hholds, hvariants, hdeps, hspec,
    Option.some.inj hstrict, hx.constraint, fun h => ?_⟩
  have hnone := (hagrees.1 h "core" ⟨"g", "core", "1"⟩ rfl).strictly
  cases hnone

end Project

end VariantGraph
