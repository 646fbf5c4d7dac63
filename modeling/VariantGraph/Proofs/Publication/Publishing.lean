import VariantGraph.Project.Publishing
import VariantGraph.Proofs.Document.RoundTrip
import VariantGraph.Proofs.FileTree

/-!
# What publishing a project writes

When a project is published, the file that is said to hold its document does, and the document is
put together from the variants that the manifest declares.

Main statements: `Project.exists_of_publish` for the way from the file of the manifest to that of
the document, `Manifest.forall₂_isPlacedAs_heldBy` for the way from the entries of the manifest to
the publications.
-/

namespace VariantGraph

theorem mapError_eq_ok_iff {α ε ε' : Type} {x : Except ε α} {f : ε → ε'} {a : α} :
    x.mapError f = .ok a ↔ x = .ok a := by
  cases x <;> simp [Except.mapError]

theorem map_eq_ok_iff {α β ε : Type} {x : Except ε α} {f : α → β} {b : β} :
    x.map f = .ok b ↔ ∃ a, x = .ok a ∧ f a = b := by
  cases x <;> simp [Except.map]

/-- A document is what the file at a path is read as. -/
structure FileTree.HoldsDocument (t : FileTree) (path : Path) (d : Document) : Prop where
  text : t.readText path = .ok d.write
  document : Document.read d.write = .ok d

namespace Manifest

variable {m : Manifest} {root : Path}

theorem readOr_eq_ok_iff {α ε : Type} {error : ε} {o : Option α} {a : α} :
    readOr error o = .ok a ↔ o = some a := by
  cases o <;> simp [readOr]

/-! ## The places of variants -/

/-- The module that holds the variant of an entry, if it is not the project. -/
def VariantEntry.host? (v : VariantEntry) : Option Coordinates :=
  v.availableAt.bind Coordinates.parse?

/-- How the variant of an entry is published. -/
structure VariantEntry.IsPlacedAs (m : Manifest) (root : Path) (v : VariantEntry)
    (w : PublishedVariant) : Prop where
  name : w.name = v.name
  attributes : w.attributes = v.attributes
  here : v.host? = none → Manifest.localVariant m root v = .ok w

theorem VariantEntry.host?_of_host {v : VariantEntry} {place : Option Coordinates}
    (h : v.host = .ok place) : v.host? = place := by
  unfold host at h
  unfold host?
  split at h
  · next s hs =>
    obtain ⟨id, hid, rfl⟩ := map_eq_ok_iff.1 h
    rw [hs]
    exact readOr_eq_ok_iff.1 hid
  · next hnone =>
    rw [hnone]
    exact Except.ok.inj h

theorem isPlacedAs_of_localVariant {v : VariantEntry} {w : PublishedVariant}
    (h : Manifest.localVariant m root v = .ok w) : v.IsPlacedAs m root w := by
  have hlocal := h
  obtain ⟨dependencies, -, h⟩ := bind_eq_ok_iff.1 h
  obtain ⟨constraints, -, h⟩ := bind_eq_ok_iff.1 h
  obtain ⟨capabilities, -, h⟩ := bind_eq_ok_iff.1 h
  obtain ⟨excludes, -, h⟩ := bind_eq_ok_iff.1 h
  obtain rfl := Except.ok.inj h
  exact ⟨rfl, rfl, fun _ => hlocal⟩

theorem isPlacedAs_of_placeVariant {v : VariantEntry} {w : PlacedVariant}
    (h : placeVariant m root v = .ok w) :
    w.host = v.host? ∧ v.IsPlacedAs m root w.variant := by
  obtain ⟨host, hhost, h⟩ := bind_eq_ok_iff.1 h
  have hhost := VariantEntry.host?_of_host hhost
  cases host with
  | none =>
    obtain ⟨x, hx, h⟩ := bind_eq_ok_iff.1 h
    obtain rfl := Except.ok.inj h
    exact ⟨hhost.symm, isPlacedAs_of_localVariant hx⟩
  | some host =>
    obtain rfl := Except.ok.inj h
    exact ⟨hhost.symm, rfl, rfl, fun hnone => by rw [hhost] at hnone; cases hnone⟩

/-- The entries of the variants that a module holds, or the project. -/
def entriesAt (m : Manifest) (host : Option Coordinates) : List VariantEntry :=
  m.variants.filter fun v => v.host? == host

theorem host?_of_mem_entriesAt {v : VariantEntry} {host : Option Coordinates}
    (h : v ∈ m.entriesAt host) : v.host? = host :=
  beq_iff_eq.1 (List.mem_filter.1 h).2

/-- The modules that hold variants, in the order in which they are named first. -/
def hosts (m : Manifest) : List Coordinates :=
  (m.variants.filterMap VariantEntry.host?).eraseDups

theorem hostsOf_eq_hosts {placed : List PlacedVariant}
    (h : m.variants.mapM (placeVariant m root) = .ok placed) : hostsOf placed = m.hosts := by
  have hhosts : placed.map PlacedVariant.host = m.variants.map VariantEntry.host? :=
    map_eq_map_of_mapM_eq_ok h fun v _ w hw => (isPlacedAs_of_placeVariant hw).1
  have hfilter := congrArg (List.filterMap id) hhosts
  rw [List.filterMap_map, List.filterMap_map, Function.id_comp, Function.id_comp] at hfilter
  rw [hostsOf, hosts, hfilter]

/-- A module holds the variants whose entries name it, in their order. -/
theorem forall₂_isPlacedAs_heldBy {placed : List PlacedVariant}
    (h : m.variants.mapM (placeVariant m root) = .ok placed) (host : Option Coordinates) :
    List.Forall₂ (VariantEntry.IsPlacedAs m root) (m.entriesAt host) (heldBy host placed) := by
  have hplaced := forall₂_of_mapM_eq_ok h fun v _ w hw => isPlacedAs_of_placeVariant hw
  have hheld := List.rel_filter (p := fun v => v.host? == host) (q := fun w => w.host == host)
    (fun v w hvw => by simp [hvw.1]) hplaced
  exact List.forall₂_map_right_iff.2 (hheld.imp fun v w hvw => hvw.2)

/-! ## The publications -/

/-- The publication of the project itself with some version mappings. -/
def mappedPublication (m : Manifest) (placed : List PlacedVariant)
    (mappings : List VersionMapping) : Publication :=
  { m.ownPublication placed with mappings := mappings }

/-- The publications of the hosts and of the owner. -/
def otherPublications (m : Manifest) (placed : List PlacedVariant) (owner : Option Coordinates) :
    List Publication :=
  (hostsOf placed).map (hostPublication placed) ++ owner.toList.map m.ownerPublication

end Manifest

namespace Project

variable {t t' : FileTree} {c : Config} {atHand : String} {o : PublishOptions} {file path : Path}

theorem load_of_read {content : String} {m : Manifest} (ht : t.readText file = .ok content)
    (hm : Manifest.read content = .ok m) : load t file = .ok ⟨m, file.directory⟩ := by
  rw [load, ht]
  dsimp only
  rw [hm]
  rfl

theorem prepareAt_of_load {p : Project} (h : load t file = .ok p) (c : Config) (atHand : String)
    (o : PublishOptions) : prepareAt t c atHand o file = p.prepare t c atHand o := by
  simp only [prepareAt, h]

/-- What a project prepares its document from. -/
structure Prepares (p : Project) (t : FileTree) (c : Config) (atHand : String) (o : PublishOptions)
    (placed : List Manifest.PlacedVariant) (owner : Option Coordinates)
    (mappings : List VersionMapping) (projects : Table String Coordinates) (d : Document) :
    Prop where
  placed_eq : p.manifest.variants.mapM (Manifest.placeVariant p.manifest p.root) = .ok placed
  owner_eq : p.manifest.owner = .ok owner
  mappings_eq : p.mappings t c o = .ok mappings
  projects_eq : p.manifest.projectTable = .ok projects
  document_eq : (p.manifest.mappedPublication placed mappings).document
    (build t (c.tool atHand) projects)
    (p.manifest.mappedPublication placed mappings :: p.manifest.otherPublications placed owner) =
      .ok d

theorem exists_of_prepare {p : Project} {x : Prepared} (h : p.prepare t c atHand o = .ok x) :
    ∃ placed owner mappings projects,
      p.Prepares t c atHand o placed owner mappings projects x.document := by
  obtain ⟨repository, -, h⟩ := bind_eq_ok_iff.1 h
  obtain ⟨publications, hpublications, h⟩ := bind_eq_ok_iff.1 h
  obtain ⟨mappings, hmappings, h⟩ := bind_eq_ok_iff.1 h
  obtain ⟨projects, hprojects, h⟩ := bind_eq_ok_iff.1 h
  obtain ⟨document, hdocument, h⟩ := bind_eq_ok_iff.1 h
  obtain rfl := Except.ok.inj h
  obtain ⟨placed, hplaced, hpublications⟩ :=
    bind_eq_ok_iff.1 (mapError_eq_ok_iff.1 hpublications)
  obtain ⟨owner, howner, hpublications⟩ := bind_eq_ok_iff.1 hpublications
  obtain rfl := Except.ok.inj hpublications
  exact ⟨placed, owner, mappings, projects, hplaced, howner, hmappings,
    mapError_eq_ok_iff.1 hprojects, mapError_eq_ok_iff.1 hdocument⟩

/-- When a project is published the document that it prepares is in the file. -/
theorem exists_of_publish (h : publish t c atHand o file = (t', .ok path)) :
    ∃ p d placed owner mappings projects, load t file = .ok p ∧ t'.HoldsDocument path d ∧
      p.Prepares t c atHand o placed owner mappings projects d := by
  unfold publish at h
  cases hx : prepareAt t c atHand o file with
  | error e =>
    rw [hx] at h
    cases h
  | ok x =>
    rw [hx] at h
    dsimp only at h
    split at h
    · next t'' hreplace =>
      obtain ⟨rfl, hpath⟩ := Prod.mk.inj h
      obtain rfl := Except.ok.inj hpath
      unfold prepareAt at hx
      split at hx
      · next p hload =>
        obtain ⟨placed, owner, mappings, projects, hprepares⟩ := exists_of_prepare hx
        refine ⟨p, x.document, placed, owner, mappings, projects, hload, ⟨?_, ?_⟩, hprepares⟩
        · exact FileTree.readText_replace hreplace
        · rw [Document.read, Document.parse?_write]
      · cases hx
    · cases h

/-! ### A project -/

/-- A project that asks for a strict version of another project of its build, and one of whose
variants its owner holds. -/
def libraryText : String :=
  "repository='repo'
[component]
group='g'
module='lib'
version='1'
owner='g:all:1'
[projects]
core='g:core:1'
[[variants]]
name='api'
[[variants.dependencies]]
project='core'
strictly='1'
[[variants]]
name='jvm'
available-at='g:all:1'"

def coreDeclaration : Manifest.Declaration := { project := some "core", strictly := some "1" }

def libraryManifest : Manifest where
  repository := some "repo"
  component := { group := "g", module := "lib", version := "1", owner := some "g:all:1" }
  projects := Table.ofList [("core", "g:core:1")]
  variants :=
    [{ name := "api", dependencies := [coreDeclaration] },
      { name := "jvm", availableAt := some "g:all:1" }]

def libraryProject : Project := ⟨libraryManifest, (Path.mk manifestName).directory⟩

def libraryTree : FileTree :=
  ({} : FileTree).put [manifestName] (.file libraryText.toUTF8)

theorem load_put_library {t : FileTree} (h : t.get? [manifestName] ≠ some .directory)
    (hlocate : t.locate ⟨manifestName⟩ = .ok [manifestName]) :
    load (t.put [manifestName] (.file libraryText.toUTF8)) ⟨manifestName⟩ =
      .ok libraryProject := by
  have hmanifest : Manifest.read libraryText = .ok libraryManifest := by
    decide +kernel
  exact load_of_read (FileTree.readText_put h hlocate _) hmanifest

theorem load_libraryTree : load libraryTree ⟨manifestName⟩ = .ok libraryProject :=
  load_put_library (by decide +kernel) (by decide +kernel)

theorem publish_libraryTree : ∃ t', publish libraryTree {} "build" {} ⟨manifestName⟩ =
    (t', .ok ⟨"./repo/g/lib/1/lib-1.module"⟩) := by
  have hwritten : (libraryProject.prepare libraryTree {} "build" {}).toOption.map (fun x =>
      (x.path, (libraryTree.replace x.path ProjectError.file (.ok x.document.write.toUTF8)).2)) =
        some (⟨"./repo/g/lib/1/lib-1.module"⟩, .ok ()) := by
    decide +kernel
  have hprepareAt := prepareAt_of_load load_libraryTree {} "build" {}
  generalize libraryProject.prepare libraryTree {} "build" {} = prepared at hwritten hprepareAt
  cases prepared with
  | error e => cases hwritten
  | ok x =>
    obtain ⟨hpath, hreplace⟩ := Prod.mk.inj (Option.some.inj hwritten)
    cases hresult : libraryTree.replace x.path ProjectError.file (.ok x.document.write.toUTF8) with
    | mk t' result =>
      rw [hresult] at hreplace
      obtain rfl : result = .ok () := hreplace
      exact ⟨t', hpath ▸ publish_of_ok hprepareAt hresult⟩

end Project

namespace Publication

/-- The variants of a document are those of the component and then those of its children. -/
theorem variants_of_document {b : Build} {all : List Publication} {p : Publication} {d : Document}
    (h : p.document b all = .ok d) :
    ∃ own children, p.component.variants.mapM (localVariant b p) = .ok own ∧
      p.component.children.mapM (childVariants all p) = .ok children ∧
      d.variants = own ++ children.flatten := by
  obtain ⟨component, -, h⟩ := bind_eq_ok_iff.1 h
  obtain ⟨variants, hvariants, h⟩ := bind_eq_ok_iff.1 h
  obtain rfl := Except.ok.inj h
  obtain ⟨own, hown, hvariants⟩ := bind_eq_ok_iff.1 hvariants
  obtain ⟨children, hchildren, hvariants⟩ := bind_eq_ok_iff.1 hvariants
  obtain rfl := Except.ok.inj hvariants
  exact ⟨own, children, hown, hchildren, rfl⟩

end Publication

end VariantGraph
