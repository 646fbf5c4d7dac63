import VariantGraph.Manifest.Dependencies
import VariantGraph.Publication

/-!
# The publications of a manifest

What a project publishes. Its own publication holds the variants that are part of the project.
Variants that other modules hold are grouped by their host, in the order in which the hosts are
first named; each host is a child of the project. If the project has an owner, it is a child of it.

Main statements: `Manifest.mem_hostsOf` says that every host is named, `Manifest.publications_own`
what the project's own publication is.
-/

namespace VariantGraph.Manifest

/-! ## Files and dependencies -/

/-- The file that is published for an entry. A name of its own is its address too, unless that is
given. -/
def FileEntry.artifact (e : FileEntry) (root : Path) : Artifact :=
  let a := Artifact.ofFile (root.join e.path)
  { a with
    name := e.name.getD a.name
    url := (e.url <|> e.name).getD a.url }

/-- The dependency that is published for a declaration. A dependency on a project names
the project. -/
def publishedDependency (projects : Table String String) (d : Declaration) :
    Except ManifestError PublishedDependency := do
  let resolved ← d.dependency projects
  let target ← d.target projects
  let published := PublishedDependency.ofDependency resolved
  return match target with
    | .module _ => published
    | .project name _ => { published with target := .project name }

/-! ## Variants -/

/-- The dependencies of a variant that is part of the project. -/
def VariantEntry.allDependencies (v : VariantEntry) (m : Manifest) : List Declaration :=
  (if v.inheritDependencies then m.dependencies else []) ++ v.dependencies

/-- The constraints of a variant that is part of the project. -/
def VariantEntry.allConstraints (v : VariantEntry) (m : Manifest) : List Declaration :=
  (if v.inheritDependencies then m.constraints else []) ++ v.constraints

/-- The variant that is published for an entry, if it is part of the project. -/
def localVariant (m : Manifest) (root : Path) (v : VariantEntry) :
    Except ManifestError PublishedVariant := do
  let dependencies ← (v.allDependencies m).mapM (publishedDependency m.projects)
  let constraints ← (v.allConstraints m).mapM fun c => c.dependencyConstraint m.projects
  let capabilities ← readCapabilities v.capabilities
  let excludes ← readExcludes v.excludes
  return {
    name := v.name
    attributes := v.attributes
    dependencies := dependencies
    constraints := constraints
    artifacts := v.files.map fun f => f.artifact root
    capabilities := capabilities
    excludes := excludes }

/-- The module that holds a variant, if it is not the project. -/
def VariantEntry.host (v : VariantEntry) : Except ManifestError (Option Coordinates) :=
  match v.availableAt with
  | some s => (readOr (.invalidHost s v.name) (Coordinates.parse? s)).map some
  | none => .ok none

/-- A variant with the module that holds it, if it is not the project. -/
structure PlacedVariant where
  host : Option Coordinates
  variant : PublishedVariant
deriving DecidableEq

/-- Places the variant of an entry. -/
def placeVariant (m : Manifest) (root : Path) (v : VariantEntry) :
    Except ManifestError PlacedVariant := do
  match ← v.host with
  | some host => return ⟨some host, { name := v.name, attributes := v.attributes }⟩
  | none => return ⟨none, ← localVariant m root v⟩

/-- The modules that hold variants, in the order in which they are named first. -/
def hostsOf (l : List PlacedVariant) : List Coordinates :=
  (l.filterMap PlacedVariant.host).eraseDups

theorem mem_hostsOf {host : Coordinates} {l : List PlacedVariant} :
    host ∈ hostsOf l ↔ ∃ v ∈ l, v.host = some host := by
  simp [hostsOf]

/-- The variants that a module holds. -/
def heldBy (host : Option Coordinates) (l : List PlacedVariant) : List PublishedVariant :=
  (l.filter fun v => v.host == host).map PlacedVariant.variant

/-! ## Publications -/

/-- The owner of the component. -/
def owner (m : Manifest) : Except ManifestError (Option Coordinates) :=
  match m.component.owner with
  | some s => (readOr (.invalidOwner s) (Coordinates.parse? s)).map some
  | none => .ok none

/-- The publication of the project itself. -/
def ownPublication (m : Manifest) (l : List PlacedVariant) : Publication where
  coordinates := m.component.id
  component := {
    name := m.component.module
    variants := heldBy none l
    children := (hostsOf l).map Coordinates.text }
  attributes := m.component.attributes

/-- The publication of a module that holds variants. -/
def hostPublication (l : List PlacedVariant) (host : Coordinates) : Publication where
  coordinates := host
  component := { name := host.text, variants := heldBy (some host) l }

/-- The publication of the owner. -/
def ownerPublication (m : Manifest) (owner : Coordinates) : Publication where
  coordinates := owner
  component := { name := owner.text, children := [m.component.module] }

/-- Everything that a project publishes. -/
structure Publications where
  /-- The publication of the project itself. -/
  own : Publication
  /-- The publications of the modules that hold variants, and that of the owner. -/
  others : List Publication

/-- All publications, the project's own one first. -/
def Publications.all (p : Publications) : List Publication := p.own :: p.others

/-- Everything that the project publishes. -/
def publications (m : Manifest) (root : Path) : Except ManifestError Publications := do
  let placed ← m.variants.mapM (placeVariant m root)
  let owner ← m.owner
  return {
    own := m.ownPublication placed
    others := (hostsOf placed).map (hostPublication placed) ++ owner.toList.map m.ownerPublication }

/-- The coordinates of the projects of the build. -/
def projectTable (m : Manifest) : Except ManifestError (Table String Coordinates) :=
  (m.projects.toList.mapM fun e => (readProject e.1 e.2).map fun id => (e.1, id)).map Table.ofList

theorem publications_own {m : Manifest} {root : Path} {p : Publications}
    (h : m.publications root = .ok p) :
    ∃ l, m.variants.mapM (placeVariant m root) = .ok l ∧ p.own = m.ownPublication l := by
  unfold publications at h
  cases hp : m.variants.mapM (placeVariant m root) with
  | error e => simp [hp, bind, Except.bind] at h
  | ok placed =>
    cases ho : m.owner with
    | error e => simp [hp, ho, bind, Except.bind] at h
    | ok owner =>
      simp only [hp, ho, bind, Except.bind, pure, Except.pure, Except.ok.injEq] at h
      subst h
      exact ⟨placed, rfl, rfl⟩

end VariantGraph.Manifest
