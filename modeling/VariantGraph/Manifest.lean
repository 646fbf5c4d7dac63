import VariantGraph.Dependency
import VariantGraph.Path

/-!
# Manifests

The manifest of a project says what it is, what it depends on, how versions and variants are chosen
for it, and what it publishes. It holds coordinates, excludes and capabilities as they are written:
whether they can be read matters only where they are used.
-/

namespace VariantGraph

namespace Manifest

/-! ## Dependencies -/

/-- A dependency or a dependency constraint. It is on a module or on a project of the build. -/
structure Declaration where
  module : Option String := none
  project : Option String := none
  /-- Another word for the required version. -/
  version : Option String := none
  strictly : Option String := none
  requires : Option String := none
  prefers : Option String := none
  rejects : List String := []
  forSubgraph : Bool := false
  force : Bool := false
  transitive : Bool := true
  excludes : List String := []
  attributes : Attributes := Table.empty
  capabilities : List String := []
  reason : Option String := none
  /-- The name of the wanted variant. -/
  variant : Option String := none
deriving DecidableEq

/-- The version constraint of a declaration. A strict version is the required one too, and
`requires` goes before `version`. -/
def Declaration.constraint (d : Declaration) : VersionConstraint :=
  let start :=
    match d.strictly with
    | some s => VersionConstraint.strictly s
    | none => { required := d.requires <|> d.version }
  { start with preferred := d.prefers, rejects := d.rejects, forSubgraph := d.forSubgraph }

/-! ## Rules -/

/-- A module that is replaced by another one, with a version or without. -/
structure SubstitutionEntry where
  replaced : String
  replacement : String
  reason : Option String := none
deriving DecidableEq

/-- A version that a module always has. -/
structure VersionEntry where
  module : String
  version : String
  reason : Option String := none
deriving DecidableEq

/-- The module that is preferred among those that provide a capability. -/
structure CapabilityEntry where
  capability : String
  prefer : String
  reason : Option String := none
deriving DecidableEq

/-- The rules of a resolution. -/
structure RuleEntries where
  /-- The coordinates of forced versions. -/
  force : List String := []
  substitutions : List SubstitutionEntry := []
  versions : List VersionEntry := []
  capabilities : List CapabilityEntry := []
  /-- The modules whose dependencies bind their subgraphs. -/
  subgraphs : List String := []
deriving DecidableEq

/-! ## Schema -/

/-- The word for a rule of compatibility. -/
inductive CompatibilityWord where
  | equal
  | atMost
  | ordered
deriving DecidableEq, Repr

/-- The word for a rule that chooses between values. -/
inductive DisambiguationWord where
  | highest
  | lowest
  | prefer
  | ordered
deriving DecidableEq, Repr

/-- The rules of an attribute. -/
structure AttributeEntry where
  compatibility : Option CompatibilityWord := none
  disambiguation : Option DisambiguationWord := none
  /-- The value that `prefer` prefers. -/
  value : Option Value := none
  /-- The values that `ordered` orders, the lowest one first. -/
  values : List Value := []
deriving DecidableEq

/-! ## Variants -/

/-- A file of a published variant. -/
structure FileEntry where
  /-- The path of the file, seen from the directory of the manifest. -/
  path : String
  name : Option String := none
  url : Option String := none
deriving DecidableEq

/-- A published variant. -/
structure VariantEntry where
  name : String
  attributes : Attributes := Table.empty
  files : List FileEntry := []
  capabilities : List String := []
  /-- Whether the dependencies and the constraints of the project belong to the variant. -/
  inheritDependencies : Bool := false
  dependencies : List Declaration := []
  constraints : List Declaration := []
  /-- Excludes of every transitive dependency of the variant. -/
  excludes : List String := []
  /-- The coordinates of the module that holds the variant. -/
  availableAt : Option String := none
deriving DecidableEq

/-! ## Components -/

/-- What a project publishes under its own coordinates. -/
structure Component where
  group : String
  module : String
  version : String
  attributes : Attributes := Table.empty
  /-- The coordinates of the component whose document advertises this one. -/
  owner : Option String := none
deriving DecidableEq

/-- The coordinates of a component. -/
def Component.id (c : Component) : Coordinates := ⟨c.group, c.module, c.version⟩

end Manifest

/-- The manifest of a project. -/
structure Manifest where
  /-- The repository of the project, seen from the directory of the manifest. -/
  repository : Option String := none
  component : Manifest.Component
  /-- The attributes that the variants of dependencies are matched with. -/
  consumer : Attributes := Table.empty
  dependencies : List Manifest.Declaration := []
  constraints : List Manifest.Declaration := []
  rules : Manifest.RuleEntries := {}
  schema : Table String Manifest.AttributeEntry := Table.empty
  /-- The coordinates of the projects of the build. -/
  projects : Table String String := Table.empty
  variants : List Manifest.VariantEntry := []
deriving DecidableEq

/-! ## Errors -/

/-- Why a manifest cannot be used. -/
inductive ManifestError where
  /-- A manifest that is asked for by its path is no file. -/
  | absent (file : Path)
  /-- No directory from the current one upwards has a manifest. -/
  | notFound
  | unreadable (file : Path)
  | malformed
  | invalidModule (coordinates : String)
  | unknownProject (name : String)
  | invalidProject (coordinates name : String)
  | ambiguousTarget
  | missingTarget
  | invalidCapability (text : String)
  | invalidExclude (text : String)
  | invalidHost (coordinates variant : String)
  | invalidOwner (coordinates : String)
  | invalidForced (coordinates : String)
  | missingPreference (name : String)
  | missingRepository
deriving DecidableEq, Repr

namespace ManifestError

/-- The words for an error. -/
def reason : ManifestError → String
  | absent file => file.text ++ " does not exist"
  | notFound => "No Modgraph.toml found in current directory or any parent"
  | unreadable file => "Failed to read " ++ file.text
  | malformed => "Failed to parse Modgraph.toml"
  | invalidModule c => "Invalid module coordinates '" ++ c ++ "'"
  | unknownProject name => "Unknown project '" ++ name ++ "'"
  | invalidProject c name => "Invalid coordinates '" ++ c ++ "' for project '" ++ name ++ "'"
  | ambiguousTarget => "A dependency cannot declare both 'module' and 'project'"
  | missingTarget => "A dependency must declare 'module' or 'project'"
  | invalidCapability text => "Invalid capability '" ++ text ++ "'"
  | invalidExclude text => "Invalid exclude '" ++ text ++ "'"
  | invalidHost c variant =>
    "Invalid available-at coordinates '" ++ c ++ "' in variant '" ++ variant ++ "'"
  | invalidOwner c => "Invalid owner coordinates '" ++ c ++ "'"
  | invalidForced c => "Invalid forced coordinates '" ++ c ++ "'"
  | missingPreference name =>
    "Attribute '" ++ name ++ "' prefers a value but does not name one"
  | missingRepository => "No 'repository' configured in Modgraph.toml"

/-- What a reader is told. -/
def message (e : ManifestError) : String := "Manifest error: " ++ e.reason

end ManifestError

end VariantGraph
