import VariantGraph.Graph
import VariantGraph.Layout

/-!
# Publications

What a build publishes: components with their variants, each under coordinates of its own. A
component may name others as its children, whose variants it then advertises; it is their owner.
Where several publications have the same component name the last one counts, and so does the last
owner.
-/

namespace VariantGraph

/-- What a published dependency is on. -/
inductive PublishedTarget where
  | module (id : ModuleId)
  /-- Another project of the build, by its name. -/
  | project (name : String)
deriving DecidableEq

/-- A dependency of a published variant. -/
structure PublishedDependency where
  target : PublishedTarget
  constraint : VersionConstraint := VersionConstraint.any
  excludes : List ExcludeRule := []
  transitive : Bool := true
  attributes : Attributes := Table.empty
  capabilities : List CapabilityId := []
  reason : Option String := none
deriving DecidableEq

namespace PublishedDependency

/-- The dependency that a resolution follows, as it is published. -/
def ofDependency (d : Dependency) : PublishedDependency :=
  { target := .module d.module
    constraint := d.constraint
    excludes := OrderedSet.elements d.excludes
    transitive := d.transitive
    attributes := d.attributes
    capabilities := d.capabilities
    reason := d.reason }

/-- A dependency on a project, whose version is the project's own. -/
def ofProject (name : String) : PublishedDependency := { target := .project name }

end PublishedDependency

/-- A file that is published with a variant. -/
structure Artifact where
  name : String
  /-- The address seen from the document. -/
  url : String
  file : Path
deriving DecidableEq

/-- A file that is published beside the document under its own name. -/
def Artifact.ofFile (file : Path) : Artifact :=
  { name := file.fileName?.getD "", url := file.fileName?.getD "", file := file }

/-- A variant of a published component. -/
structure PublishedVariant where
  name : String
  attributes : Attributes := Table.empty
  dependencies : List PublishedDependency := []
  constraints : List DependencyConstraint := []
  artifacts : List Artifact := []
  capabilities : List Capability := []
  /-- Excludes that hold for every transitive dependency of the variant. -/
  excludes : List ExcludeRule := []
deriving DecidableEq

/-- What is published under one name of the build. -/
structure PublishedComponent where
  name : String
  variants : List PublishedVariant := []
  /-- The names of the components whose variants are advertised too. -/
  children : List String := []
deriving DecidableEq

/-! ## Version mappings -/

/-- Coordinates that take the place of the declared ones in what is published. -/
structure VersionMapping where
  /-- Whether variants with some attributes are mapped. -/
  appliesTo : Attributes → Bool
  /-- The coordinates that a module is published with. -/
  coordinates? : ModuleId → Option Coordinates

namespace VersionMapping

/-- The mapping of a table. With attributes it holds for variants that have exactly these. -/
def ofTable (t : Table ModuleId Coordinates) (only : Option Attributes) : VersionMapping where
  appliesTo a := only.all (· = a)
  coordinates? m := t.get? m

/-- Whether a variant carries attributes that stand for the same values, among others. -/
def carries (variant wanted : Attributes) : Bool :=
  wanted.toList.all fun e => (variant.get? e.1).any fun v => v.same e.2

/-- The mapping of every module of a graph to the version that it was resolved to. With attributes
it holds for variants that carry these. -/
def ofGraph (g : Graph) (only : Option Attributes) : VersionMapping where
  appliesTo a := only.all (carries a ·)
  coordinates? m := (Table.ofList (g.nodes.map fun n => (n.module, n.id))).get? m

end VersionMapping

/-- A component that is published under coordinates. -/
structure Publication where
  coordinates : Coordinates
  component : PublishedComponent
  attributes : Attributes := Table.empty
  /-- Of the mappings the first one that applies to a variant counts. -/
  mappings : List VersionMapping := []

namespace Publication

/-- The mapping for a variant. -/
def mappingFor? (p : Publication) (v : PublishedVariant) : Option VersionMapping :=
  p.mappings.find? fun m => m.appliesTo v.attributes

/-- The publication of a component name. -/
def named? (all : List Publication) (name : String) : Option Publication :=
  all.reverse.find? fun p => p.component.name == name

/-- The publication whose component owns the component of a name. -/
def ownerOf? (all : List Publication) (name : String) : Option Publication :=
  (all.reverse.find? fun p => p.component.children.contains name).bind fun p =>
    named? all p.component.name

end Publication

end VariantGraph
