import VariantGraph.Attribute
import VariantGraph.Constraint
import VariantGraph.Coordinates.Capability
import VariantGraph.Coordinates.Exclude

/-!
# Dependencies

A dependency brings a module into the graph and says which version and which variant is wanted. A
dependency constraint asks for a version only if the module comes in by another way.
-/

namespace VariantGraph

/-- A dependency on a module. -/
structure Dependency where
  module : ModuleId
  constraint : VersionConstraint
  excludes : OrderedSet ExcludeRule := Table.empty
  transitive : Bool := true
  /-- A forced version wins over every other request. -/
  force : Bool := false
  /-- Attributes that replace those of the consumer when the variant is chosen. -/
  attributes : Attributes := Table.empty
  capabilities : List CapabilityId := []
  reason : Option String := none
  /-- The name of the wanted variant; attributes are not matched then. -/
  targetVariant : Option String := none
deriving DecidableEq

namespace Dependency

/-- The rules that apply below the dependency. One that is not transitive excludes everything. -/
def effectiveExcludes (d : Dependency) : OrderedSet ExcludeRule :=
  if d.transitive then d.excludes else OrderedSet.ofElements [ExcludeRule.all]

/-- How a dependency is shown. -/
def text (d : Dependency) : String := d.module.text ++ " (" ++ d.constraint.text ++ ")"

end Dependency

/-- A request for a version that brings nothing in by itself. -/
structure DependencyConstraint where
  module : ModuleId
  constraint : VersionConstraint
  attributes : Attributes := Table.empty
  reason : Option String := none
deriving DecidableEq

namespace DependencyConstraint

/-- How a dependency constraint is shown. -/
def text (d : DependencyConstraint) : String :=
  "constraint " ++ d.module.text ++ " (" ++ d.constraint.text ++ ")"

end DependencyConstraint

end VariantGraph
