import VariantGraph.Graph

/-!
# Paths in a graph

A path from the root to a module along dependency edges, found by depth-first search: at each node
the edges are tried in their order, and a node is not entered again on one path.

The search ends because it takes the current module out of the ones not yet visited.
-/

namespace VariantGraph.Graph

/-- The modules that dependency edges lead to from a module. -/
def dependencyTargets (g : Graph) (m : ModuleId) : List ModuleId :=
  ((g.edgesFrom m).filter fun e => !e.isConstraint).map Edge.target

/-- One dependency edge leads from a module to another. -/
def DependsOn (g : Graph) (m n : ModuleId) : Prop := n ∈ g.dependencyTargets m

/-- The first path from `current` to `target` that enters only modules not yet visited. -/
def pathFrom (g : Graph) (target : ModuleId) (unvisited : List ModuleId) (current : ModuleId) :
    Option (List ModuleId) :=
  if current = target then some [current]
  else if _h : current ∈ unvisited then
    ((g.dependencyTargets current).findSome? fun next =>
      pathFrom g target (unvisited.erase current) next).map (current :: ·)
  else none
termination_by unvisited.length
decreasing_by
  have := List.length_erase_of_mem _h
  have := List.length_pos_of_mem _h
  omega

/-- The nodes on the first path from the root to the node that a key names. -/
def findPath? (g : Graph) (key : String) : Option (List Node) :=
  (g.nodeOfKey? key).bind fun n =>
    (g.pathFrom n.module g.modules g.root.module).map fun p => p.filterMap g.find?

end VariantGraph.Graph
