import VariantGraph.Graph.Path
import VariantGraph.Graph.Tree
import VariantGraph.Resolution.Run

/-!
# Showing a resolution

A resolution is shown as the tree of its graph, as the way on which one module came into it, or as
the list of its conflicts.
-/

namespace VariantGraph

/-- What is shown of a resolution. The way of a module goes before the conflicts. -/
structure Resolution.View where
  /-- How deep the tree is shown. -/
  depth : Option Nat := none
  /-- The module whose way into the graph is shown. -/
  why : Option String := none
  /-- Whether the conflicts are shown. -/
  conflicts : Bool := false
deriving DecidableEq, Repr

namespace Resolution

/-- A line of a way, which is indented by its distance from the start. -/
def stepText (e : Graph.Node × Nat) : String :=
  String.join (List.replicate e.2 "  ") ++ e.1.id.text ++ "\n"

/-- How a module came into the graph. -/
def whyText (r : Resolution) (key : String) : String :=
  match r.graph.findPath? key with
  | none => "Dependency '" ++ key ++ "' not found in the graph.\n"
  | some path =>
    "Path to " ++ key ++ ":\n" ++ String.join (path.zipIdx.map stepText) ++ "\n" ++
      r.graph.invertedTree key

/-- The conflicts. -/
def conflictsText (r : Resolution) : String :=
  if r.conflicts.isEmpty then "No version conflicts.\n" else ConflictReport.text r.conflicts

/-- The tree. -/
def treeText (r : Resolution) (depth : Option Nat) : String :=
  r.graph.tree depth ++ if r.graph.nodes.isEmpty then "No dependencies.\n" else ""

/-- How a resolution is shown. -/
def text (r : Resolution) (v : View) : String :=
  match v.why with
  | some key => r.whyText key
  | none => if v.conflicts then r.conflictsText else r.treeText v.depth

end Resolution

end VariantGraph
