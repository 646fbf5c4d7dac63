import VariantGraph.Graph

/-!
# Trees of a graph

The dependency tree of a graph lists every edge below its source, starting from the root, and the
inverted tree lists what leads to a node. A module that is already on the way down from the root is
listed but not followed again, which is why the listing ends. Constraints are listed and not
followed.
-/

namespace VariantGraph.Graph

/-- One line of a tree. -/
structure TreeEntry where
  /-- The number of edges between the line and the top of the tree. -/
  depth : Nat
  indent : String
  /-- Whether no line of the same parent follows. -/
  isLast : Bool
  label : String
deriving DecidableEq, Repr

namespace TreeEntry

/-- The branch that is drawn before the label. -/
def connector (isLast : Bool) : String := if isLast then "└── " else "├── "

/-- The indentation of the lines below a line. -/
def childIndent (indent : String) (isLast : Bool) : String :=
  indent ++ if isLast then "    " else "│   "

/-- The text of a line. -/
def text (e : TreeEntry) : String := e.indent ++ connector e.isLast ++ e.label ++ "\n"

end TreeEntry

/-- The reasons in brackets, if there are some. -/
def reasonsText (reasons : List SelectionReason) : String :=
  if reasons.isEmpty then ""
  else " [" ++ ", ".intercalate (reasons.map SelectionReason.text) ++ "]"

/-- The mark of a dependency constraint. -/
def constraintMark (isConstraint : Bool) : String := if isConstraint then " (c)" else ""

/-- The requested version and, where it differs, the one that was chosen. -/
def versionLabel (id : Coordinates) (requested : Option String) : String :=
  match requested with
  | some r => if r ≠ id.version then id.module.text ++ ":" ++ r ++ " -> " ++ id.version else id.text
  | none => id.text

/-- The coordinates of a module in the graph. -/
def coordinatesOf (g : Graph) (m : ModuleId) : Coordinates :=
  ((g.find? m).map Node.id).getD (m.withVersion "")

/-- The label of an edge. -/
def edgeLabel (g : Graph) (e : Edge) : String :=
  versionLabel (g.coordinatesOf e.target) e.requested.requestedVersion ++
    constraintMark e.isConstraint ++ reasonsText e.reasons

/-! ## The dependency tree -/

/-- Whether a depth is the last one to be listed. -/
def atLimit (limit : Option Nat) (depth : Nat) : Bool := limit.any (· ≤ depth)

/-- The lines of some edges of one parent and of everything below them. -/
def entriesBelow (g : Graph) (limit : Option Nat) (unvisited : List ModuleId) (indent : String)
    (depth : Nat) : List Edge → List TreeEntry
  | [] => []
  | e :: rest =>
    let isLast := rest.isEmpty
    ⟨depth, indent, isLast, g.edgeLabel e⟩ ::
      (if h : e.isConstraint = false ∧ atLimit limit depth = false ∧ e.target ∈ unvisited then
        g.entriesBelow limit (unvisited.erase e.target) (TreeEntry.childIndent indent isLast)
          (depth + 1) (g.edgesFrom e.target)
      else []) ++
      g.entriesBelow limit unvisited indent depth rest
termination_by edges => (unvisited.length, edges.length)
decreasing_by
  · have := List.length_erase_of_mem h.2.2
    have := List.length_pos_of_mem h.2.2
    exact Prod.Lex.left _ _ (by omega)
  · exact Prod.Lex.right _ (by simp)

/-- The lines of the dependency tree below the root. -/
def treeEntries (g : Graph) (limit : Option Nat) : List TreeEntry :=
  g.entriesBelow limit (g.modules.erase g.root.module) "" 1 (g.edgesFrom g.root.module)

/-- The dependency tree, cut below a number of levels if there is a limit. -/
def tree (g : Graph) (limit : Option Nat) : String :=
  g.root.id.text ++ "\n" ++ String.join ((g.treeEntries limit).map TreeEntry.text)

/-! ## The inverted tree -/

/-- The label of a line of the inverted tree: the source, and at the first level the request. -/
def invertedLabel (g : Graph) (depth : Nat) (e : Edge) : String :=
  (g.coordinatesOf e.source).text ++
    if depth = 1 then " requested " ++ e.requested.text ++ constraintMark e.isConstraint else ""

/-- The lines of some edges that lead to one node and of everything above them. -/
def entriesAbove (g : Graph) (unvisited : List ModuleId) (indent : String) (depth : Nat) :
    List Edge → List TreeEntry
  | [] => []
  | e :: rest =>
    let isLast := rest.isEmpty
    ⟨depth, indent, isLast, g.invertedLabel depth e⟩ ::
      (if h : e.source ∈ unvisited then
        g.entriesAbove (unvisited.erase e.source) (TreeEntry.childIndent indent isLast)
          (depth + 1) (g.edgesTo e.source)
      else []) ++
      g.entriesAbove unvisited indent depth rest
termination_by edges => (unvisited.length, edges.length)
decreasing_by
  · have := List.length_erase_of_mem h
    have := List.length_pos_of_mem h
    exact Prod.Lex.left _ _ (by omega)
  · exact Prod.Lex.right _ (by simp)

/-- The tree of everything that leads to the node that a key names; empty without such a node. -/
def invertedTree (g : Graph) (key : String) : String :=
  match g.nodeOfKey? key with
  | none => ""
  | some n =>
    n.id.text ++ reasonsText n.reasons ++ "\n" ++
      String.join ((g.entriesAbove (g.modules.erase n.module) "" 1 (g.edgesTo n.module)).map
        TreeEntry.text)

end VariantGraph.Graph
