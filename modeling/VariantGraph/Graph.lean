import VariantGraph.VersionChoice

/-!
# Resolved graphs

A resolved graph has one node for each module, the root first, and edges for dependencies and
dependency constraints. Between two nodes there is at most one edge of each kind.

Main statement: `Graph.modules_nodup_addNode` says that adding a node keeps the modules of the nodes
apart.
-/

namespace VariantGraph

/-- A resolved module. -/
structure Graph.Node where
  id : Coordinates
  /-- The selected variant; without one the module only has artifacts. -/
  variant : Option String := none
  attributes : Attributes := Table.empty
  capabilities : List Capability := []
  files : List FileRef := []
  /-- The module version that holds the selected variant, if it is another one. -/
  availableAt : Option Coordinates := none
  /-- The reasons of the edges into the node, without repetitions. -/
  reasons : List SelectionReason := []
deriving DecidableEq

/-- A dependency or a dependency constraint between resolved modules. -/
structure Graph.Edge where
  source : ModuleId
  target : ModuleId
  requested : VersionConstraint
  isConstraint : Bool
  reasons : List SelectionReason
deriving DecidableEq

/-- A graph of resolved modules. -/
structure Graph where
  root : Graph.Node
  /-- The nodes other than the root, in the order of discovery. -/
  nodes : List Graph.Node
  edges : List Graph.Edge
deriving DecidableEq

namespace Graph

/-- The module of a node. -/
def Node.module (n : Node) : ModuleId := n.id.module

/-- The graph of a root alone. -/
def ofRoot (root : Node) : Graph := ⟨root, [], []⟩

/-- All nodes, the root first. -/
def allNodes (g : Graph) : List Node := g.root :: g.nodes

/-- The modules of all nodes, the root first. -/
def modules (g : Graph) : List ModuleId := g.allNodes.map Node.module

/-- The node of a module. -/
def find? (g : Graph) (m : ModuleId) : Option Node := g.allNodes.find? fun n => n.module == m

/-- Adds a node, unless its module has one. -/
def addNode (g : Graph) (n : Node) : Graph :=
  if n.module ∈ g.modules then g else { g with nodes := g.nodes ++ [n] }

/-- Adds an edge between nodes of the graph, unless there is one of its kind between them. -/
def addEdge (g : Graph) (e : Edge) : Graph :=
  if e.source ∉ g.modules ∨ e.target ∉ g.modules then g
  else if g.edges.any fun d =>
      d.source == e.source && d.target == e.target && d.isConstraint == e.isConstraint then g
  else { g with edges := g.edges ++ [e] }

/-- The edges that leave a module. -/
def edgesFrom (g : Graph) (m : ModuleId) : List Edge := g.edges.filter fun e => e.source == m

/-- The edges that lead to a module. -/
def edgesTo (g : Graph) (m : ModuleId) : List Edge := g.edges.filter fun e => e.target == m

/-- The edge between two modules, a dependency before a constraint. -/
def edge? (g : Graph) (source target : ModuleId) : Option Edge :=
  let between := (g.edgesFrom source).filter fun e => e.target == target
  (between.find? fun e => !e.isConstraint) <|> between.head?

/-- The edges that lead to a module with the nodes they come from. -/
def incoming (g : Graph) (m : ModuleId) : List (Node × Edge) :=
  (g.edgesTo m).filterMap fun e => (g.find? e.source).map fun n => (n, e)

/-- The node that a key names: a module `group:name`, else the first module, in the order of
modules, that has the key as its name. -/
def nodeOfKey? (g : Graph) (key : String) : Option Node :=
  ((ModuleId.parse? key).bind g.find?) <|>
    (((OrderedSet.ofElements g.modules).elements.find? fun m => m.name == key).bind g.find?)

/-- The number of nodes besides the root. -/
def size (g : Graph) : Nat := g.nodes.length

theorem modules_nodup_addNode {g : Graph} (h : g.modules.Nodup) (n : Node) :
    (g.addNode n).modules.Nodup := by
  unfold addNode
  split
  · exact h
  · next hn =>
    have hm : ({ g with nodes := g.nodes ++ [n] } : Graph).modules = g.modules ++ [n.module] := by
      simp [modules, allNodes]
    rw [hm, List.nodup_append]
    refine ⟨h, by simp, ?_⟩
    intro a ha b hb
    obtain rfl := List.mem_singleton.1 hb
    exact fun heq => hn (heq ▸ ha)

end Graph

end VariantGraph
