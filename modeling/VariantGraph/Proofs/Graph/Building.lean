import Mathlib.Data.List.Nodup
import Mathlib.Data.Option.Basic
import VariantGraph.Proofs.Graph

/-!
# Graphs that are built

A graph is built by adding nodes and edges and by choosing one of its nodes as the root. Its modules
are told apart, and its edges lead from nodes to nodes.

Main statement: `Graph.Built.wellFormed` is the invariant of building a graph.
-/

namespace VariantGraph.Graph

/-- A graph that was built. The root may be chosen at any time and is one of the nodes; in which
order the nodes are listed is left open then. -/
inductive Built : Graph → Prop
  | ofRoot (n : Node) : Built (ofRoot n)
  | addNode {g : Graph} (h : Built g) (n : Node) : Built (g.addNode n)
  | addEdge {g : Graph} (h : Built g) (e : Edge) : Built (g.addEdge e)
  | setRoot {g : Graph} {root : Node} {nodes : List Node} (h : Built g)
      (hnodes : (root :: nodes).Perm g.allNodes) : Built { g with root := root, nodes := nodes }

/-- The modules of the nodes are distinct and edges lead from nodes to nodes. -/
structure WellFormed (g : Graph) : Prop where
  nodup : g.modules.Nodup
  source : ∀ e ∈ g.edges, e.source ∈ g.modules
  target : ∀ e ∈ g.edges, e.target ∈ g.modules

variable {g : Graph} {n : Node} {m : ModuleId}

@[simp] theorem edges_addNode (g : Graph) (n : Node) : (g.addNode n).edges = g.edges := by
  unfold addNode
  split <;> rfl

theorem modules_subset_addNode (g : Graph) (n : Node) : g.modules ⊆ (g.addNode n).modules := by
  unfold addNode
  split
  · exact List.Subset.refl _
  · intro m hm
    simp only [modules, allNodes, List.map_cons, List.map_append, List.mem_cons,
      List.mem_append] at hm ⊢
    rcases hm with hm | hm
    · exact .inl hm
    · exact .inr (.inl hm)

/-! ## The invariant of building -/

namespace WellFormed

theorem addNode (h : g.WellFormed) (n : Node) : (g.addNode n).WellFormed where
  nodup := modules_nodup_addNode h.nodup n
  source e he := modules_subset_addNode g n (h.source e (edges_addNode g n ▸ he))
  target e he := modules_subset_addNode g n (h.target e (edges_addNode g n ▸ he))

theorem addEdge (h : g.WellFormed) (e : Edge) : (g.addEdge e).WellFormed where
  nodup := by
    rw [modules_addEdge]
    exact h.nodup
  source d hd := by
    rw [modules_addEdge]
    rcases mem_edges_addEdge_iff.1 hd with hd | ⟨rfl, hs, -, -⟩
    · exact h.source d hd
    · exact hs
  target d hd := by
    rw [modules_addEdge]
    rcases mem_edges_addEdge_iff.1 hd with hd | ⟨rfl, -, ht, -⟩
    · exact h.target d hd
    · exact ht

theorem setRoot (h : g.WellFormed) {root : Node} {nodes : List Node}
    (hnodes : (root :: nodes).Perm g.allNodes) :
    WellFormed { g with root := root, nodes := nodes } := by
  have hmodules : ((root :: nodes).map Node.module).Perm g.modules := hnodes.map Node.module
  exact ⟨hmodules.nodup_iff.2 h.nodup, fun e he => hmodules.mem_iff.2 (h.source e he),
    fun e he => hmodules.mem_iff.2 (h.target e he)⟩

end WellFormed

/-- A graph that was built is well-formed. -/
theorem Built.wellFormed (h : g.Built) : g.WellFormed := by
  induction h with
  | ofRoot n => exact ⟨List.nodup_singleton _, List.forall_mem_nil _, List.forall_mem_nil _⟩
  | addNode _ n ih => exact ih.addNode n
  | addEdge _ e ih => exact ih.addEdge e
  | setRoot _ hnodes ih => exact ih.setRoot hnodes

theorem built_foldl_addNode (h : g.Built) (nodes : List Node) : (nodes.foldl addNode g).Built := by
  induction nodes generalizing g with
  | nil => exact h
  | cons n rest ih => exact ih (h.addNode n)

theorem built_foldl_addEdge (h : g.Built) (edges : List Edge) : (edges.foldl addEdge g).Built := by
  induction edges generalizing g with
  | nil => exact h
  | cons e rest ih => exact ih (h.addEdge e)

/-! ## Looking nodes up -/

theorem mem_of_find? (h : g.find? m = some n) : n ∈ g.allNodes ∧ n.module = m := by
  unfold find? at h
  exact ⟨List.mem_of_find?_eq_some h, by simpa using List.find?_some h⟩

theorem exists_find?_of_mem (h : m ∈ g.modules) : ∃ n, g.find? m = some n := by
  obtain ⟨n, hn, rfl⟩ := List.mem_map.1 h
  exact Option.isSome_iff_exists.1 (List.find?_isSome.2 ⟨n, hn, by simp⟩)

/-- Where modules are distinct, they tell nodes apart. -/
theorem eq_of_module_eq (h : g.modules.Nodup) {a b : Node} (ha : a ∈ g.allNodes)
    (hb : b ∈ g.allNodes) (hab : a.module = b.module) : a = b :=
  List.inj_on_of_nodup_map h ha hb hab

/-- A key names a node of the graph. -/
theorem mem_of_nodeOfKey? {key : String} (h : g.nodeOfKey? key = some n) : n ∈ g.allNodes := by
  rcases (Option.orElse_eq_some _ _ _).1 h with h | ⟨-, h⟩
  · obtain ⟨m, -, hm⟩ := Option.bind_eq_some_iff.1 h
    exact (mem_of_find? hm).1
  · obtain ⟨m, -, hm⟩ := Option.bind_eq_some_iff.1 h
    exact (mem_of_find? hm).1

end VariantGraph.Graph
