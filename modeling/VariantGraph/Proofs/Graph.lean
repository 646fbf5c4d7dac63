import Mathlib.Data.List.Basic
import VariantGraph.Graph.Path

/-!
# Building graphs

Nodes and edges are added one after the other, and both operations may leave out what they are
given. Nodes of distinct modules are all kept; of the edges between two nodes the first of each kind
is kept.

Main statements: `Graph.nodes_foldl_addNode` and `Graph.mem_edges_foldl_addEdge_iff` say what is kept,
`Graph.links_foldl_addEdge` which modules are linked.
-/

namespace VariantGraph.Graph

/-- An edge of a kind leads from a module to another. -/
def Links (g : Graph) (isConstraint : Bool) (m n : ModuleId) : Prop :=
  ∃ e ∈ g.edges, e.source = m ∧ e.target = n ∧ e.isConstraint = isConstraint

/-- A dependency constraint of a module is on another. -/
def Constrains (g : Graph) (m n : ModuleId) : Prop := g.Links true m n

theorem dependsOn_iff_links {g : Graph} {m n : ModuleId} : g.DependsOn m n ↔ g.Links false m n := by
  unfold DependsOn dependencyTargets edgesFrom Links
  simp only [List.mem_map, List.mem_filter]
  constructor
  · rintro ⟨e, ⟨⟨he, hm⟩, hk⟩, hn⟩
    exact ⟨e, he, by simpa using hm, hn, by simpa using hk⟩
  · rintro ⟨e, he, hm, hn, hk⟩
    exact ⟨e, ⟨⟨he, by simpa using hm⟩, by simpa using hk⟩, hn⟩

/-! ## Nodes -/

theorem modules_eq_cons (g : Graph) : g.modules = g.root.module :: g.nodes.map Node.module := rfl

theorem addNode_of_not_mem {g : Graph} {n : Node} (h : n.module ∉ g.modules) :
    g.addNode n = { g with nodes := g.nodes ++ [n] } := by
  rw [addNode, if_neg h]

/-- Nodes of distinct modules that are not in the graph are all added. -/
theorem nodes_foldl_addNode {g : Graph} {l : List Node}
    (h : (g.modules ++ l.map Node.module).Nodup) :
    l.foldl addNode g = { g with nodes := g.nodes ++ l } := by
  induction l generalizing g with
  | nil => simp
  | cons n rest ih =>
    have hn : n.module ∉ g.modules := by
      intro hmem
      rw [List.map_cons, List.nodup_append] at h
      exact h.2.2 _ hmem _ List.mem_cons_self rfl
    have hmodules : (g.addNode n).modules = g.modules ++ [n.module] := by
      rw [addNode_of_not_mem hn]
      simp [modules, allNodes]
    have hrest : ((g.addNode n).modules ++ rest.map Node.module).Nodup := by
      rw [hmodules, List.append_assoc]
      exact h
    rw [List.foldl_cons, ih hrest, addNode_of_not_mem hn]
    simp

/-! ## Edges -/

@[simp] theorem root_addEdge (g : Graph) (e : Edge) : (g.addEdge e).root = g.root := by
  unfold addEdge
  split
  · rfl
  · split <;> rfl

@[simp] theorem nodes_addEdge (g : Graph) (e : Edge) : (g.addEdge e).nodes = g.nodes := by
  unfold addEdge
  split
  · rfl
  · split <;> rfl

@[simp] theorem modules_addEdge (g : Graph) (e : Edge) : (g.addEdge e).modules = g.modules := by
  rw [modules_eq_cons, modules_eq_cons, root_addEdge, nodes_addEdge]

theorem root_foldl_addEdge (g : Graph) (l : List Edge) : (l.foldl addEdge g).root = g.root := by
  induction l generalizing g with
  | nil => rfl
  | cons e rest ih => rw [List.foldl_cons, ih, root_addEdge]

theorem nodes_foldl_addEdge (g : Graph) (l : List Edge) : (l.foldl addEdge g).nodes = g.nodes := by
  induction l generalizing g with
  | nil => rfl
  | cons e rest ih => rw [List.foldl_cons, ih, nodes_addEdge]

theorem modules_foldl_addEdge (g : Graph) (l : List Edge) :
    (l.foldl addEdge g).modules = g.modules := by
  rw [modules_eq_cons, modules_eq_cons, root_foldl_addEdge, nodes_foldl_addEdge]

/-- Two edges of one kind lead from one module to another. -/
structure Edge.Parallel (d e : Edge) : Prop where
  source : d.source = e.source
  target : d.target = e.target
  isConstraint : d.isConstraint = e.isConstraint

/-- An edge is added if its ends are nodes and no edge of its kind is between them. -/
theorem mem_edges_addEdge_iff {g : Graph} {d e : Edge} : d ∈ (g.addEdge e).edges ↔ d ∈ g.edges ∨
    (d = e ∧ e.source ∈ g.modules ∧ e.target ∈ g.modules ∧ ∀ c ∈ g.edges, ¬ c.Parallel e) := by
  have hany : (g.edges.any fun c => c.source == e.source && c.target == e.target &&
      c.isConstraint == e.isConstraint) = true ↔ ∃ c ∈ g.edges, c.Parallel e := by
    simp only [List.any_eq_true, Bool.and_eq_true, beq_iff_eq]
    exact exists_congr fun c => and_congr_right fun _ =>
      ⟨fun h => ⟨h.1.1, h.1.2, h.2⟩, fun h => ⟨⟨h.source, h.target⟩, h.isConstraint⟩⟩
  unfold addEdge
  split
  · next hends =>
    refine ⟨.inl, ?_⟩
    rintro (hd | ⟨-, hs, ht, -⟩)
    · exact hd
    · exact absurd hends (by push Not; exact ⟨hs, ht⟩)
  · next hends =>
    push Not at hends
    split
    · next hparallel =>
      obtain ⟨c, hc, hce⟩ := hany.1 hparallel
      refine ⟨.inl, ?_⟩
      rintro (hd | ⟨-, -, -, hnone⟩)
      · exact hd
      · exact absurd hce (hnone c hc)
    · next hparallel =>
      rw [hany] at hparallel
      push Not at hparallel
      rw [List.mem_append, List.mem_singleton]
      exact or_congr_right ⟨fun h => ⟨h, hends.1, hends.2, hparallel⟩, fun h => h.1⟩

/-- Of the edges that are added, those between nodes are kept that are the first of their kind
between their ends. -/
theorem mem_edges_foldl_addEdge_iff {g : Graph} {l : List Edge} {d : Edge} :
    d ∈ (l.foldl addEdge g).edges ↔ d ∈ g.edges ∨
    (d.source ∈ g.modules ∧ d.target ∈ g.modules ∧ (∀ c ∈ g.edges, ¬ c.Parallel d) ∧
      ∃ before after, l = before ++ d :: after ∧ ∀ c ∈ before, ¬ c.Parallel d) := by
  induction l generalizing g with
  | nil => simp
  | cons e rest ih =>
    rw [List.foldl_cons, ih, modules_addEdge]
    simp only [mem_edges_addEdge_iff]
    constructor
    · rintro ((hd | ⟨rfl, hs, ht, hnone⟩) | ⟨hs, ht, hnone, before, after, rfl, hbefore⟩)
      · exact .inl hd
      · exact .inr ⟨hs, ht, hnone, [], rest, rfl, by simp⟩
      · refine .inr ⟨hs, ht, fun c hc => hnone c (.inl hc), e :: before, after, rfl, ?_⟩
        refine List.forall_mem_cons.2 ⟨fun he => ?_, hbefore⟩
        -- such an edge would have been added, or one of its kind was there already
        by_cases hold : ∃ c ∈ g.edges, c.Parallel e
        · obtain ⟨c, hc, hce⟩ := hold
          exact hnone c (.inl hc) ⟨hce.source.trans he.source, hce.target.trans he.target,
            hce.isConstraint.trans he.isConstraint⟩
        · push Not at hold
          exact hnone e (.inr ⟨rfl, he.source ▸ hs, he.target ▸ ht, hold⟩) he
    · rintro (hd | ⟨hs, ht, hnone, before, after, hl, hbefore⟩)
      · exact .inl (.inl hd)
      · cases before with
        | nil =>
          obtain ⟨rfl, rfl⟩ := List.cons.inj hl
          exact .inl (.inr ⟨rfl, hs, ht, hnone⟩)
        | cons x before =>
          obtain ⟨rfl, rfl⟩ := List.cons.inj hl
          obtain ⟨he, hbefore⟩ := List.forall_mem_cons.1 hbefore
          refine .inr ⟨hs, ht, ?_, before, after, rfl, hbefore⟩
          rintro c (hc | ⟨rfl, -, -, -⟩)
          · exact hnone c hc
          · exact he

/-- Every edge of a graph to which edges are added was there or is one of them, between nodes. -/
theorem mem_edges_foldl_addEdge {g : Graph} {l : List Edge} {e : Edge}
    (h : e ∈ (l.foldl addEdge g).edges) :
    e ∈ g.edges ∨ (e ∈ l ∧ e.source ∈ g.modules ∧ e.target ∈ g.modules) := by
  rcases mem_edges_foldl_addEdge_iff.1 h with hold | ⟨hs, ht, -, before, after, rfl, -⟩
  · exact .inl hold
  · exact .inr ⟨List.mem_append_right _ List.mem_cons_self, hs, ht⟩

/-- After an edge is added there is an edge of its kind between its ends, if these are nodes. -/
theorem links_addEdge {g : Graph} {e : Edge} {k : Bool} {m n : ModuleId} :
    (g.addEdge e).Links k m n ↔ g.Links k m n ∨
      (m ∈ g.modules ∧ n ∈ g.modules ∧ e.source = m ∧ e.target = n ∧ e.isConstraint = k) := by
  unfold Links
  simp only [mem_edges_addEdge_iff]
  constructor
  · rintro ⟨d, hd | ⟨rfl, hs, ht, -⟩, hm, hn, hk⟩
    · exact .inl ⟨d, hd, hm, hn, hk⟩
    · exact .inr ⟨hm ▸ hs, hn ▸ ht, hm, hn, hk⟩
  · rintro (⟨d, hd, h⟩ | ⟨hm, hn, rfl, rfl, rfl⟩)
    · exact ⟨d, .inl hd, h⟩
    · by_cases hold : ∃ d ∈ g.edges, d.Parallel e
      · obtain ⟨d, hd, h⟩ := hold
        exact ⟨d, .inl hd, h.source, h.target, h.isConstraint⟩
      · push Not at hold
        exact ⟨e, .inr ⟨rfl, hm, hn, hold⟩, rfl, rfl, rfl⟩

/-- The links of a graph to which edges are added. -/
theorem links_foldl_addEdge {g : Graph} {l : List Edge} {k : Bool} {m n : ModuleId} :
    (l.foldl addEdge g).Links k m n ↔ g.Links k m n ∨ (m ∈ g.modules ∧ n ∈ g.modules ∧
      ∃ e ∈ l, e.source = m ∧ e.target = n ∧ e.isConstraint = k) := by
  induction l generalizing g with
  | nil => simp
  | cons e rest ih =>
    rw [List.foldl_cons, ih, links_addEdge, modules_addEdge]
    constructor
    · rintro ((h | ⟨hm, hn, h⟩) | ⟨hm, hn, d, hd, h⟩)
      · exact .inl h
      · exact .inr ⟨hm, hn, e, List.mem_cons_self, h⟩
      · exact .inr ⟨hm, hn, d, List.mem_cons_of_mem _ hd, h⟩
    · rintro (h | ⟨hm, hn, d, hd, h⟩)
      · exact .inl (.inl h)
      · rcases List.mem_cons.1 hd with rfl | hd
        · exact .inl (.inr ⟨hm, hn, h⟩)
        · exact .inr ⟨hm, hn, d, hd, h⟩

end VariantGraph.Graph
