import VariantGraph.Proofs.Graph
import VariantGraph.Proofs.Resolution.Passes
import VariantGraph.Proofs.Resolution.Termination
import VariantGraph.Proofs.VersionChoice

/-!
# Complete passes

A pass that ends a resolution with a graph is complete: it agrees with the selections that it was
given, and a version and a variant are selected for every reached module. Its graph has the reached
modules as nodes and the recorded edges between them.

Main statements: `Situation.complete_of_lastPass` finds the complete pass behind a result,
`Situation.Complete.mem_modules_graph` and `Situation.links_graph` describe its graph.
-/

namespace VariantGraph.Resolution

/-! ## Selected nodes -/

namespace Walk

theorem selected?_eq_some {w : Walk} {m : ModuleId} {node : SelectedNode} :
    w.selected? m = some node ↔ w.outcomes.get? m = some (.selected node) := by
  unfold selected?
  split
  · next other hother => simp [hother]
  · next hnot =>
    constructor
    · intro h
      simp at h
    · intro h
      exact absurd h (hnot node)

theorem mem_selectedNodes {w : Walk} {m : ModuleId} {node : SelectedNode} :
    (m, node) ∈ w.selectedNodes ↔ m ∈ w.order ∧ w.selected? m = some node := by
  unfold selectedNodes
  rw [List.mem_filterMap]
  constructor
  · rintro ⟨x, hx, hnode⟩
    obtain ⟨node', hsel, heq⟩ := Option.map_eq_some_iff.1 hnode
    obtain ⟨rfl, rfl⟩ := Prod.mk.inj heq
    exact ⟨hx, hsel⟩
  · rintro ⟨hm, hsel⟩
    exact ⟨m, hm, by rw [hsel]; rfl⟩

theorem map_fst_selectedNodes_sublist (w : Walk) : (w.selectedNodes.map (·.1)).Sublist w.order := by
  unfold selectedNodes
  generalize w.order = l
  induction l with
  | nil => exact List.Sublist.slnil
  | cons m rest ih =>
    cases hsel : w.selected? m with
    | none =>
      rw [List.filterMap_cons_none (by rw [hsel]; rfl)]
      exact ih.cons m
    | some node =>
      rw [List.filterMap_cons_some (b := (m, node)) (by rw [hsel]; rfl), List.map_cons]
      exact ih.cons_cons m

end Walk

namespace Situation

variable {ε : Type} {s : Situation} {w : Walk} {m : ModuleId}

/-! ## Stable passes -/

theorem isStable_iff : s.isStable w = true ↔
    s.newSelections w = s.selections ∧ s.neededModules w = [] ∧ s.neededListings w = [] := by
  unfold isStable
  rw [Bool.and_eq_true, Bool.and_eq_true, beq_iff_eq, List.isEmpty_iff, List.isEmpty_iff, and_assoc]

/-- A stable pass chooses the versions that it was given. -/
theorem get?_selections_of_isStable (h : s.isStable w = true) (m : ModuleId) :
    s.selections.get? m = if m ∈ w.order then s.chosen? w m else none := by
  obtain ⟨hsel, -, -⟩ := isStable_iff.1 h
  rw [← hsel, newSelections, Table.get?_ofList_filterMap]

/-- On a stable pass every chosen module version was fetched. -/
theorem exists_module?_of_isStable (h : s.isStable w = true) (hm : m ∈ w.order)
    {v : SelectedVersion} (hv : s.chosen? w m = some v) :
    ∃ found, s.cache.module? (m.withVersion v.version) = some found := by
  obtain ⟨hsel, hneeded, -⟩ := isStable_iff.1 h
  have hget : s.selections.get? m = some v := by
    rw [get?_selections_of_isStable h, if_pos hm, hv]
  have hfetched : s.cache.isFetched (m.withVersion v.version) = true := by
    rw [neededModules, List.filter_eq_nil_iff, hsel] at hneeded
    have hnot := hneeded _ (List.mem_map_of_mem (Table.mem_toList_iff.2 hget))
    simpa using hnot
  exact Option.isSome_iff_exists.1 hfetched

/-- On a stable pass no reached module waits for a listing. -/
theorem verdict_ne_needsListing_of_isStable (h : s.isStable w = true) (hm : m ∈ w.order) :
    s.verdict w m ≠ .ok .needsListing := by
  intro hverdict
  obtain ⟨-, -, hneeded⟩ := isStable_iff.1 h
  rw [neededListings, List.filter_eq_nil_iff] at hneeded
  have hnot := hneeded m hm
  rw [hverdict] at hnot
  cases hlisting : s.cache.listing? m with
  | none => simp [hlisting] at hnot
  | some versions =>
    rw [verdict, hlisting] at hverdict
    exact VersionChoice.select_ne_needsListing m _ _ versions hverdict

/-- On a stable pass the choice for a reached module fails or selects a version. -/
theorem exists_verdict_of_isStable (h : s.isStable w = true) (hm : m ∈ w.order) :
    (∃ e, s.verdict w m = .error e) ∨ ∃ v, s.verdict w m = .ok (.selected v) := by
  cases hverdict : s.verdict w m with
  | error e => exact .inl ⟨e, rfl⟩
  | ok d =>
    cases d with
    | selected v => exact .inr ⟨v, rfl⟩
    | needsListing => exact absurd hverdict (verdict_ne_needsListing_of_isStable h hm)

/-! ## Complete passes -/

/-- A version and a variant are selected for a module that a walk has reached. -/
structure Settled (s : Situation) (w : Walk) (m : ModuleId) (st : NodeState) (v : SelectedVersion)
    (data : ModuleData) (node : SelectedNode) : Prop where
  reached : w.nodes.get? m = some st
  verdict : s.verdict w m = .ok (.selected v)
  selection : s.selections.get? m = some v
  module : s.cache.module? (m.withVersion v.version) = some (some data)
  outcome : outcomeOf s.schema data st.asks = .selected node
  recorded : w.outcomes.get? m = some (.selected node)

/-- The last pass of a resolution that ends with a graph. -/
structure Complete (s : Situation) : Prop where
  stable : s.isStable s.traverse = true
  settled : ∀ {m}, m ∈ s.traverse.order →
    ∃ st v data node, s.Settled s.traverse m st v data node

theorem Settled.data?_eq {st : NodeState} {v : SelectedVersion} {data : ModuleData}
    {node : SelectedNode} (h : s.Settled w m st v data node) : s.data? m = some data := by
  simp [data?, h.selection, h.module]

theorem Settled.declared?_eq {st : NodeState} {v : SelectedVersion} {data : ModuleData}
    {node : SelectedNode} (h : s.Settled w m st v data node) (hm : m ≠ s.root) :
    s.declared? m st = some (declarations data node st.asks) := by
  refine (declared?_eq_some_iff hm).2 ⟨data, node, h.data?_eq, ?_, rfl⟩
  rw [outcome?_of_data? hm h.data?_eq, h.outcome]

/-- A settled module has a selected node. -/
theorem Settled.mem_selectedNodes {st : NodeState} {v : SelectedVersion} {data : ModuleData}
    {node : SelectedNode} (h : s.Settled w m st v data node) (hm : m ∈ w.order) :
    (m, node) ∈ w.selectedNodes :=
  Walk.mem_selectedNodes.2 ⟨hm, Walk.selected?_eq_some.2 h.recorded⟩

/-- Behind a selected node of a complete pass there is a settled module. -/
theorem Complete.settled_of_mem_selectedNodes (h : s.Complete) {node : SelectedNode}
    (hmem : (m, node) ∈ s.traverse.selectedNodes) :
    ∃ st v data, s.Settled s.traverse m st v data node := by
  obtain ⟨hm, hsel⟩ := Walk.mem_selectedNodes.1 hmem
  obtain ⟨st, v, data, node', hsettled⟩ := h.settled hm
  have hsame := hsettled.recorded.symm.trans (Walk.selected?_eq_some.1 hsel)
  rw [Option.some.injEq, Outcome.selected.injEq] at hsame
  exact ⟨st, v, data, hsame ▸ hsettled⟩

/-- A stable pass without failures is complete. -/
theorem complete_of_isStable (hstable : s.isStable s.traverse = true)
    (hok : s.failure? (ε := ε) s.traverse = none) : s.Complete := by
  refine ⟨hstable, ?_⟩
  intro m hm
  have hshape := (invariant_stage s s.visitBound).shape
  obtain ⟨hroot, st, hst⟩ := hshape.mem_order.1 hm
  have hfail : s.failureAt? (ε := ε) s.traverse m = none := List.findSome?_eq_none_iff.1 hok m hm
  rcases exists_verdict_of_isStable hstable hm with ⟨e, he⟩ | ⟨v, hv⟩
  · simp [failureAt?, he] at hfail
  · have hchosen := chosen?_eq_some.2 hv
    have hsel : s.selections.get? m = some v := by
      rw [get?_selections_of_isStable hstable, if_pos hm, hchosen]
    obtain ⟨found, hfound⟩ := exists_module?_of_isStable hstable hm hchosen
    have hout := (upToDate_traverse hst).outcome
    cases found with
    | none =>
      -- a missing module version is a failure
      have hmissing : s.outcome? m st.asks = some (.missing (m.withVersion v.version)) := by
        simp [outcome?, hroot, hsel, hfound]
      rw [hmissing] at hout
      simp [failureAt?, hv, hout] at hfail
    | some data =>
      have hdata : s.data? m = some data := by simp [data?, hsel, hfound]
      rw [outcome?_of_data? hroot hdata] at hout
      cases ho : outcomeOf s.schema data st.asks with
      | missing id =>
        rw [ho] at hout
        simp [failureAt?, hv, hout] at hfail
      | failed e =>
        rw [ho] at hout
        simp [failureAt?, hv, hout] at hfail
      | selected node =>
        rw [ho] at hout
        exact ⟨st, v, data, node, hst, hv, hsel, hfound, ho, hout⟩

/-- Behind a resolution that succeeds there is a complete pass. -/
theorem complete_of_lastPass {r : Resolver ε} {request : ResolveRequest} {k : Nat} {p : Progress}
    {res : VariantGraph.Resolution} (h : r.LastPass request k p (.ok res)) :
    (r.situation request p).Complete ∧
      res.graph = (r.situation request p).graph (r.situation request p).traverse := by
  obtain ⟨hstable, hok, -, hres⟩ := Resolver.pass_ok h.result
  exact ⟨complete_of_isStable hstable hok, by rw [hres]⟩

end Situation

/-! ## The graph of a pass -/

namespace Situation

variable {s : Situation} {w : Walk}

/-- The recorded edges of a kind between two modules. -/
theorem links_iff (h : s.Wired w) {k : Bool} {m n : ModuleId} : w.Links k m n ↔
    ∃ e ∈ w.table.edges, e.source = m ∧ e.target = n ∧ e.request.isConstraint = k := by
  constructor
  · rintro ⟨slot, e, he, rfl, rfl, rfl⟩
    exact ⟨e, EdgeTable.mem_edges_of_get? he, (h.source he).1, rfl, h.kind he⟩
  · rintro ⟨e, hmem, rfl, rfl, rfl⟩
    obtain ⟨slot, he⟩ := EdgeTable.mem_edges_iff.1 hmem
    exact ⟨slot, e, he, (h.source he).1.symm, rfl, (h.kind he).symm⟩

/-- Edges do not change the modules of the graph. -/
theorem modules_graph_eq_foldl : (s.graph w).modules
    = ((w.selectedNodes.map fun e => s.graphNode w e.1 e.2).foldl Graph.addNode
        (Graph.ofRoot { id := s.request.root })).modules := by
  rw [graph, Graph.modules_foldl_addEdge]

section Graph

variable (h : s.Shape w)

include h

/-- The nodes of the graph are the reached modules with a selected variant. -/
theorem foldl_addNode_eq :
    (w.selectedNodes.map fun e => s.graphNode w e.1 e.2).foldl Graph.addNode
        (Graph.ofRoot { id := s.request.root })
      = ⟨{ id := s.request.root }, w.selectedNodes.map fun e => s.graphNode w e.1 e.2, []⟩ := by
  have hmodules : (w.selectedNodes.map fun e => s.graphNode w e.1 e.2).map Graph.Node.module
      = w.selectedNodes.map (·.1) := by
    rw [List.map_map]
    rfl
  have hnodup : ((Graph.ofRoot { id := s.request.root }).modules ++
      (w.selectedNodes.map fun e => s.graphNode w e.1 e.2).map Graph.Node.module).Nodup := by
    rw [hmodules]
    refine List.nodup_cons.2 ⟨?_, h.nodup.sublist w.map_fst_selectedNodes_sublist⟩
    intro hmem
    exact (h.mem_order.1 (w.map_fst_selectedNodes_sublist.subset hmem)).1 rfl
  rw [Graph.nodes_foldl_addNode hnodup]
  rfl

theorem root_graph : (s.graph w).root = { id := s.request.root } := by
  rw [graph, Graph.root_foldl_addEdge, foldl_addNode_eq h]

theorem nodes_graph : (s.graph w).nodes = w.selectedNodes.map fun e => s.graphNode w e.1 e.2 := by
  rw [graph, Graph.nodes_foldl_addEdge, foldl_addNode_eq h]

theorem modules_graph : (s.graph w).modules = s.root :: w.selectedNodes.map (·.1) := by
  rw [Graph.modules_eq_cons, root_graph h, nodes_graph h, List.map_map]
  rfl

/-- The graph has the recorded edges between its nodes. -/
theorem links_graph (hw : s.Wired w) {k : Bool} {m n : ModuleId} : (s.graph w).Links k m n ↔
    m ∈ (s.graph w).modules ∧ n ∈ (s.graph w).modules ∧ w.Links k m n := by
  rw [modules_graph_eq_foldl, graph, Graph.links_foldl_addEdge, links_iff hw]
  constructor
  · rintro (hold | ⟨hm, hn, d, hd, hs, ht, hk⟩)
    · -- without edges there are no links
      rw [foldl_addNode_eq h] at hold
      obtain ⟨d, hd, -⟩ := hold
      exact absurd hd List.not_mem_nil
    · obtain ⟨e, he, rfl⟩ := List.mem_map.1 hd
      exact ⟨hm, hn, e, he, hs, ht, hk⟩
  · rintro ⟨hm, hn, e, he, hs, ht, hk⟩
    exact .inr ⟨hm, hn, s.graphEdge e, List.mem_map_of_mem he, hs, ht, hk⟩

end Graph

/-- The nodes of the graph of a complete pass are the root and the reached modules. -/
theorem Complete.mem_modules_graph (h : s.Complete) {m : ModuleId} :
    m ∈ (s.graph s.traverse).modules ↔ m = s.root ∨ m ∈ s.traverse.order := by
  rw [Situation.modules_graph s.shape_traverse, List.mem_cons]
  refine or_congr_right ⟨?_, ?_⟩
  · exact fun hm => s.traverse.map_fst_selectedNodes_sublist.subset hm
  · intro hm
    obtain ⟨st, v, data, node, hsettled⟩ := h.settled hm
    exact List.mem_map.2 ⟨(m, node), hsettled.mem_selectedNodes hm, rfl⟩

end Situation

end VariantGraph.Resolution
