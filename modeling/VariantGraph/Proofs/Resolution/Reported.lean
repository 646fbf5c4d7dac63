import VariantGraph.Proofs.ConflictReport
import VariantGraph.Proofs.Resolution.Complete

/-!
# Which requests of a pass are reported

The requests that the last pass recorded become the edges of the graph, and the report is made from
these. In between requests are lost: of the requests of one kind that one module makes for another,
the graph keeps the one that was recorded first. So a request that was overridden is missed where its
module asked before in other words and nobody else asks in these, which depends on the order of the
declarations.

Main statement: `Resolver.resolve_reports_iff`.
-/

namespace VariantGraph

open Resolution

namespace Resolution

/-! ## Recorded requests -/

/-- Two recorded edges of one kind lead from one module to another. -/
structure Edge.Parallel (d e : Edge) : Prop where
  source : d.source = e.source
  target : d.target = e.target
  isConstraint : d.request.isConstraint = e.request.isConstraint

/-- A recorded edge requests a text of the module of a node. -/
structure Edge.Requests (e : Edge) (n : Graph.Node) (text : String) : Prop where
  target : e.target = n.module
  requested : e.request.constraint.requestedVersion = some text

namespace EdgeTable

/-- An edge was recorded before all others of its kind between its ends. -/
def Foremost (t : EdgeTable) (e : Edge) : Prop :=
  ∃ before after, t.edges = before ++ e :: after ∧ ∀ d ∈ before, ¬ d.Parallel e

/-- A recorded request asks for another version than that of its node. -/
structure Overridden (t : EdgeTable) (n : Graph.Node) (text : String) (e : Edge) : Prop where
  recorded : e ∈ t.edges
  requests : e.Requests n text
  rejected : (Selector.parse text).accepts n.id.version = false

variable {t : EdgeTable} {e : Edge}

theorem Foremost.mem (h : t.Foremost e) : e ∈ t.edges := by
  obtain ⟨before, after, hedges, -⟩ := h
  exact hedges ▸ List.mem_append_right _ List.mem_cons_self

/-- Before an edge the first one of its kind was recorded, which may be the edge itself. -/
theorem exists_foremost_parallel (he : e ∈ t.edges) : ∃ d, t.Foremost d ∧ d.Parallel e := by
  classical
  have hsome : (t.edges.find? fun d => d.Parallel e).isSome := by
    rw [List.find?_isSome]
    exact ⟨e, he, decide_eq_true ⟨rfl, rfl, rfl⟩⟩
  obtain ⟨d, hd⟩ := Option.isSome_iff_exists.1 hsome
  obtain ⟨hde, before, after, hedges, hbefore⟩ := List.find?_eq_some_iff_append.1 hd
  have hde := of_decide_eq_true hde
  refine ⟨d, ⟨before, after, hedges, fun c hc hcd => ?_⟩, hde⟩
  have hnot := hbefore c hc
  rw [Bool.not_eq_true', decide_eq_false_iff_not] at hnot
  exact hnot ⟨hcd.source.trans hde.source, hcd.target.trans hde.target,
    hcd.isConstraint.trans hde.isConstraint⟩

end EdgeTable

/-! ## The edges of the graph -/

namespace Situation

variable {s : Situation} {w : Walk}

theorem parallel_graphEdge_iff {d e : Edge} :
    (s.graphEdge d).Parallel (s.graphEdge e) ↔ d.Parallel e :=
  ⟨fun h => ⟨h.source, h.target, h.isConstraint⟩, fun h => ⟨h.source, h.target, h.isConstraint⟩⟩

/-- An edge comes first of its kind in the graph where it did on the walk. -/
theorem map_graphEdge_foremost_iff {l : List Edge} {c : Graph.Edge} :
    (∃ before after, l.map s.graphEdge = before ++ c :: after ∧ ∀ b ∈ before, ¬ b.Parallel c) ↔
      ∃ e, s.graphEdge e = c ∧
        ∃ before after, l = before ++ e :: after ∧ ∀ d ∈ before, ¬ d.Parallel e := by
  constructor
  · rintro ⟨before, after, hmap, hfirst⟩
    obtain ⟨earlier, later, rfl, rfl, hlater⟩ := List.map_eq_append_iff.1 hmap
    obtain ⟨e, rest, rfl, rfl, rfl⟩ := List.map_eq_cons_iff.1 hlater
    refine ⟨e, rfl, earlier, rest, rfl, fun d hd hparallel => ?_⟩
    exact hfirst _ (List.mem_map_of_mem hd) (parallel_graphEdge_iff.2 hparallel)
  · rintro ⟨e, rfl, before, after, rfl, hfirst⟩
    refine ⟨before.map s.graphEdge, after.map s.graphEdge, List.map_append, fun b hb => ?_⟩
    obtain ⟨d, hd, rfl⟩ := List.mem_map.1 hb
    exact mt parallel_graphEdge_iff.1 (hfirst d hd)

/-- The graph has the edges between its nodes that were recorded first of their kind. -/
theorem mem_edges_graph_iff (h : s.Shape w) {c : Graph.Edge} : c ∈ (s.graph w).edges ↔
    c.source ∈ (s.graph w).modules ∧ c.target ∈ (s.graph w).modules ∧
      ∃ e, s.graphEdge e = c ∧ w.table.Foremost e := by
  rw [modules_graph_eq_foldl, graph, Graph.mem_edges_foldl_addEdge_iff, map_graphEdge_foremost_iff,
    foldl_addNode_eq h]
  simp [EdgeTable.Foremost]

theorem built_graph (s : Situation) (w : Walk) : (s.graph w).Built :=
  Graph.built_foldl_addEdge (Graph.built_foldl_addNode (.ofRoot _) _) _

namespace Complete

variable (h : s.Complete)

include h

/-- Recorded edges leave nodes of the graph. -/
theorem source_mem_modules {e : Edge} (he : e ∈ s.traverse.table.edges) :
    e.source ∈ (s.graph s.traverse).modules := by
  obtain ⟨k, hk⟩ := EdgeTable.mem_edges_iff.1 he
  obtain ⟨-, st, hst⟩ := s.wired_traverse.source hk
  rw [h.mem_modules_graph, s.shape_traverse.mem_order]
  exact or_iff_not_imp_left.2 fun hroot => ⟨hroot, st, hst⟩

/-- What the graph requests of a node is what the requests ask for that were recorded first. -/
theorem requests_graph_iff {n : Graph.Node} (hn : n ∈ (s.graph s.traverse).nodes) {text : String} :
    (s.graph s.traverse).Requests n.module text n.id.version ↔
      ∃ e, s.traverse.table.Foremost e ∧ e.Requests n text := by
  constructor
  · rintro ⟨-, -, -, -, c, hc, htarget, htext⟩
    obtain ⟨-, -, e, rfl, hfirst⟩ := (mem_edges_graph_iff s.shape_traverse).1 hc
    exact ⟨e, hfirst, htarget, htext⟩
  · rintro ⟨e, hfirst, htarget, htext⟩
    have hmodule : e.target ∈ (s.graph s.traverse).modules :=
      htarget ▸ List.mem_map_of_mem (List.mem_cons_of_mem _ hn)
    have hedge : s.graphEdge e ∈ (s.graph s.traverse).edges :=
      (mem_edges_graph_iff s.shape_traverse).2
        ⟨h.source_mem_modules hfirst.mem, hmodule, e, rfl, hfirst⟩
    exact ⟨n, hn, rfl, rfl, s.graphEdge e, hedge, htarget, htext⟩

end Complete

end Situation

end Resolution

/-! ## The report of a resolution -/

namespace Resolver

variable {ε : Type} {r : Resolver ε} {request : ResolveRequest}

theorem conflicts_of_lastPass {k : Nat} {p : Progress} {res : Resolution}
    (h : LastPass r request k p (.ok res)) : res.conflicts = ConflictReport.ofGraph res.graph := by
  obtain ⟨-, -, -, hres⟩ := pass_ok h.result
  rw [hres]

/-- A text is reported of a node exactly if it is not that of the version and some edge into the
node that was recorded first of its kind between its ends requests it. So an overridden request is
missed only if its selector does not accept its own text or another request of the same kind was
recorded first between its ends. -/
theorem resolve_reports_iff {res : Resolution} (h : r.resolve request = .ok res) :
    ∃ k p, LastPass r request k p (.ok res) ∧ ∀ n ∈ res.graph.nodes, ∀ text,
      (ConflictReport.Lists res.conflicts n.module text n.id.version ↔
        text ≠ n.id.version ∧
          ∃ d, (r.situation request p).traverse.table.Foremost d ∧ d.Requests n text) ∧
      ∀ e, (r.situation request p).traverse.table.Overridden n text e →
        ¬ ConflictReport.Lists res.conflicts n.module text n.id.version →
          (Selector.parse text).accepts text = false ∨
            ∃ d, (r.situation request p).traverse.table.Foremost d ∧ d.Parallel e ∧
              ¬ d.Requests n text := by
  obtain ⟨k, p, hlast⟩ := exists_lastPass h
  obtain ⟨hcomplete, hgraph⟩ := Situation.complete_of_lastPass hlast
  refine ⟨k, p, hlast, fun n hn text => ?_⟩
  have hlists : ConflictReport.Lists res.conflicts n.module text n.id.version ↔
      text ≠ n.id.version ∧
        ∃ d, (r.situation request p).traverse.table.Foremost d ∧ d.Requests n text := by
    rw [conflicts_of_lastPass hlast]
    rw [hgraph] at hn ⊢
    rw [ConflictReport.lists_ofGraph_iff (Situation.built_graph _ _).wellFormed.nodup,
      hcomplete.requests_graph_iff hn, and_comm]
  refine ⟨hlists, fun e he hmissed => ?_⟩
  by_cases heq : text = n.id.version
  · -- what rejects the version of this text is the selector of the text
    exact .inl (heq ▸ he.rejected)
  · obtain ⟨d, hfirst, hde⟩ := EdgeTable.exists_foremost_parallel he.recorded
    exact .inr ⟨d, hfirst, hde, fun hd => hmissed (hlists.2 ⟨heq, d, hfirst, hd⟩)⟩

/-- The root asks twice for `a`, first for the higher version. -/
def repeatedResolver : Resolver Empty where
  provider := Provider.ofData
    [.single ⟨"org", "a", "1.0"⟩ [], .single ⟨"org", "a", "2.0"⟩ [.on ⟨"org", "b", "2.0"⟩],
      .single ⟨"org", "b", "1.0"⟩ [], .single ⟨"org", "b", "2.0"⟩ []]

def repeatedRequest : ResolveRequest where
  root := ⟨"org", "root", "1.0"⟩
  dependencies :=
    [.on ⟨"org", "a", "2.0"⟩, .on ⟨"org", "a", "1.0"⟩, .on ⟨"org", "b", "1.0"⟩]

/-- What the last pass of the sample starts with. -/
def repeatedProgress : Progress :=
  (repeatedResolver.pass repeatedRequest (repeatedResolver.pass repeatedRequest {} 1).1 2).1

theorem reaches_repeatedProgress : Reaches repeatedResolver repeatedRequest 2 repeatedProgress :=
  (Reaches.start.next (by decide +kernel)).next (by decide +kernel)

/-- Of the two requests that were overridden, the one for `b` is reported and the one for `a` is
not. -/
theorem resolve_reports_iff_repeated :
    ∃ res, repeatedResolver.resolve repeatedRequest = .ok res ∧
      res.conflicts.map VersionConflict.text = ["org:b requested 1.0 but resolved 2.0 (byRequest)"] ∧
      ∃ k p, LastPass repeatedResolver repeatedRequest k p (.ok res) ∧
        ∃ n ∈ res.graph.nodes, n.id = ⟨"org", "a", "2.0"⟩ ∧ ∃ e,
          (repeatedResolver.situation repeatedRequest p).traverse.table.Overridden n "1.0" e ∧
            ∃ d, (repeatedResolver.situation repeatedRequest p).traverse.table.Foremost d ∧
              d.Parallel e ∧ ¬ d.Requests n "1.0" := by
  have hresult : ((repeatedResolver.resolve repeatedRequest).toOption.any fun res =>
      res.conflicts.map VersionConflict.text
          == ["org:b requested 1.0 but resolved 2.0 (byRequest)"] &&
        res.conflicts.all (fun c => c.module != ⟨"org", "a"⟩) &&
        res.graph.nodes.any fun n => n.id == ⟨"org", "a", "2.0"⟩) = true := by
    decide +kernel
  have hrecorded : ∃ e ∈ (repeatedResolver.situation repeatedRequest
      repeatedProgress).traverse.table.edges, e.target = ⟨"org", "a"⟩ ∧
        e.request.constraint.requestedVersion = some "1.0" := by
    decide +kernel
  cases h : repeatedResolver.resolve repeatedRequest with
  | error e => simp [h, Except.toOption] at hresult
  | ok res =>
    simp only [h, Except.toOption, Option.any_some, List.any_eq_true, List.all_eq_true,
      Bool.and_eq_true, beq_iff_eq, bne_iff_ne] at hresult
    obtain ⟨⟨hreport, hnone⟩, n, hn, hid⟩ := hresult
    obtain ⟨k, p, hlast, hreports⟩ := resolve_reports_iff h
    obtain ⟨rfl, rfl⟩ := hlast.eq_of_reaches reaches_repeatedProgress (by decide +kernel)
    obtain ⟨e, he, htarget, htext⟩ := hrecorded
    have hmodule : n.module = ⟨"org", "a"⟩ := congrArg Coordinates.module hid
    have hoverridden : (repeatedResolver.situation repeatedRequest
        repeatedProgress).traverse.table.Overridden n "1.0" e :=
      ⟨he, ⟨htarget.trans hmodule.symm, htext⟩, hid ▸ by decide +kernel⟩
    refine ⟨res, rfl, hreport, 2, repeatedProgress, hlast, n, hn, hid, e, hoverridden, ?_⟩
    have hunlisted : ¬ ConflictReport.Lists res.conflicts n.module "1.0" n.id.version := by
      rintro ⟨c, hc, hcn, -, -⟩
      exact hnone c hc (hcn.trans hmodule)
    rcases (hreports n hn "1.0").2 e hoverridden hunlisted with hself | hother
    · exact absurd hself (by decide +kernel)
    · exact hother

end Resolver

end VariantGraph
