import VariantGraph.Proofs.Resolution.Stages
import VariantGraph.Proofs.Resolution.Written

/-!
# The invariant of a walk

At every stage the nodes, the order of discovery, the outcomes and the edges fit together, and every
node that is not queued is up to date: its outcome is the one of its present requests, the edges of
its present declarations stand in their slots, and the targets of these edges serve it.

Main statements: `Situation.invariant_stage` says that all this holds at every stage,
`Situation.upToDate_of_queue_eq_nil` that every node is up to date when nothing is queued.
-/

namespace VariantGraph.Resolution

/-- An edge of a kind is recorded from a module to another. -/
def Walk.Links (w : Walk) (isConstraint : Bool) (m n : ModuleId) : Prop :=
  ∃ k e, w.table.get? k = some e ∧ k.source = m ∧ e.target = n ∧ k.isConstraint = isConstraint

namespace Situation

/-! ## Nodes and outcomes -/

/-- The nodes of a walk fit together: the root has its first state, the order of discovery holds the
other nodes, only nodes are queued, and an outcome is always the one of the present requests. -/
structure Shape (s : Situation) (w : Walk) : Prop where
  root : w.nodes.get? s.root = some NodeState.root
  mem_order : ∀ {m}, m ∈ w.order ↔ m ≠ s.root ∧ ∃ st, w.nodes.get? m = some st
  nodup : w.order.Nodup
  queued : ∀ {m}, m ∈ w.queue → ∃ st, w.nodes.get? m = some st
  nonempty : ∀ {m st}, w.nodes.get? m = some st → st.asks ≠ [] ∧ st.excludeSets ≠ []
  outcome : ∀ {m o}, w.outcomes.get? m = some o →
    ∃ st, w.nodes.get? m = some st ∧ s.outcome? m st.asks = some o

theorem shape_start (s : Situation) : s.Shape (Walk.start s.root) where
  root := by simp [Walk.start]
  mem_order {m} := by
    constructor
    · intro h
      simp [Walk.start] at h
    · rintro ⟨hne, st, hst⟩
      simp [Walk.start, hne] at hst
  nodup := List.nodup_nil
  queued {m} h := by
    obtain rfl := List.mem_singleton.1 h
    exact ⟨NodeState.root, by simp [Walk.start]⟩
  nonempty {m st} h := by
    by_cases hm : m = s.root
    · obtain rfl : NodeState.root = st := by simpa [Walk.start, hm] using h
      exact ⟨List.cons_ne_nil _ _, List.cons_ne_nil _ _⟩
    · simp [Walk.start, hm] at h
  outcome h := by simp [Walk.start] at h

theorem Shape.withTable {s : Situation} {w : Walk} (h : s.Shape w) (t : EdgeTable) :
    s.Shape { w with table := t } :=
  ⟨h.root, h.mem_order, h.nodup, h.queued, h.nonempty, h.outcome⟩

theorem Shape.pop {s : Situation} {w : Walk} (h : s.Shape w) {m : ModuleId} {rest : List ModuleId}
    (hq : w.queue = m :: rest) : s.Shape { w with queue := rest } :=
  ⟨h.root, h.mem_order, h.nodup, fun hx => h.queued (hq ▸ List.mem_cons_of_mem _ hx), h.nonempty,
    h.outcome⟩

theorem Shape.settle {s : Situation} {w : Walk} (h : s.Shape w) {m : ModuleId} {st : NodeState}
    (hst : w.nodes.get? m = some st) : s.Shape (w.settle m (s.outcome? m st.asks)) where
  root := by rw [Walk.nodes_settle, h.root]
  mem_order := by
    rw [Walk.order_settle, Walk.nodes_settle]
    exact h.mem_order
  nodup := by
    rw [Walk.order_settle]
    exact h.nodup
  queued := by
    rw [Walk.queue_settle, Walk.nodes_settle]
    exact h.queued
  nonempty := by
    rw [Walk.nodes_settle]
    exact h.nonempty
  outcome {x o} ho := by
    rw [Walk.nodes_settle]
    rw [Walk.get?_outcomes_settle] at ho
    by_cases hx : x = m
    · subst hx
      rw [if_pos rfl] at ho
      cases hnew : s.outcome? x st.asks with
      | none =>
        rw [hnew, Option.none_or] at ho
        exact h.outcome ho
      | some o' =>
        rw [hnew, Option.some_or] at ho
        exact ⟨st, hst, hnew.trans ho⟩
    · rw [if_neg hx] at ho
      exact h.outcome ho

/-- A settled node has the outcome of its present requests. -/
theorem Shape.get?_outcomes_settle {s : Situation} {w : Walk} (h : s.Shape w) {m : ModuleId}
    {st : NodeState} (hst : w.nodes.get? m = some st) :
    (w.settle m (s.outcome? m st.asks)).outcomes.get? m = s.outcome? m st.asks := by
  rw [Walk.get?_outcomes_settle, if_pos rfl]
  cases hnew : s.outcome? m st.asks with
  | some o => rfl
  | none =>
    rw [Option.none_or]
    cases hold : w.outcomes.get? m with
    | none => rfl
    | some o =>
      -- an outcome that is recorded already would be the present one
      obtain ⟨st', hst', hout⟩ := h.outcome hold
      rw [hst, Option.some.injEq] at hst'
      rw [← hst', hnew] at hout
      cases hout

theorem Shape.arrive {s : Situation} {w : Walk} (h : s.Shape w) {m : ModuleId} (hm : m ≠ s.root)
    (excludes : List ExcludeSet) (passedDown : Inherited) (ask : VariantRequest) :
    s.Shape (w.arrive m excludes passedDown ask) where
  root := by rw [Walk.get?_nodes_arrive, if_neg (Ne.symm hm), h.root]
  mem_order {x} := by
    rw [Walk.arrive_order, Walk.get?_nodes_arrive]
    by_cases hx : x = m
    · subst hx
      cases hst : w.nodes.get? x with
      | none => simp [hm]
      | some st => simp [h.mem_order, hm, hst]
    · cases hst : w.nodes.get? m with
      | none => simp [hx, h.mem_order]
      | some st => simp [hx, h.mem_order]
  nodup := by
    rw [Walk.arrive_order]
    cases hst : w.nodes.get? m with
    | some st => simpa using h.nodup
    | none =>
      have hnot : m ∉ w.order := by
        intro hmem
        obtain ⟨-, st, hst'⟩ := h.mem_order.1 hmem
        rw [hst] at hst'
        cases hst'
      rw [if_neg (by simp), List.nodup_append]
      refine ⟨h.nodup, List.nodup_singleton m, ?_⟩
      rintro x hx y hy rfl
      obtain rfl := List.mem_singleton.1 hy
      exact hnot hx
  queued {x} hx := by
    rw [Walk.get?_nodes_arrive]
    rcases Walk.mem_queue_arrive _ _ _ _ _ hx with rfl | hx
    · exact ⟨_, if_pos rfl⟩
    · obtain ⟨st, hst⟩ := h.queued hx
      by_cases hxm : x = m
      · exact ⟨_, if_pos hxm⟩
      · exact ⟨st, by rw [if_neg hxm, hst]⟩
  nonempty {x st} hst := by
    rw [Walk.get?_nodes_arrive] at hst
    by_cases hx : x = m
    · rw [if_pos hx, Option.some.injEq] at hst
      subst hst
      exact ⟨NodeState.asks_after_ne_nil _,
        NodeState.excludeSets_after_ne_nil fun n hn => (h.nonempty hn).2⟩
    · rw [if_neg hx] at hst
      exact h.nonempty hst
  outcome {x o} ho := by
    have hgrow := Walk.growsTo_arrive w m excludes passedDown ask
    obtain ⟨st, hst, hout⟩ := h.outcome (hgrow.discovered ho)
    obtain ⟨st', hst', -⟩ := hgrow.node hst
    exact ⟨st', hst', by rw [(hgrow.outcome ho hst hst').2, hout]⟩

theorem Shape.expand {s : Situation} {w : Walk} (h : s.Shape w) (o : Origin) (d : Declarations) :
    s.Shape (s.expand o d w) :=
  expand_induction (P := s.Shape) (fun _ _ hw => hw.withTable _)
    (fun _ hw _ _ hne => hw.arrive hne _ _ _) h

/-! ## Edges -/

/-- The edges of a walk fit its nodes: the edge of a slot starts at a node and is of the kind of the
slot, dependencies lead to nodes and constraints are not on the root. -/
structure Wired (s : Situation) (w : Walk) : Prop where
  source : ∀ {k e}, w.table.get? k = some e →
    e.source = k.source ∧ ∃ st, w.nodes.get? e.source = some st
  kind : ∀ {k e}, w.table.get? k = some e → e.request.isConstraint = k.isConstraint
  target : ∀ {k e}, w.table.get? k = some e → k.isConstraint = false →
    ∃ st, w.nodes.get? e.target = some st
  constraint : ∀ {k e}, w.table.get? k = some e → k.isConstraint = true → e.target ≠ s.root

theorem wired_start (s : Situation) : s.Wired (Walk.start s.root) where
  source h := by simp [Walk.start] at h
  kind h := by simp [Walk.start] at h
  target h := by simp [Walk.start] at h
  constraint h := by simp [Walk.start] at h

/-- The ends of a recorded dependency are nodes. -/
theorem Wired.of_links {s : Situation} {w : Walk} (h : s.Wired w) {m n : ModuleId}
    (hlink : w.Links false m n) :
    (∃ st, w.nodes.get? m = some st) ∧ ∃ st, w.nodes.get? n = some st := by
  obtain ⟨k, e, he, rfl, rfl, hk⟩ := hlink
  obtain ⟨hsource, hnode⟩ := h.source he
  exact ⟨hsource ▸ hnode, h.target he hk⟩

/-- The edges still fit after dropping slots and after changes of outcomes and queue. -/
theorem Wired.mono {s : Situation} {w w' : Walk} (h : s.Wired w) (hnodes : w'.nodes = w.nodes)
    (htable : ∀ {k e}, w'.table.get? k = some e → w.table.get? k = some e) : s.Wired w' where
  source he := by
    rw [hnodes]
    exact h.source (htable he)
  kind he := h.kind (htable he)
  target he hk := by
    rw [hnodes]
    exact h.target (htable he) hk
  constraint he hk := h.constraint (htable he) hk

theorem Wired.trim {s : Situation} {w : Walk} (h : s.Wired w) (m : ModuleId) (d : Declarations) :
    s.Wired (w.trim m d) := by
  refine h.mono rfl ?_
  intro k e he
  rw [Walk.trim, EdgeTable.get?_truncate] at he
  split at he
  · exact he
  · simp at he

/-- An edge after an expansion is one that the expansion has written, or it was there before. -/
theorem get?_table_expand_cases {s : Situation} {o : Origin} {d : Declarations} {w : Walk} {k : Slot}
    {e : Edge} (h : (s.expand o d w).table.get? k = some e) :
    (k, e) ∈ s.written o d ∨ w.table.get? k = some e := by
  by_cases hk : ∃ e', (k, e') ∈ s.written o d
  · obtain ⟨e', he'⟩ := hk
    rw [get?_table_expand_of_mem he', Option.some.injEq] at h
    exact .inl (h ▸ he')
  · rw [get?_table_expand_of_not_mem fun e' he' => hk ⟨e', he'⟩] at h
    exact .inr h

theorem Wired.expand {s : Situation} {w : Walk} (h : s.Wired w) (hs : s.Shape w) {m : ModuleId}
    {st : NodeState} (hst : w.nodes.get? m = some st) (d : Declarations) :
    s.Wired (s.expand (s.origin m st) d w) := by
  have hgrow := growsTo_expand s (s.origin m st) d w
  constructor
  · intro k e he
    rcases get?_table_expand_cases he with hw | hold
    · obtain ⟨hk, hsrc, -, -⟩ := of_mem_written hw
      rw [hk, hsrc]
      exact ⟨rfl, hgrow.exists_node ⟨st, hst⟩⟩
    · exact ⟨(h.source hold).1, hgrow.exists_node (h.source hold).2⟩
  · intro k e he
    rcases get?_table_expand_cases he with hw | hold
    · exact (of_mem_written hw).2.2.1
    · exact h.kind hold
  · intro k e he hk
    rcases get?_table_expand_cases he with hw | hold
    · rcases mem_written_iff.1 hw with ⟨rd, hrd, rfl, rfl⟩ | ⟨rc, -, -, rfl, -⟩
      · by_cases hroot : rd.ruled.module = s.root
        · exact ⟨_, by rw [dependencyEdge, hroot, (hs.expand _ _).root]⟩
        · obtain ⟨t, ht, -⟩ := serves_expand (hs.nonempty hst).2 w hrd hroot
          exact ⟨t, ht⟩
      · exact Bool.noConfusion hk
    · exact hgrow.exists_node (h.target hold hk)
  · intro k e he hk
    rcases get?_table_expand_cases he with hw | hold
    · rcases mem_written_iff.1 hw with ⟨rd, -, rfl, -⟩ | ⟨rc, -, hne, -, rfl⟩
      · exact Bool.noConfusion hk
      · exact hne
    · exact h.constraint hold hk

/-! ## Nodes that are up to date -/

/-- A node of a given state is up to date. -/
structure UpToDate (s : Situation) (w : Walk) (m : ModuleId) (st : NodeState) : Prop where
  outcome : w.outcomes.get? m = s.outcome? m st.asks
  /-- The edges of the declarations stand in their slots. -/
  written : ∀ {d}, s.declared? m st = some d → ∀ {k e}, (k, e) ∈ s.written (s.origin m st) d →
    w.table.get? k = some e
  /-- There are no slots beyond the declarations. -/
  current : ∀ {d}, s.declared? m st = some d → ∀ {k e}, w.table.get? k = some e → k.source = m →
    EdgeTable.isCurrent m d.dependencies.length d.constraints.length k = true
  /-- The targets of the followed dependencies serve the node. -/
  serves : ∀ {d}, s.declared? m st = some d → ∀ {rd}, rd ∈ s.followed st d.dependencies →
    rd.ruled.module ≠ s.root → ∃ t, w.nodes.get? rd.ruled.module = some t ∧
      t.Serves (excludesBelow st rd.declared) (s.below (s.origin m st) d) (s.askOf rd.declared)

/-- A node stays up to date while its outcome and its slots stay. -/
theorem UpToDate.mono {s : Situation} {w w' : Walk} {m : ModuleId} {st : NodeState}
    (h : s.UpToDate w m st) (hout : w'.outcomes.get? m = w.outcomes.get? m)
    (htable : ∀ k, k.source = m → w'.table.get? k = w.table.get? k)
    (hnode : ∀ {x t}, w.nodes.get? x = some t →
      ∃ t', w'.nodes.get? x = some t' ∧ t.GrowsTo t') : s.UpToDate w' m st where
  outcome := hout.trans h.outcome
  written {d} hd {k e} hw := by
    rw [htable k (of_mem_written hw).1]
    exact h.written hd hw
  current {d} hd {k e} he hk := by
    rw [htable k hk] at he
    exact h.current hd he hk
  serves {d} hd {rd} hrd hne := by
    obtain ⟨t, ht, hserves⟩ := h.serves hd hrd hne
    obtain ⟨t', ht', hgrow⟩ := hnode ht
    exact ⟨t', ht', hserves.mono hgrow⟩

/-- A node that declares nothing is up to date once its outcome is. -/
theorem upToDate_of_declared?_eq_none {s : Situation} {w : Walk} {m : ModuleId} {st : NodeState}
    (hd : s.declared? m st = none) (hout : w.outcomes.get? m = s.outcome? m st.asks) :
    s.UpToDate w m st where
  outcome := hout
  written h := by simp [hd] at h
  current h := by simp [hd] at h
  serves h := by simp [hd] at h

/-- After its expansion a node is up to date, unless its own edges have queued it again. -/
theorem upToDate_expand {s : Situation} {w : Walk} (hs : s.Shape w) {m : ModuleId} {st : NodeState}
    (hst : w.nodes.get? m = some st) (hout : w.outcomes.get? m = s.outcome? m st.asks)
    {d : Declarations} (hd : s.declared? m st = some d)
    (hcurrent : ∀ {k e}, w.table.get? k = some e → k.source = m →
      EdgeTable.isCurrent m d.dependencies.length d.constraints.length k = true)
    (hq : m ∉ (s.expand (s.origin m st) d w).queue) :
    s.UpToDate (s.expand (s.origin m st) d w) m st := by
  have hdeclared : ∀ {d'}, s.declared? m st = some d' → d' = d := by
    intro d' hd'
    rw [hd, Option.some.injEq] at hd'
    exact hd'.symm
  constructor
  · rw [(growsTo_expand s _ d w).get?_outcomes hq, hout]
  · intro d' hd' k e hw
    obtain rfl := hdeclared hd'
    exact get?_table_expand_of_mem hw w
  · intro d' hd' k e he hk
    obtain rfl := hdeclared hd'
    rcases get?_table_expand_cases he with hw | hold
    · exact (of_mem_written hw).2.2.2
    · exact hcurrent hold hk
  · intro d' hd' rd hrd hne
    obtain rfl := hdeclared hd'
    exact serves_expand (hs.nonempty hst).2 w hrd hne

/-! ## The invariant -/

/-- What holds at every stage of a walk. -/
structure Invariant (s : Situation) (w : Walk) : Prop where
  shape : s.Shape w
  wired : s.Wired w
  /-- The root is visited first and never again. -/
  first : s.root ∈ w.queue → w = Walk.start s.root
  upToDate : ∀ {m st}, w.nodes.get? m = some st → m ∉ w.queue → s.UpToDate w m st

theorem invariant_start (s : Situation) : s.Invariant (Walk.start s.root) where
  shape := shape_start s
  wired := wired_start s
  first _ := rfl
  upToDate {m st} hst hq := by
    have hm : m ≠ s.root := by simpa [Walk.start] using hq
    simp [Walk.start, hm] at hst

/-- A walk in which one node has its outcome, but its declarations are not expanded yet. -/
structure Unexpanded (s : Situation) (m : ModuleId) (st : NodeState) (w : Walk) : Prop where
  shape : s.Shape w
  wired : s.Wired w
  node : w.nodes.get? m = some st
  root : s.root ∉ w.queue
  outcome : w.outcomes.get? m = s.outcome? m st.asks
  others : ∀ {x t}, w.nodes.get? x = some t → x ≠ m → x ∉ w.queue → s.UpToDate w x t

namespace Unexpanded

variable {s : Situation} {m : ModuleId} {st : NodeState} {w : Walk} (h : s.Unexpanded m st w)

include h

/-- A node that declares nothing needs no expansion. -/
theorem invariant_of_declared?_eq_none (hd : s.declared? m st = none) : s.Invariant w where
  shape := h.shape
  wired := h.wired
  first hroot := absurd hroot h.root
  upToDate {x t} ht hx := by
    by_cases hxm : x = m
    · subst hxm
      rw [h.node, Option.some.injEq] at ht
      subst ht
      exact upToDate_of_declared?_eq_none hd h.outcome
    · exact h.others ht hxm hx

theorem trim (d : Declarations) : s.Unexpanded m st (w.trim m d) where
  shape := h.shape.withTable _
  wired := h.wired.trim m d
  node := h.node
  root := h.root
  outcome := h.outcome
  others {x t} ht hx hmem := by
    refine (h.others ht hx hmem).mono rfl ?_ fun hu => ⟨_, hu, NodeState.GrowsTo.refl _⟩
    intro k hk
    have hkm : k.source ≠ m := fun heq => hx (hk.symm.trans heq)
    rw [Walk.trim, EdgeTable.get?_truncate]
    simp [EdgeTable.isCurrent, hkm]

/-- The root is not queued by an expansion. -/
theorem root_not_mem_queue_expand (o : Origin) (d : Declarations) :
    s.root ∉ (s.expand o d w).queue := by
  refine expand_induction (P := fun w => s.root ∉ w.queue) (fun _ _ hw => hw) ?_ h.root
  intro w hw rd _ hne hmem
  rcases Walk.mem_queue_arrive _ _ _ _ _ hmem with heq | hold
  · exact hne heq.symm
  · exact hw hold

/-- The expansion brings the node up to date, and keeps the others so unless it queues them. -/
theorem invariant_expand {d : Declarations} (hd : s.declared? m st = some d)
    (hcurrent : ∀ {k e}, w.table.get? k = some e → k.source = m →
      EdgeTable.isCurrent m d.dependencies.length d.constraints.length k = true) :
    s.Invariant (s.expand (s.origin m st) d w) where
  shape := h.shape.expand _ _
  wired := h.wired.expand h.shape h.node d
  first hroot := absurd hroot (h.root_not_mem_queue_expand _ _)
  upToDate {x t} ht hx := by
    have hgrow := growsTo_expand s (s.origin m st) d w
    -- a node that is not queued has not changed
    have hkept := hgrow.get?_nodes hx
    rw [ht] at hkept
    by_cases hxm : x = m
    · subst hxm
      rw [h.node, Option.some.injEq] at hkept
      subst hkept
      exact upToDate_expand h.shape h.node h.outcome hd hcurrent hx
    · have hold : x ∉ w.queue := fun hmem => hx (hgrow.queued hmem)
      refine (h.others hkept.symm hxm hold).mono (hgrow.get?_outcomes hx) ?_ hgrow.node
      intro k hk
      exact get?_table_expand_of_ne (fun heq => hxm (hk.symm.trans heq)) w

end Unexpanded

section Step

variable {s : Situation} {w : Walk} (h : s.Invariant w) {m : ModuleId} {rest : List ModuleId}
  (hq : w.queue = m :: rest) {st : NodeState} (hst : w.nodes.get? m = some st)

include h hq

/-- The root is not queued behind another node. -/
theorem Invariant.root_not_mem_rest : s.root ∉ rest := by
  intro hmem
  have hstart := h.first (hq ▸ List.mem_cons_of_mem _ hmem)
  rw [hstart] at hq
  obtain ⟨-, rfl⟩ := List.cons.inj hq
  simp at hmem

/-- The node in front of the queue has a state, and its visit is the one that `visit_eq` gives. -/
theorem Invariant.visit_eq (hst : w.nodes.get? m = some st) :
    s.visit m { w with queue := rest } =
      match s.declared? m st with
      | none => ({ w with queue := rest } : Walk).settle m (s.outcome? m st.asks)
      | some d => s.expand (s.origin m st) d
          ((({ w with queue := rest } : Walk).settle m (s.outcome? m st.asks)).trim m d) := by
  refine Situation.visit_eq hst ?_ ?_
  · intro o ho
    obtain ⟨st', hst', hout⟩ := h.shape.outcome ho
    rw [hst, Option.some.injEq] at hst'
    rw [hst', hout]
  · rintro rfl k e hk
    have hstart := h.first (hq ▸ List.mem_cons_self)
    rw [hstart] at hk
    simp [Walk.start] at hk

/-- Between its settling and its expansion the node in front of the queue is the only one that is
neither queued nor up to date. -/
theorem Invariant.unexpanded (hst : w.nodes.get? m = some st) : s.Unexpanded m st
    (({ w with queue := rest } : Walk).settle m (s.outcome? m st.asks)) := by
  have hpop := h.shape.pop hq
  refine ⟨hpop.settle hst, ?_, ?_, ?_, hpop.get?_outcomes_settle hst, ?_⟩
  · refine h.wired.mono (Walk.nodes_settle _ _ _) ?_
    intro k e he
    rwa [Walk.table_settle] at he
  · rw [Walk.nodes_settle]
    exact hst
  · rw [Walk.queue_settle]
    exact h.root_not_mem_rest hq
  · intro x t ht hx hmem
    rw [Walk.nodes_settle] at ht
    rw [Walk.queue_settle] at hmem
    have hnot : x ∉ w.queue := by
      intro hold
      rw [hq] at hold
      rcases List.mem_cons.1 hold with heq | hrest
      · exact hx heq
      · exact hmem hrest
    refine (h.upToDate ht hnot).mono ?_ ?_ ?_
    · rw [Walk.get?_outcomes_settle, if_neg hx]
    · intro k _
      rw [Walk.table_settle]
    · intro y u hu
      exact ⟨u, by rwa [Walk.nodes_settle], NodeState.GrowsTo.refl u⟩

/-- Visiting the node in front of the queue keeps the invariant. -/
theorem Invariant.visit (hst : w.nodes.get? m = some st) :
    s.Invariant (s.visit m { w with queue := rest }) := by
  rw [h.visit_eq hq hst]
  have hunexpanded := h.unexpanded hq hst
  cases hd : s.declared? m st with
  | none => exact hunexpanded.invariant_of_declared?_eq_none hd
  | some d =>
    refine (hunexpanded.trim d).invariant_expand hd ?_
    intro k e he hk
    rw [Walk.trim, EdgeTable.get?_truncate] at he
    split at he
    · assumption
    · simp at he

end Step

theorem Invariant.step {s : Situation} {w : Walk} (h : s.Invariant w) : s.Invariant (s.step w) := by
  unfold Situation.step
  split
  · exact h
  · next m rest hq =>
    obtain ⟨st, hst⟩ := h.shape.queued (hq ▸ List.mem_cons_self : m ∈ w.queue)
    exact h.visit hq hst

/-- The invariant holds at every stage. -/
theorem invariant_stage (s : Situation) (n : Nat) : s.Invariant (s.stage n) :=
  stage_induction (invariant_start s) (fun _ h => h.step) n

/-- When nothing is queued, every node is up to date. -/
theorem upToDate_of_queue_eq_nil {s : Situation} {n : Nat} (hq : (s.stage n).queue = [])
    {m : ModuleId} {st : NodeState} (hst : (s.stage n).nodes.get? m = some st) :
    s.UpToDate (s.stage n) m st :=
  (invariant_stage s n).upToDate hst (by rw [hq]; exact List.not_mem_nil)

end Situation

end VariantGraph.Resolution
