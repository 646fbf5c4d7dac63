import Mathlib.Order.Basic
import VariantGraph.Proofs.Resolution.Termination

/-!
# The history of a walk

From stage to stage nodes only grow, a module is reached because a dependency on it is recorded, and
a slot holds the edge that was written into it last, unless it was dropped since.

Main statements: `Situation.get?_table_stage_iff` for the edges,
`Situation.exists_links_of_mem_order` for the reached modules,
`Situation.Visits.exists_mem_written` for nodes for which nothing else is selected.
-/

namespace VariantGraph.Resolution.Situation

variable {s : Situation} {n : Nat} {m : ModuleId} {k : Slot} {e : Edge}

/-! ## Visits -/

/-- At a stage a node of some state is visited and declares `d`. -/
structure Visits (s : Situation) (n : Nat) (m : ModuleId) (st : NodeState) (d : Declarations) :
    Prop where
  front : (s.stage n).queue.head? = some m
  node : (s.stage n).nodes.get? m = some st
  declared : s.declared? m st = some d

/-- A visit writes an edge into a slot. -/
def Writes (s : Situation) (n : Nat) (k : Slot) (e : Edge) : Prop :=
  ∃ st d, s.Visits n k.source st d ∧ (k, e) ∈ s.written (s.origin k.source st) d

/-- A visit leaves a slot alone: if it is one of the node of the slot, then the slot is among the
declarations and is not written. -/
def Spares (s : Situation) (n : Nat) (k : Slot) : Prop :=
  ∀ st d, s.Visits n k.source st d →
    EdgeTable.isCurrent k.source d.dependencies.length d.constraints.length k = true ∧
      ∀ e, (k, e) ∉ s.written (s.origin k.source st) d

/-- The visit of a stage is the one that `visit_eq` describes. -/
theorem stage_succ_cases (s : Situation) (n : Nat) :
    ((s.stage n).queue = [] ∧ s.stage (n + 1) = s.stage n) ∨
      ∃ m st, (s.stage n).queue.head? = some m ∧ (s.stage n).nodes.get? m = some st ∧
        ∃ w : Walk, w.nodes = (s.stage n).nodes ∧ w.order = (s.stage n).order ∧
          w.table = (s.stage n).table ∧
            s.stage (n + 1) =
              match s.declared? m st with
              | none => w
              | some d => s.expand (s.origin m st) d (w.trim m d) := by
  have hinv := invariant_stage s n
  rw [stage_succ]
  cases hq : (s.stage n).queue with
  | nil => exact .inl ⟨rfl, by simp [step, hq]⟩
  | cons m rest =>
    obtain ⟨st, hst⟩ := hinv.shape.queued (hq ▸ List.mem_cons_self : m ∈ (s.stage n).queue)
    refine .inr ⟨m, st, rfl, hst,
      ({ s.stage n with queue := rest } : Walk).settle m (s.outcome? m st.asks), ?_, ?_, ?_, ?_⟩
    · rw [Walk.nodes_settle]
    · rw [Walk.order_settle]
    · rw [Walk.table_settle]
    · have hstep : s.step (s.stage n) = s.visit m { s.stage n with queue := rest } := by
        simp [step, hq]
      exact hstep.trans (hinv.visit_eq hq hst)

/-- At most one node is visited at a stage. -/
theorem Visits.unique {m' : ModuleId} {st st' : NodeState} {d d' : Declarations}
    (h : s.Visits n m st d) (h' : s.Visits n m' st' d') : m' = m ∧ st' = st ∧ d' = d := by
  have hm := h'.front
  rw [h.front, Option.some.injEq] at hm
  subst hm
  have hst := h'.node
  rw [h.node, Option.some.injEq] at hst
  subst hst
  have hd := h'.declared
  rw [h.declared, Option.some.injEq] at hd
  exact ⟨rfl, rfl, hd.symm⟩

/-- The stage after a visit. -/
theorem Visits.stage_succ {st : NodeState} {d : Declarations} (h : s.Visits n m st d) :
    ∃ w : Walk, w.nodes = (s.stage n).nodes ∧ w.order = (s.stage n).order ∧
      w.table = (s.stage n).table ∧ s.stage (n + 1) = s.expand (s.origin m st) d (w.trim m d) := by
  rcases s.stage_succ_cases n with ⟨hq, -⟩ | ⟨x, t, hfront, hst, w, hnodes, horder, htable, hstage⟩
  · have hhead := h.front
    simp [hq] at hhead
  · rw [h.front, Option.some.injEq] at hfront
    subst hfront
    rw [h.node, Option.some.injEq] at hst
    subst hst
    rw [h.declared] at hstage
    exact ⟨w, hnodes, horder, htable, hstage⟩

/-- A stage at which nothing is visited that declares something keeps nodes, order and edges. -/
theorem stage_succ_of_not_visits (h : ∀ m st d, ¬ s.Visits n m st d) :
    (s.stage (n + 1)).nodes = (s.stage n).nodes ∧ (s.stage (n + 1)).order = (s.stage n).order ∧
      (s.stage (n + 1)).table = (s.stage n).table := by
  rcases s.stage_succ_cases n with ⟨-, hsame⟩ | ⟨x, t, hfront, hst, w, hnodes, horder, htable, hstage⟩
  · rw [hsame]
    exact ⟨rfl, rfl, rfl⟩
  · cases hd : s.declared? x t with
    | some d => exact absurd ⟨hfront, hst, hd⟩ (h x t d)
    | none =>
      rw [hd] at hstage
      rw [hstage]
      exact ⟨hnodes, horder, htable⟩

/-! ## Nodes grow -/

theorem exists_growsTo_stage_succ {st : NodeState} (h : (s.stage n).nodes.get? m = some st) :
    ∃ st', (s.stage (n + 1)).nodes.get? m = some st' ∧ st.GrowsTo st' := by
  by_cases hvisits : ∃ x t d, s.Visits n x t d
  · obtain ⟨x, t, d, hv⟩ := hvisits
    obtain ⟨w, hnodes, -, -, hstage⟩ := hv.stage_succ
    rw [hstage]
    refine (growsTo_expand s (s.origin x t) d (w.trim x d)).node ?_
    show w.nodes.get? m = some st
    rw [hnodes, h]
  · push Not at hvisits
    rw [(stage_succ_of_not_visits hvisits).1]
    exact ⟨st, h, NodeState.GrowsTo.refl st⟩

/-- The state of a node grows along the stages. -/
theorem exists_growsTo_stage {n' : Nat} (hn : n ≤ n') {st : NodeState}
    (h : (s.stage n).nodes.get? m = some st) :
    ∃ st', (s.stage n').nodes.get? m = some st' ∧ st.GrowsTo st' := by
  induction n', hn using Nat.le_induction with
  | base => exact ⟨st, h, NodeState.GrowsTo.refl st⟩
  | succ n' _ ih =>
    obtain ⟨st₁, hst₁, hgrow₁⟩ := ih
    obtain ⟨st₂, hst₂, hgrow₂⟩ := exists_growsTo_stage_succ hst₁
    exact ⟨st₂, hst₂, hgrow₁.trans hgrow₂⟩

/-- What is left out at a grown state was left out before. -/
theorem isLeftOut_of_growsTo {st st' : NodeState} (h : st.GrowsTo st') {dep : Dependency}
    (hout : s.isLeftOut st' dep = true) : s.isLeftOut st dep = true := by
  unfold isLeftOut at hout ⊢
  rw [Bool.or_eq_true] at hout ⊢
  exact hout.imp h.excludes h.excludes

/-! ## Edges -/

/-- A slot whose node is not visited keeps its edge. -/
theorem get?_table_stage_succ_of_not_visits (h : ∀ st d, ¬ s.Visits n k.source st d) :
    (s.stage (n + 1)).table.get? k = (s.stage n).table.get? k := by
  by_cases hvisits : ∃ x t d, s.Visits n x t d
  · obtain ⟨x, t, d, hv⟩ := hvisits
    obtain ⟨w, -, -, htable, hstage⟩ := hv.stage_succ
    have hk : k.source ≠ x := by
      rintro rfl
      exact h t d hv
    rw [hstage, get?_table_expand_of_ne hk, Walk.trim, EdgeTable.get?_truncate, htable]
    simp [EdgeTable.isCurrent, hk]
  · push Not at hvisits
    rw [(stage_succ_of_not_visits hvisits).2.2]

/-- After a visit a slot holds what the visit has written, or what it held when it was left alone. -/
theorem get?_table_stage_succ_iff : (s.stage (n + 1)).table.get? k = some e ↔
    s.Writes n k e ∨ (s.Spares n k ∧ (s.stage n).table.get? k = some e) := by
  by_cases hvisits : ∃ st d, s.Visits n k.source st d
  · obtain ⟨st, d, hv⟩ := hvisits
    obtain ⟨w, -, -, htable, hstage⟩ := hv.stage_succ
    rw [hstage]
    constructor
    · intro h
      by_cases hw : ∃ e', (k, e') ∈ s.written (s.origin k.source st) d
      · obtain ⟨e', he'⟩ := hw
        rw [get?_table_expand_of_mem he', Option.some.injEq] at h
        exact .inl ⟨st, d, hv, h ▸ he'⟩
      · rw [get?_table_expand_of_not_mem fun e' he' => hw ⟨e', he'⟩, Walk.trim,
          EdgeTable.get?_truncate, htable] at h
        -- a slot that is not written keeps its edge unless it is beyond the declarations
        split at h
        · next hcurrent =>
          refine .inr ⟨?_, h⟩
          intro st' d' hv'
          obtain ⟨-, rfl, rfl⟩ := hv.unique hv'
          exact ⟨hcurrent, fun e' he' => hw ⟨e', he'⟩⟩
        · simp at h
    · rintro (⟨st', d', hv', hw⟩ | ⟨hspares, hold⟩)
      · obtain ⟨-, rfl, rfl⟩ := hv.unique hv'
        exact get?_table_expand_of_mem hw _
      · obtain ⟨hcurrent, hnot⟩ := hspares st d hv
        rw [get?_table_expand_of_not_mem hnot, Walk.trim, EdgeTable.get?_truncate, if_pos hcurrent,
          htable, hold]
  · push Not at hvisits
    rw [get?_table_stage_succ_of_not_visits hvisits]
    constructor
    · exact fun h => .inr ⟨fun st d hv => absurd hv (hvisits st d), h⟩
    · rintro (⟨st, d, hv, -⟩ | ⟨-, h⟩)
      · exact absurd hv (hvisits st d)
      · exact h

/-- At every stage a slot holds the edge that was written into it last, unless it was dropped
since. -/
theorem get?_table_stage_iff : (s.stage n).table.get? k = some e ↔
    ∃ i, i < n ∧ s.Writes i k e ∧ ∀ j, i < j → j < n → s.Spares j k := by
  -- the last visit has written the slot, or it has spared what the visits before have left there
  induction n with
  | zero =>
    constructor
    · intro h
      simp [stage, run, Walk.start] at h
    · rintro ⟨i, hi, -⟩
      exact absurd hi (Nat.not_lt_zero i)
  | succ n ih =>
    rw [get?_table_stage_succ_iff, ih]
    constructor
    · rintro (hwrite | ⟨hspares, i, hi, hwrite, hsince⟩)
      · refine ⟨n, Nat.lt_succ_self n, hwrite, ?_⟩
        intro j hj hjn
        omega
      · refine ⟨i, Nat.lt_succ_of_lt hi, hwrite, ?_⟩
        intro j hj hjn
        rcases Nat.lt_succ_iff_lt_or_eq.1 hjn with hlt | rfl
        · exact hsince j hj hlt
        · exact hspares
    · rintro ⟨i, hi, hwrite, hsince⟩
      rcases Nat.lt_succ_iff_lt_or_eq.1 hi with hlt | rfl
      · exact .inr ⟨hsince n hlt (Nat.lt_succ_self n), i, hlt, hwrite,
          fun j hj hjn => hsince j hj (Nat.lt_succ_of_lt hjn)⟩
      · exact .inl hwrite

/-! ## Discovery -/

/-- A module that an expansion discovers is the target of a followed dependency. -/
theorem mem_order_expand {o : Origin} {d : Declarations} {w : Walk}
    (h : m ∈ (s.expand o d w).order) :
    m ∈ w.order ∨ ∃ rd ∈ s.followed o.state d.dependencies, rd.ruled.module = m := by
  revert h
  refine expand_induction (P := fun w' => m ∈ w'.order →
    m ∈ w.order ∨ ∃ rd ∈ s.followed o.state d.dependencies, rd.ruled.module = m)
    (fun _ _ hw => hw) ?_ .inl
  intro w' hw' rd hrd _ hmem
  rw [arriveAlong, Walk.arrive_order] at hmem
  split at hmem
  · exact hw' hmem
  · rcases List.mem_append.1 hmem with hold | hnew
    · exact hw' hold
    · obtain rfl := List.mem_singleton.1 hnew
      exact .inr ⟨rd, hrd, rfl⟩

/-- A module is reached because a dependency on it is recorded of the root or of a module that was
reached before. -/
theorem exists_links_of_mem_order (h : m ∈ (s.stage (n + 1)).order) (hnew : m ∉ (s.stage n).order) :
    ∃ a, (a = s.root ∨ a ∈ (s.stage n).order) ∧ (s.stage (n + 1)).Links false a m := by
  by_cases hvisits : ∃ a st d, s.Visits n a st d
  · obtain ⟨a, st, d, hv⟩ := hvisits
    obtain ⟨w, -, horder, -, hstage⟩ := hv.stage_succ
    have ha : a = s.root ∨ a ∈ (s.stage n).order := by
      by_cases hroot : a = s.root
      · exact .inl hroot
      · exact .inr ((invariant_stage s n).shape.mem_order.2 ⟨hroot, st, hv.node⟩)
    rw [hstage] at h ⊢
    rcases mem_order_expand h with hold | ⟨rd, hrd, rfl⟩
    · have hold : m ∈ w.order := hold
      rw [horder] at hold
      exact absurd hold hnew
    · have hwritten := mem_written_iff (o := s.origin a st).2 (.inl ⟨rd, hrd, rfl, rfl⟩)
      exact ⟨a, ha, _, _, get?_table_expand_of_mem hwritten _, rfl, rfl, rfl⟩
  · push Not at hvisits
    rw [(stage_succ_of_not_visits hvisits).2.1] at h
    exact absurd h hnew

/-! ## Variants that change -/

/-- A visit of a node at which something else is selected for it than when the walk ends. -/
structure Outdated (s : Situation) (n : Nat) (m : ModuleId) (st : NodeState) (d : Declarations) :
    Prop where
  visits : s.Visits n m st d
  before : n < s.visitBound
  differs : ∃ st', s.traverse.nodes.get? m = some st' ∧
    s.outcome? m st'.asks ≠ s.outcome? m st.asks

/-- Something else is selected for a node when the walk ends than at one of its visits. -/
def Reselected (s : Situation) (m : ModuleId) : Prop := ∃ i st d, s.Outdated i m st d

/-- The declarations of a selected node depend on its first request only. -/
theorem declarations_congr {asks asks' : List VariantRequest} (h : asks'.head? = asks.head?)
    (data : ModuleData) (node : SelectedNode) :
    declarations data node asks' = declarations data node asks := by
  unfold declarations hop
  rw [h]

/-- A grown node for which the same is selected declares the same. -/
theorem declared?_of_growsTo {st st' : NodeState} (hgrow : st.GrowsTo st') (hne : st.asks ≠ [])
    (hsame : s.outcome? m st'.asks = s.outcome? m st.asks) :
    s.declared? m st' = s.declared? m st := by
  have hhead := hgrow.head?_asks hne
  unfold declared?
  rw [hsame]
  split
  · rfl
  · split
    · next data node _ _ => exact congrArg some (declarations_congr hhead data node)
    · rfl

/-- A grown node that declares the same writes the same slots, to the same targets. -/
theorem exists_mem_written_of_growsTo {st st' : NodeState} (hgrow : st.GrowsTo st')
    {d : Declarations} (h : (k, e) ∈ s.written (s.origin m st) d) :
    ∃ e', (k, e') ∈ s.written (s.origin m st') d ∧ e'.target = e.target := by
  rcases mem_written_iff.1 h with ⟨rd, hrd, rfl, rfl⟩ | ⟨rc, hrc, hroot, rfl, rfl⟩
  · obtain ⟨hget, hout, hruled⟩ := mem_followed_iff.1 hrd
    have hout' : s.isLeftOut st' rd.declared = false := by
      rw [Bool.eq_false_iff] at hout ⊢
      exact fun hleft => hout (isLeftOut_of_growsTo hgrow hleft)
    have hrd' : rd ∈ s.followed (s.origin m st').state d.dependencies :=
      mem_followed_iff.2 ⟨hget, hout', hruled⟩
    exact ⟨_, mem_written_iff.2 (.inl ⟨rd, hrd', rfl, rfl⟩), rfl⟩
  · exact ⟨_, mem_written_iff.2 (.inr ⟨rc, hrc, hroot, rfl, rfl⟩), rfl⟩

/-- Unless a visit is outdated, the node declares the same when the walk ends. -/
theorem Visits.exists_declared? {i : Nat} (hi : i < s.visitBound) {st : NodeState}
    {d : Declarations} (hv : s.Visits i m st d) (hsame : ¬ s.Outdated i m st d) :
    ∃ st', s.traverse.nodes.get? m = some st' ∧ st.GrowsTo st' ∧ s.declared? m st' = some d := by
  obtain ⟨st', hst', hgrow⟩ := exists_growsTo_stage (Nat.le_of_lt hi) hv.node
  have hselected : s.outcome? m st'.asks = s.outcome? m st.asks :=
    Decidable.byContradiction fun hne => hsame ⟨hv, hi, st', hst', hne⟩
  have hne := ((invariant_stage s i).shape.nonempty hv.node).1
  have hd := declared?_of_growsTo hgrow hne hselected
  rw [hv.declared] at hd
  exact ⟨st', hst', hgrow, hd⟩

/-- Unless a visit is outdated, what it writes for the node the present declarations write as well
when the walk ends. -/
theorem Visits.exists_mem_written {i : Nat} (hi : i < s.visitBound) {st : NodeState}
    {d : Declarations} (hv : s.Visits i m st d) (hsame : ¬ s.Outdated i m st d)
    (hmem : (k, e) ∈ s.written (s.origin m st) d) :
    ∃ st', s.traverse.nodes.get? m = some st' ∧ s.declared? m st' = some d ∧
      ∃ e', (k, e') ∈ s.written (s.origin m st') d ∧ e'.target = e.target := by
  obtain ⟨st', hst', hgrow, hd⟩ := hv.exists_declared? hi hsame
  exact ⟨st', hst', hd, exists_mem_written_of_growsTo hgrow hmem⟩

end VariantGraph.Resolution.Situation
