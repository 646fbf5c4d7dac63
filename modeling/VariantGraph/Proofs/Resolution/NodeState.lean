import VariantGraph.Resolution.NodeState

/-!
# Node states along a walk

The state of a node changes only in one direction: it collects variant requests, and it loses
excluded modules and inherited constraints. What a path demanded of a node once, the node serves
from then on.

Main statements: `NodeState.growsTo_after` and `NodeState.serves_after` say what the arrival of a
path does to the state of a node, `NodeState.Serves.mono` that nothing served is lost.
-/

namespace VariantGraph.Resolution.NodeState

/-- A node had state `n` and has state `n'` after the arrival of some more paths. -/
structure GrowsTo (n n' : NodeState) : Prop where
  asks : n.asks <+: n'.asks
  inherited : ∀ {m c}, n'.inherited.get? m = some c → n.inherited.get? m = some c
  excludes : ∀ {m}, n'.excludes m → n.excludes m

theorem GrowsTo.refl (n : NodeState) : n.GrowsTo n := ⟨List.prefix_rfl, id, id⟩

theorem GrowsTo.trans {n₁ n₂ n₃ : NodeState} (h : n₁.GrowsTo n₂) (h' : n₂.GrowsTo n₃) :
    n₁.GrowsTo n₃ where
  asks := h.asks.trans h'.asks
  inherited hc := h.inherited (h'.inherited hc)
  excludes hm := h.excludes (h'.excludes hm)

/-- The first request never changes. -/
theorem GrowsTo.head?_asks {n n' : NodeState} (h : n.GrowsTo n') (hne : n.asks ≠ []) :
    n'.asks.head? = n.asks.head? := by
  obtain ⟨l, hl⟩ := h.asks
  obtain ⟨a, rest, ha⟩ := List.exists_cons_of_ne_nil hne
  rw [← hl, ha, List.cons_append, List.head?_cons, List.head?_cons]

theorem GrowsTo.inherited_eq_none {n n' : NodeState} (h : n.GrowsTo n') {m : ModuleId}
    (hm : n.inherited.get? m = none) : n'.inherited.get? m = none := by
  cases hc : n'.inherited.get? m with
  | none => rfl
  | some c =>
    have hold := h.inherited hc
    rw [hm] at hold
    cases hold

/-- What a path demands of a node is met by the state of the node: the path's request is among the
requests, no constraint is inherited that the path does not pass down, and no module is excluded
that some exclude set of the path lets through. -/
structure Serves (n : NodeState) (incoming : List ExcludeSet) (passedDown : Inherited)
    (ask : VariantRequest) : Prop where
  asked : ask ∈ n.asks
  inherited : ∀ {m c}, n.inherited.get? m = some c → passedDown.get? m = some c
  excludes : ∀ {m}, n.excludes m → incoming.all fun set => ExcludeSet.admits set m

theorem Serves.mono {n n' : NodeState} {incoming : List ExcludeSet} {passedDown : Inherited}
    {ask : VariantRequest} (hs : n.Serves incoming passedDown ask) (h : n.GrowsTo n') :
    n'.Serves incoming passedDown ask where
  asked := h.asks.subset hs.asked
  inherited hc := hs.inherited (h.inherited hc)
  excludes hm := hs.excludes (h.excludes hm)

/-! ## The arrival of a path -/

/-- The state of a node after the arrival of a path, given its state before if it had one. -/
def after (old : Option NodeState) (incoming : List ExcludeSet) (passedDown : Inherited)
    (ask : VariantRequest) : NodeState :=
  match old with
  | some n => (n.ask ask).merge incoming passedDown
  | none => ⟨normalize incoming, passedDown, [ask]⟩

variable {incoming : List ExcludeSet} {passedDown : Inherited} {ask : VariantRequest}

@[simp] theorem asks_merge (n : NodeState) (incoming : List ExcludeSet)
    (passedDown : Inherited) : (n.merge incoming passedDown).asks = n.asks := rfl

@[simp] theorem inherited_ask (n : NodeState) (r : VariantRequest) :
    (n.ask r).inherited = n.inherited := by
  unfold NodeState.ask
  split <;> rfl

@[simp] theorem excludeSets_ask (n : NodeState) (r : VariantRequest) :
    (n.ask r).excludeSets = n.excludeSets := by
  unfold NodeState.ask
  split <;> rfl

theorem asks_ask (n : NodeState) (r : VariantRequest) :
    (n.ask r).asks = if r ∈ n.asks then n.asks else n.asks ++ [r] := by
  unfold NodeState.ask
  by_cases h : r ∈ n.asks
  · rw [if_pos (List.contains_iff_mem.2 h), if_pos h]
  · rw [if_neg (by simpa using h), if_neg h]

theorem mem_asks_ask (n : NodeState) (r : VariantRequest) : r ∈ (n.ask r).asks := by
  rw [asks_ask]
  split
  · assumption
  · simp

theorem ask_eq_self_iff {n : NodeState} {r : VariantRequest} : n.ask r = n ↔ r ∈ n.asks := by
  constructor
  · intro h
    rw [← h]
    exact mem_asks_ask n r
  · intro h
    unfold NodeState.ask
    rw [if_pos (List.contains_iff_mem.2 h)]

theorem growsTo_ask (n : NodeState) (r : VariantRequest) : n.GrowsTo (n.ask r) where
  asks := by
    rw [asks_ask]
    split
    · exact List.prefix_rfl
    · exact List.prefix_append _ _
  inherited := by simp
  excludes {m} hm := by simpa [NodeState.excludes] using hm

theorem inherited_merge_iff {n : NodeState} {m : ModuleId} {c : VersionConstraint} :
    (n.merge incoming passedDown).inherited.get? m = some c ↔
      n.inherited.get? m = some c ∧ passedDown.get? m = some c := by
  rw [get?_inherited_merge, Option.filter_eq_some_iff, beq_iff_eq]

theorem growsTo_merge (n : NodeState) : n.GrowsTo (n.merge incoming passedDown) where
  asks := List.prefix_rfl
  inherited hc := (inherited_merge_iff.1 hc).1
  excludes {m} hm := by
    rw [excludes_merge, Bool.and_eq_true] at hm
    exact hm.1

theorem growsTo_after (n : NodeState) : n.GrowsTo (after (some n) incoming passedDown ask) :=
  (growsTo_ask n ask).trans (growsTo_merge _)

/-- After the arrival of a path a node inherits what the path passes down and it inherited before. -/
theorem get?_inherited_after {old : Option NodeState} {m : ModuleId} {c : VersionConstraint} :
    (after old incoming passedDown ask).inherited.get? m = some c ↔
      (∀ n, old = some n → n.inherited.get? m = some c) ∧ passedDown.get? m = some c := by
  cases old with
  | none => simp [after]
  | some n =>
    rw [after, inherited_merge_iff, inherited_ask]
    simp

/-- After the arrival of a path a node excludes what it excluded before and all sets of the path
exclude. -/
theorem excludes_after {old : Option NodeState} (hne : incoming ≠ []) {m : ModuleId} :
    (after old incoming passedDown ask).excludes m = true ↔
      (∀ n, old = some n → n.excludes m = true) ∧
        (incoming.all fun set => ExcludeSet.admits set m) = true := by
  cases old with
  | none =>
    have hnew : (after none incoming passedDown ask).excludes m
        = incoming.all fun set => ExcludeSet.admits set m := excludes_normalize hne m
    rw [hnew]
    simp
  | some n =>
    have hasked : (n.ask ask).excludes m = n.excludes m := by
      rw [NodeState.excludes, excludeSets_ask, NodeState.excludes]
    rw [after, excludes_merge, hasked, Bool.and_eq_true]
    simp

/-- After its arrival a path is served. -/
theorem serves_after (old : Option NodeState) (hne : incoming ≠ []) :
    (after old incoming passedDown ask).Serves incoming passedDown ask := by
  refine ⟨?_, fun hc => (get?_inherited_after.1 hc).2, fun hm => ((excludes_after hne).1 hm).2⟩
  cases old with
  | none => exact List.mem_singleton_self ask
  | some n => exact mem_asks_ask n ask

theorem asks_after_ne_nil (old : Option NodeState) :
    (after old incoming passedDown ask).asks ≠ [] := by
  cases old with
  | none => simp [after]
  | some n => exact List.ne_nil_of_mem (mem_asks_ask n ask)

theorem excludeSets_merge_ne_nil {n : NodeState} (h : n.excludeSets ≠ []) :
    (n.merge incoming passedDown).excludeSets ≠ [] := by
  have hfold : ∀ (l sets : List ExcludeSet), sets ≠ [] → l.foldl addSet sets ≠ [] := by
    intro l
    induction l with
    | nil => exact fun _ hs => hs
    | cons a rest ih =>
      intro sets hs
      refine ih _ ?_
      unfold addSet
      split
      · exact hs
      · simp
  show mergeSets n.excludeSets incoming ≠ []
  unfold mergeSets
  split
  · exact h
  · split
    · simp
    · exact hfold _ _ h

theorem normalize_ne_nil (sets : List ExcludeSet) : normalize sets ≠ [] := by
  unfold normalize
  split
  · simp
  · next h =>
    cases sets with
    | nil => simp at h
    | cons a rest =>
      exact List.ne_nil_of_mem (OrderedSet.mem_elements_ofElements.2 (List.mem_cons_self (a := a)))

theorem excludeSets_after_ne_nil {old : Option NodeState}
    (h : ∀ n ∈ old, n.excludeSets ≠ []) :
    (after old incoming passedDown ask).excludeSets ≠ [] := by
  cases old with
  | none => exact normalize_ne_nil _
  | some n =>
    refine excludeSets_merge_ne_nil ?_
    rw [excludeSets_ask]
    exact h n rfl

end VariantGraph.Resolution.NodeState
