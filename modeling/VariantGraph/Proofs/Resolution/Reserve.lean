import VariantGraph.Proofs.Resolution.Merging

/-!
# What the state of a node can still take

When variant requests, exclude rules and constrained modules are drawn from given lists, the state
of a node changes only so often: each change adds a request or an exclude set, or gives up the
exclude sets or an inherited constraint. The reserve of a state counts the changes that are left.

Main statements: `NodeState.reserve_after_lt` says that a change uses up reserve,
`NodeState.reserve_after_none_le` bounds the reserve of a node that is discovered.
-/

namespace VariantGraph.Resolution

theorem elements_empty : OrderedSet.elements (Table.empty : ExcludeSet) = [] := rfl

/-! ## States over given lists -/

/-- What states of nodes are made of: variant requests, exclude rules and constrained modules. -/
structure Stock where
  asks : List VariantRequest
  rules : List ExcludeRule
  constrained : List ModuleId

namespace Stock

/-- The changes that a node can go through when it has just been discovered. -/
def size (l : Stock) : Nat := 2 ^ l.rules.length + l.asks.length + l.constrained.length

end Stock

namespace NodeState

/-- A state is made from a stock, and nothing is held twice. -/
structure Within (n : NodeState) (l : Stock) : Prop where
  asks : ∀ r ∈ n.asks, r ∈ l.asks
  nodup : n.asks.Nodup
  rules : ∀ set ∈ n.excludeSets, ∀ r ∈ OrderedSet.elements set, r ∈ l.rules
  nodupSets : n.excludeSets.Nodup
  constrained : ∀ m ∈ n.inherited.keys, m ∈ l.constrained

/-- The exclude sets that can still be added to some sets. A path that excludes nothing ends it. -/
def setReserve (l : Stock) (sets : List ExcludeSet) : Nat :=
  if sets.any Table.isEmpty then 0 else 2 ^ l.rules.length + 1 - sets.length

/-- The changes that are left to a state. -/
def reserve (l : Stock) (n : NodeState) : Nat :=
  setReserve l n.excludeSets + (l.asks.length - n.asks.length) + n.inherited.size

variable {l : Stock} {incoming : List ExcludeSet} {passedDown : Inherited} {ask : VariantRequest}

theorem within_ask {n : NodeState} (h : n.Within l) (hr : ask ∈ l.asks) :
    (n.ask ask).Within l where
  asks r hmem := by
    rw [asks_ask] at hmem
    split at hmem
    · exact h.asks r hmem
    · rcases List.mem_append.1 hmem with hold | hnew
      · exact h.asks r hold
      · rwa [List.mem_singleton.1 hnew]
  nodup := by
    rw [asks_ask]
    split
    · exact h.nodup
    · next hnot =>
      rw [List.nodup_append]
      refine ⟨h.nodup, List.nodup_singleton ask, ?_⟩
      rintro x hx y hy rfl
      obtain rfl := List.mem_singleton.1 hy
      exact hnot hx
  rules := by
    rw [excludeSets_ask]
    exact h.rules
  nodupSets := by
    rw [excludeSets_ask]
    exact h.nodupSets
  constrained := by
    rw [inherited_ask]
    exact h.constrained

theorem within_merge {n : NodeState} (h : n.Within l)
    (hin : ∀ set ∈ incoming, ∀ r ∈ OrderedSet.elements set, r ∈ l.rules) :
    (n.merge incoming passedDown).Within l where
  asks := h.asks
  nodup := h.nodup
  rules set hmem r hr := by
    rcases mem_mergeSets hmem with rfl | hnew | hold
    · rw [elements_empty] at hr
      exact absurd hr List.not_mem_nil
    · exact hin set hnew r hr
    · exact h.rules set hold r hr
  nodupSets := nodup_mergeSets h.nodupSets incoming
  constrained m hm := by
    obtain ⟨c, hc⟩ := Table.mem_keys_iff.1 hm
    exact h.constrained m (Table.mem_keys_iff.2 ⟨c, (growsTo_merge n).inherited hc⟩)

/-- States stay within the stock that paths draw from. -/
theorem within_after {old : Option NodeState} (h : ∀ n ∈ old, n.Within l)
    (hin : ∀ set ∈ incoming, ∀ r ∈ OrderedSet.elements set, r ∈ l.rules)
    (hpass : ∀ m ∈ passedDown.keys, m ∈ l.constrained) (hask : ask ∈ l.asks) :
    (after old incoming passedDown ask).Within l := by
  cases old with
  | some n => exact within_merge (within_ask (h n rfl) hask) hin
  | none =>
    refine ⟨?_, List.nodup_singleton ask, ?_, nodup_normalize incoming, hpass⟩
    · intro r hr
      rwa [List.mem_singleton.1 hr]
    · intro set hmem r hr
      rcases mem_normalize hmem with rfl | hold
      · rw [elements_empty] at hr
        exact absurd hr List.not_mem_nil
      · exact hin set hold r hr

/-! ## Using up reserve -/

theorem Within.length_asks_le {n : NodeState} (h : n.Within l) : n.asks.length ≤ l.asks.length :=
  (List.subperm_of_subset h.nodup h.asks).length_le

theorem Within.length_excludeSets_le {n : NodeState} (h : n.Within l) :
    n.excludeSets.length ≤ 2 ^ l.rules.length :=
  OrderedSet.length_le_two_pow h.nodupSets h.rules

theorem Within.size_inherited_le {n : NodeState} (h : n.Within l) :
    n.inherited.size ≤ l.constrained.length :=
  Table.size_le_of_keys_subset h.constrained

/-- Another request uses up reserve unless it is known already. -/
theorem reserve_ask_lt {n : NodeState} (h : (n.ask ask).Within l) (hne : n.ask ask ≠ n) :
    (n.ask ask).reserve l < n.reserve l := by
  have hnot : ask ∉ n.asks := fun hmem => hne (ask_eq_self_iff.2 hmem)
  have hlen : (n.ask ask).asks.length = n.asks.length + 1 := by
    rw [asks_ask, if_neg hnot, List.length_append, List.length_singleton]
  have hle := h.length_asks_le
  unfold reserve
  rw [excludeSets_ask, inherited_ask, hlen]
  omega

/-- Merging exclude sets uses up reserve unless it changes nothing. -/
theorem setReserve_mergeSets_lt {sets : List ExcludeSet}
    (hle : (mergeSets sets incoming).length ≤ 2 ^ l.rules.length)
    (hle' : sets.length ≤ 2 ^ l.rules.length) (hne : mergeSets sets incoming ≠ sets) :
    setReserve l (mergeSets sets incoming) < setReserve l sets := by
  unfold mergeSets at hne hle ⊢
  by_cases hold : sets.any Table.isEmpty
  · rw [if_pos hold] at hne
    exact absurd rfl hne
  · rw [if_neg hold] at hne hle ⊢
    have hold' : setReserve l sets = 2 ^ l.rules.length + 1 - sets.length := by
      rw [setReserve, if_neg hold]
    rw [hold']
    by_cases hempty : incoming.any Table.isEmpty
    · -- a path that excludes nothing
      rw [if_pos hempty, setReserve, if_pos (by simp [Table.isEmpty, Table.empty])]
      omega
    · rw [if_neg hempty] at hne hle ⊢
      have hpre := prefix_foldl_addSet sets incoming
      have hlt : sets.length < (incoming.foldl addSet sets).length := by
        refine lt_of_le_of_ne hpre.length_le ?_
        intro heq
        exact hne (hpre.eq_of_length heq).symm
      unfold setReserve
      split
      · omega
      · omega

/-- Merging a path uses up reserve unless it changes nothing. -/
theorem reserve_merge_lt {n : NodeState} (h : n.Within l)
    (h' : (n.merge incoming passedDown).Within l) (hne : n.merge incoming passedDown ≠ n) :
    (n.merge incoming passedDown).reserve l < n.reserve l := by
  have hsize : (n.merge incoming passedDown).inherited.size ≤ n.inherited.size :=
    Table.size_filter_le _ _
  have hsets : mergeSets n.excludeSets incoming ≠ n.excludeSets →
      setReserve l (mergeSets n.excludeSets incoming) < setReserve l n.excludeSets :=
    setReserve_mergeSets_lt h'.length_excludeSets_le h.length_excludeSets_le
  have hexcludeSets : (n.merge incoming passedDown).excludeSets
      = mergeSets n.excludeSets incoming := rfl
  unfold reserve
  rw [hexcludeSets, asks_merge]
  by_cases heq : mergeSets n.excludeSets incoming = n.excludeSets
  · -- an inherited constraint was given up
    have hlt : (n.merge incoming passedDown).inherited.size < n.inherited.size := by
      refine lt_of_not_ge ?_
      intro hge
      refine hne ?_
      have hinherited := Table.filter_eq_self_of_size hge
      unfold NodeState.merge
      rw [heq, hinherited]
    rw [heq]
    omega
  · have hlt := hsets heq
    omega

/-- Whatever an arriving path changes uses up reserve. -/
theorem reserve_after_lt {n : NodeState} (h : n.Within l)
    (hin : ∀ set ∈ incoming, ∀ r ∈ OrderedSet.elements set, r ∈ l.rules) (hask : ask ∈ l.asks)
    (hne : after (some n) incoming passedDown ask ≠ n) :
    (after (some n) incoming passedDown ask).reserve l < n.reserve l := by
  have hafter : after (some n) incoming passedDown ask = (n.ask ask).merge incoming passedDown := rfl
  have hasked := within_ask h hask
  rw [hafter] at hne ⊢
  by_cases hnew : n.ask ask = n
  · rw [hnew] at hne ⊢
    exact reserve_merge_lt h (within_merge h hin) hne
  · have hlt := reserve_ask_lt hasked hnew
    by_cases heq : (n.ask ask).merge incoming passedDown = n.ask ask
    · rwa [heq]
    · exact (reserve_merge_lt hasked (within_merge hasked hin) heq).trans hlt

/-- The reserve of a node that is discovered. -/
theorem reserve_after_none_le (h : (after none incoming passedDown ask).Within l) :
    (after none incoming passedDown ask).reserve l ≤ l.size := by
  have hsize := h.size_inherited_le
  have hpos : 0 < (after none incoming passedDown ask).excludeSets.length :=
    List.length_pos_of_ne_nil (normalize_ne_nil incoming)
  have hsets : setReserve l (after none incoming passedDown ask).excludeSets ≤ 2 ^ l.rules.length := by
    have hpow := Nat.two_pow_pos l.rules.length
    unfold setReserve
    split
    · exact Nat.zero_le _
    · omega
  unfold reserve Stock.size
  omega

end NodeState

end VariantGraph.Resolution
