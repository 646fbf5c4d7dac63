import VariantGraph.Resolution.EdgeTable

/-!
# The edge of a slot

The operations on the edges of a pass through look-up by slot: recording sets one slot and leaves the
others, truncating empties the slots beyond the declarations of one node. Positions are the means:
when edges are dropped, the positions behind them shift by the number of dropped ones before each.

Main statements: `EdgeTable.get?_record`, `EdgeTable.get?_truncate` and, for all edges of one visit,
`EdgeTable.get?_recordAll_of_mem`.
-/

namespace VariantGraph.Resolution.EdgeTable

variable {t : EdgeTable} {m : ModuleId} {d c i j : Nat} {s k : Slot} {e : Edge}

/-! ## Positions -/

/-- A position holds an edge. -/
theorem exists_edge (h : t.positions.get? k = some i) : ∃ e, t.edges[i]? = some e :=
  ⟨_, List.getElem?_eq_getElem (t.numbering.lt h)⟩

theorem get?_eq_some_iff :
    t.get? k = some e ↔ ∃ i, t.positions.get? k = some i ∧ t.edges[i]? = some e :=
  Option.bind_eq_some_iff

theorem get?_of_position (h : t.positions.get? k = some i) : t.get? k = t.edges[i]? := by
  rw [get?, h, Option.bind_some]

theorem get?_eq_none_iff : t.get? k = none ↔ t.positions.get? k = none := by
  constructor
  · intro h
    cases hk : t.positions.get? k with
    | none => rfl
    | some i =>
      obtain ⟨e, he⟩ := exists_edge hk
      rw [get?_of_position hk, he] at h
      cases h
  · intro h
    rw [get?, h, Option.bind_none]

/-! ## Recording -/

theorem record_of_position (h : t.positions.get? s = some i) (e : Edge) :
    (t.record s e).positions = t.positions ∧ (t.record s e).edges = t.edges.set i e := by
  unfold record
  split
  · next j hj =>
    obtain rfl : j = i := Option.some.inj (hj.symm.trans h)
    exact ⟨rfl, rfl⟩
  · next hnone =>
    rw [h] at hnone
    cases hnone

theorem record_of_new (h : t.positions.get? s = none) (e : Edge) :
    (t.record s e).positions = t.positions.insert s t.edges.length ∧
      (t.record s e).edges = t.edges ++ [e] := by
  unfold record
  split
  · next j hj =>
    rw [h] at hj
    cases hj
  · exact ⟨rfl, rfl⟩

@[simp] theorem get?_empty (k : Slot) : empty.get? k = none := rfl

theorem get?_record (t : EdgeTable) (s k : Slot) (e : Edge) :
    (t.record s e).get? k = if k = s then some e else t.get? k := by
  cases hs : t.positions.get? s with
  | some i =>
    obtain ⟨hpositions, hedges⟩ := record_of_position hs e
    rw [get?, hpositions, hedges]
    by_cases hk : k = s
    · subst hk
      rw [if_pos rfl, hs, Option.bind_some, List.getElem?_set_self (t.numbering.lt hs)]
    · rw [if_neg hk]
      cases hj : t.positions.get? k with
      | none => rw [get?, hj, Option.bind_none, Option.bind_none]
      | some j =>
        have hne : i ≠ j := by
          rintro rfl
          exact hk (t.numbering.injective hj hs)
        rw [get?_of_position hj, Option.bind_some, List.getElem?_set_ne hne]
  | none =>
    obtain ⟨hpositions, hedges⟩ := record_of_new hs e
    rw [get?, hpositions, hedges, Table.get?_insert]
    by_cases hk : k = s
    · rw [if_pos hk, if_pos hk, Option.bind_some, List.getElem?_concat_length]
    · rw [if_neg hk, if_neg hk]
      cases hj : t.positions.get? k with
      | none => rw [get?, hj, Option.bind_none, Option.bind_none]
      | some j =>
        rw [get?_of_position hj, Option.bind_some,
          List.getElem?_append_left (t.numbering.lt hj)]

/-! ## Truncating -/

theorem mem_stale_iff : i ∈ (t.stale m d c).elements ↔
    ∃ k, t.positions.get? k = some i ∧ isCurrent m d c k = false := by
  rw [stale, OrderedSet.mem_elements_ofElements, Table.values, List.mem_map]
  constructor
  · rintro ⟨⟨k, j⟩, hentry, rfl⟩
    have hk := Table.mem_toList_iff.1 hentry
    rw [Table.get?_filter, Option.filter_eq_some_iff, Bool.not_eq_true'] at hk
    exact ⟨k, hk⟩
  · rintro ⟨k, hk⟩
    refine ⟨(k, i), Table.mem_toList_iff.2 ?_, rfl⟩
    rw [Table.get?_filter, Option.filter_eq_some_iff, Bool.not_eq_true']
    exact hk

/-- A position is stale when its slot is no longer current. -/
theorem contains_stale (h : t.positions.get? k = some i) :
    Table.contains (t.stale m d c) i = !isCurrent m d c k := by
  rw [Bool.eq_iff_iff, ← mem_elements_iff_contains, mem_stale_iff, Bool.not_eq_true']
  constructor
  · rintro ⟨k', hk', hstale⟩
    rwa [t.numbering.injective h hk']
  · intro hstale
    exact ⟨k, h, hstale⟩

theorem contains_of_isEmpty {dropped : OrderedSet Nat} (h : Table.isEmpty dropped = true)
    (i : Nat) : Table.contains dropped i = false := by
  obtain ⟨entries, _⟩ := dropped
  obtain rfl : entries = [] := List.isEmpty_iff.1 h
  rfl

theorem shifted_of_isEmpty {dropped : OrderedSet Nat} (h : Table.isEmpty dropped = true) :
    shifted dropped i = i := by
  obtain ⟨entries, _⟩ := dropped
  obtain rfl : entries = [] := List.isEmpty_iff.1 h
  rfl

/-- Dropping nothing changes nothing. -/
theorem drop_of_isEmpty {dropped : OrderedSet Nat} (h : Table.isEmpty dropped = true) :
    t.drop dropped = t := by
  have hpositions : (t.drop dropped).positions = t.positions := by
    refine Table.ext_get? fun k => ?_
    rw [drop, Table.get?_mapValues, Table.get?_filter]
    cases t.positions.get? k with
    | none => rfl
    | some i => simp [contains_of_isEmpty h, shifted_of_isEmpty h]
  have hedges : (t.drop dropped).edges = t.edges := by
    show dropPositions dropped t.edges = t.edges
    rw [dropPositions, List.filter_eq_self.2 fun e _ => by simp [contains_of_isEmpty h]]
    exact List.zipIdx_map_fst 0 t.edges
  obtain ⟨positions, edges, numbering⟩ := t
  simp only at hpositions hedges
  simp only [drop] at hpositions hedges ⊢
  congr 1

theorem truncate_eq_drop (t : EdgeTable) (m : ModuleId) (d c : Nat) :
    t.truncate m d c = t.drop (t.stale m d c) := by
  unfold truncate
  dsimp only
  split
  · next h => exact (drop_of_isEmpty h).symm
  · rfl

theorem positions_truncate_iff : (t.truncate m d c).positions.get? k = some j ↔
    ∃ i, t.positions.get? k = some i ∧ isCurrent m d c k = true ∧
      shifted (t.stale m d c) i = j := by
  rw [truncate_eq_drop, drop, Numbers.get?_dropped_iff]
  refine exists_congr fun i => and_congr_right fun hi => ?_
  rw [contains_stale hi, Bool.not_eq_false']

/-- A current slot keeps its edge at its new position. -/
theorem getElem?_truncate (h : t.positions.get? k = some i) (hk : isCurrent m d c k = true) :
    (t.truncate m d c).edges[shifted (t.stale m d c) i]? = t.edges[i]? := by
  obtain ⟨e, he⟩ := exists_edge h
  rw [truncate_eq_drop, he]
  exact getElem?_dropPositions he (by rw [contains_stale h, hk, Bool.not_true])

theorem get?_truncate (t : EdgeTable) (m : ModuleId) (d c : Nat) (k : Slot) :
    (t.truncate m d c).get? k = if isCurrent m d c k then t.get? k else none := by
  by_cases hk : isCurrent m d c k = true
  · rw [if_pos hk]
    cases hi : t.positions.get? k with
    | none =>
      rw [get?_eq_none_iff.2 hi, get?_eq_none_iff, Option.eq_none_iff_forall_not_mem]
      intro j hj
      obtain ⟨i, hi', -⟩ := positions_truncate_iff.1 hj
      rw [hi] at hi'
      cases hi'
    | some i =>
      have hposition := positions_truncate_iff.2 ⟨i, hi, hk, rfl⟩
      rw [get?_of_position hposition, getElem?_truncate hi hk, get?_of_position hi]
  · rw [if_neg hk, get?_eq_none_iff, Option.eq_none_iff_forall_not_mem]
    intro j hj
    obtain ⟨i, -, hcurrent, -⟩ := positions_truncate_iff.1 hj
    exact hk hcurrent

/-! ## All edges -/

theorem mem_edges_of_get? (h : t.get? k = some e) : e ∈ t.edges := by
  obtain ⟨i, -, he⟩ := get?_eq_some_iff.1 h
  exact List.mem_of_getElem? he

/-- Every edge is the edge of a slot. -/
theorem mem_edges_iff : e ∈ t.edges ↔ ∃ k, t.get? k = some e := by
  constructor
  · intro he
    obtain ⟨i, hi⟩ := List.mem_iff_getElem?.1 he
    obtain ⟨hlt, -⟩ := List.getElem?_eq_some_iff.1 hi
    obtain ⟨k, hk⟩ := t.numbering.exists_key hlt
    exact ⟨k, get?_eq_some_iff.2 ⟨i, hk, hi⟩⟩
  · rintro ⟨k, hk⟩
    exact mem_edges_of_get? hk

/-- Truncating for a node that has no slots changes nothing. -/
theorem truncate_eq_self (h : ∀ {k e}, t.get? k = some e → k.source ≠ m) (d c : Nat) :
    t.truncate m d c = t := by
  have hnone : Table.isEmpty (t.stale m d c) = true := by
    have helements : (t.stale m d c).elements = [] := by
      refine List.eq_nil_iff_forall_not_mem.2 fun i hi => ?_
      obtain ⟨k, hk, hstale⟩ := mem_stale_iff.1 hi
      obtain ⟨e, he⟩ := exists_edge hk
      have hne := h (get?_eq_some_iff.2 ⟨i, hk, he⟩)
      simp [isCurrent, hne] at hstale
    rw [Table.isEmpty, OrderedSet.entries_eq_map_elements, helements]
    rfl
  rw [truncate, if_pos hnone]

/-! ## Recording several edges -/

/-- Writes several edges into their slots. -/
def recordAll (t : EdgeTable) (l : List (Slot × Edge)) : EdgeTable :=
  l.foldl (fun t r => t.record r.1 r.2) t

theorem recordAll_append (t : EdgeTable) (l l' : List (Slot × Edge)) :
    t.recordAll (l ++ l') = (t.recordAll l).recordAll l' := List.foldl_append

theorem get?_recordAll_of_not_mem {l : List (Slot × Edge)} {k : Slot}
    (h : ∀ e, (k, e) ∉ l) (t : EdgeTable) : (t.recordAll l).get? k = t.get? k := by
  unfold recordAll
  induction l generalizing t with
  | nil => rfl
  | cons r rest ih =>
    have hne : ¬ k = r.1 := by
      rintro rfl
      exact h r.2 List.mem_cons_self
    rw [List.foldl_cons, ih fun e he => h e (List.mem_cons_of_mem _ he), get?_record, if_neg hne]

theorem get?_recordAll_of_mem {l : List (Slot × Edge)} (hnd : (l.map (·.1)).Nodup) {k : Slot}
    {e : Edge} (h : (k, e) ∈ l) (t : EdgeTable) : (t.recordAll l).get? k = some e := by
  unfold recordAll
  induction l generalizing t with
  | nil => simp at h
  | cons r rest ih =>
    obtain ⟨hfirst, hrest⟩ := List.nodup_cons.1 hnd
    rcases List.mem_cons.1 h with rfl | hmem
    · have hnot : ∀ e', (k, e') ∉ rest := fun e' he' =>
        hfirst (List.mem_map.2 ⟨(k, e'), he', rfl⟩)
      have hlast := get?_recordAll_of_not_mem hnot (t.record k e)
      rw [get?_record, if_pos rfl] at hlast
      exact hlast
    · exact ih hrest hmem (t.record r.1 r.2)

end VariantGraph.Resolution.EdgeTable
