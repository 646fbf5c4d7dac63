import VariantGraph.Table

/-!
# Positions in a list

The entries of a list are found by key when a table holds the position of each key. Dropping some
positions from the list moves every other entry to the front by the number of dropped positions
before it, and the table has to follow.

Main statements: `Numbers.concat` and `Numbers.drop` say that the table keeps up with the list,
`getElem?_dropPositions` where an entry is found that has moved.
-/

namespace VariantGraph.Resolution

/-- The positions below `n` belong to keys, each to one. -/
structure Numbers {κ : Type} [Ord κ] (positions : Table κ Nat) (n : Nat) : Prop where
  lt : ∀ {k i}, positions.get? k = some i → i < n
  exists_key : ∀ {i}, i < n → ∃ k, positions.get? k = some i
  injective : ∀ {k k' i}, positions.get? k = some i → positions.get? k' = some i → k = k'

/-- A list without the entries at some positions. -/
def dropPositions {α : Type} (dropped : OrderedSet Nat) (l : List α) : List α :=
  (l.zipIdx.filter fun e => !Table.contains dropped e.2).map (·.1)

/-- The position of an entry when those at some other positions are dropped. -/
def shifted (dropped : OrderedSet Nat) (i : Nat) : Nat :=
  i - (dropped.elements.filter fun j => decide (j < i)).length

/-! ## Where entries are found -/

section Shifted

variable {dropped : OrderedSet Nat} {n i : Nat}

/-- The positions that stay, in their order. -/
def kept (dropped : OrderedSet Nat) (n : Nat) : List Nat :=
  (List.range n).filter fun i => !Table.contains dropped i

theorem mem_kept : i ∈ kept dropped n ↔ i < n ∧ Table.contains dropped i = false := by
  rw [kept, List.mem_filter, List.mem_range, Bool.not_eq_true']

theorem nodup_kept : (kept dropped n).Nodup := List.nodup_range.filter _

theorem mem_elements_iff_contains : i ∈ dropped.elements ↔ Table.contains dropped i = true := by
  rw [OrderedSet.mem_elements_iff, Table.contains, Option.isSome_iff_exists]
  exact ⟨fun h => ⟨(), h⟩, fun ⟨_, h⟩ => h⟩

/-- The positions before an entry are those that are dropped and those that stay. -/
theorem length_dropped_add_length_kept (dropped : OrderedSet Nat) (i : Nat) :
    (dropped.elements.filter fun j => decide (j < i)).length + (kept dropped i).length = i := by
  have hbefore : (dropped.elements.filter fun j => decide (j < i)).length
      = ((List.range i).filter fun j => Table.contains dropped j).length := by
    refine List.Perm.length_eq ((List.perm_ext_iff_of_nodup ?_ ?_).2 fun j => ?_)
    · exact (Table.nodup_keys dropped).filter _
    · exact List.nodup_range.filter _
    · rw [List.mem_filter, List.mem_filter, mem_elements_iff_contains, List.mem_range,
        decide_eq_true_eq, and_comm]
  have hkept : ((List.range i).filter fun j => decide ¬ Table.contains dropped j = true)
      = kept dropped i := by
    refine List.filter_congr fun j _ => ?_
    cases Table.contains dropped j <;> rfl
  have hsum := List.length_eq_countP_add_countP (fun j => Table.contains dropped j)
    (l := List.range i)
  rw [List.length_range, List.countP_eq_length_filter, List.countP_eq_length_filter, hkept] at hsum
  rw [hbefore]
  exact hsum.symm

/-- An entry moves to the number of entries before it that stay. -/
theorem shifted_eq : shifted dropped i = (kept dropped i).length := by
  have hsum := length_dropped_add_length_kept dropped i
  rw [shifted]
  omega

theorem getElem?_kept (hi : i < n) (hstays : Table.contains dropped i = false) :
    (kept dropped n)[shifted dropped i]? = some i := by
  rw [shifted_eq]
  induction n with
  | zero => exact absurd hi (Nat.not_lt_zero i)
  | succ n ih =>
    have hsplit : kept dropped (n + 1)
        = kept dropped n ++ if Table.contains dropped n then [] else [n] := by
      rw [kept, List.range_succ, List.filter_append]
      cases hn : Table.contains dropped n <;> simp [kept, hn]
    rw [hsplit]
    rcases Nat.lt_succ_iff_lt_or_eq.1 hi with hlt | rfl
    · have hfound := ih hlt
      obtain ⟨hlength, -⟩ := List.getElem?_eq_some_iff.1 hfound
      rw [List.getElem?_append_left hlength, hfound]
    · rw [hstays, if_neg Bool.false_ne_true]
      exact List.getElem?_concat_length

theorem shifted_lt (hi : i < n) (hstays : Table.contains dropped i = false) :
    shifted dropped i < (kept dropped n).length :=
  (List.getElem?_eq_some_iff.1 (getElem?_kept hi hstays)).1

/-- Positions that stay keep their order. -/
theorem shifted_lt_shifted {j : Nat} (hi : Table.contains dropped i = false) (hlt : i < j) :
    shifted dropped i < shifted dropped j := by
  rw [shifted_eq (i := j)]
  exact shifted_lt hlt hi

variable {α : Type} {l : List α} {a : α}

theorem map_snd_filter_zipIdx (dropped : OrderedSet Nat) (l : List α) :
    (l.zipIdx.filter fun e => !Table.contains dropped e.2).map (·.2) = kept dropped l.length := by
  have hrange : l.zipIdx.map (·.2) = List.range l.length := by
    rw [List.zipIdx_map_snd, List.range_eq_range']
  rw [kept, ← hrange, List.filter_map]
  rfl

theorem length_dropPositions (dropped : OrderedSet Nat) (l : List α) :
    (dropPositions dropped l).length = (kept dropped l.length).length := by
  rw [← map_snd_filter_zipIdx, dropPositions, List.length_map, List.length_map]

/-- An entry that stays is found at its new position. -/
theorem getElem?_dropPositions (h : l[i]? = some a) (hstays : Table.contains dropped i = false) :
    (dropPositions dropped l)[shifted dropped i]? = some a := by
  obtain ⟨hi, -⟩ := List.getElem?_eq_some_iff.1 h
  have hkept := getElem?_kept hi hstays
  rw [← map_snd_filter_zipIdx, List.getElem?_map, Option.map_eq_some_iff] at hkept
  obtain ⟨⟨b, j⟩, hentry, hj⟩ := hkept
  obtain rfl : j = i := hj
  have hmem := (List.mem_filter.1 (List.mem_of_getElem? hentry)).1
  rw [List.mem_zipIdx_iff_getElem?] at hmem
  obtain rfl : b = a := Option.some.inj (hmem.symm.trans h)
  rw [dropPositions, List.getElem?_map, hentry]
  rfl

end Shifted

/-! ## Tables of positions -/

namespace Numbers

theorem empty {κ : Type} [Ord κ] : Numbers (Table.empty : Table κ Nat) 0 where
  lt h := by simp at h
  exists_key h := absurd h (Nat.not_lt_zero _)
  injective h := by simp at h

variable {κ : Type} [Ord κ] [Std.TransOrd κ] [Std.LawfulEqOrd κ] {positions : Table κ Nat} {n : Nat}

/-- A key that is new gets the position behind all others. -/
theorem concat [DecidableEq κ] (h : Numbers positions n) {k : κ} (hk : positions.get? k = none) :
    Numbers (positions.insert k n) (n + 1) where
  lt {k' i} hi := by
    rw [Table.get?_insert] at hi
    split at hi
    · obtain rfl := Option.some.inj hi
      exact Nat.lt_succ_self n
    · exact Nat.lt_succ_of_lt (h.lt hi)
  exists_key {i} hi := by
    rcases Nat.lt_succ_iff_lt_or_eq.1 hi with hlt | rfl
    · obtain ⟨k', hk'⟩ := h.exists_key hlt
      have hne : k' ≠ k := by
        rintro rfl
        rw [hk] at hk'
        cases hk'
      exact ⟨k', by rw [Table.get?_insert, if_neg hne, hk']⟩
    · exact ⟨k, by rw [Table.get?_insert, if_pos rfl]⟩
  injective {k₁ k₂ i} h₁ h₂ := by
    rw [Table.get?_insert] at h₁ h₂
    split at h₁
    · next hk₁ =>
      obtain rfl := Option.some.inj h₁
      split at h₂
      · next hk₂ => rw [hk₁, hk₂]
      · exact absurd (h.lt h₂) (Nat.lt_irrefl n)
    · split at h₂
      · obtain rfl := Option.some.inj h₂
        exact absurd (h.lt h₁) (Nat.lt_irrefl n)
      · exact h.injective h₁ h₂

theorem get?_dropped_iff {dropped : OrderedSet Nat} {k : κ} {j : Nat} :
    ((positions.filter fun _ i => !Table.contains dropped i).mapValues (shifted dropped)).get? k
        = some j ↔
      ∃ i, positions.get? k = some i ∧ Table.contains dropped i = false ∧
        shifted dropped i = j := by
  rw [Table.get?_mapValues, Table.get?_filter, Option.map_eq_some_iff]
  simp only [Option.filter_eq_some_iff, Bool.not_eq_true', and_assoc]

/-- The keys whose positions stay are numbered anew. -/
theorem drop (h : Numbers positions n) (dropped : OrderedSet Nat) :
    Numbers ((positions.filter fun _ i => !Table.contains dropped i).mapValues (shifted dropped))
      (kept dropped n).length where
  lt {k j} hj := by
    obtain ⟨i, hi, hstays, rfl⟩ := get?_dropped_iff.1 hj
    exact shifted_lt (h.lt hi) hstays
  exists_key {j} hj := by
    have hmem := List.getElem_mem hj
    obtain ⟨hlt, hstays⟩ := mem_kept.1 hmem
    obtain ⟨k, hk⟩ := h.exists_key hlt
    refine ⟨k, get?_dropped_iff.2 ⟨_, hk, hstays, ?_⟩⟩
    have hfound := getElem?_kept hlt hstays
    rw [← List.getElem?_eq_getElem hj] at hfound
    exact ((List.getElem?_inj hj nodup_kept).1 hfound.symm).symm
  injective {k k' j} hk hk' := by
    obtain ⟨i, hi, hstays, rfl⟩ := get?_dropped_iff.1 hk
    obtain ⟨i', hi', hstays', heq⟩ := get?_dropped_iff.1 hk'
    have hfound := getElem?_kept (h.lt hi) hstays
    rw [← heq, getElem?_kept (h.lt hi') hstays', Option.some.injEq] at hfound
    exact h.injective hi (hfound ▸ hi')

end Numbers

end VariantGraph.Resolution
