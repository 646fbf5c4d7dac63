import Mathlib.Data.Finset.Powerset
import Mathlib.Data.List.Forall2
import Mathlib.Data.List.Perm.Subperm
import VariantGraph.Table

/-!
# Look-up in tables

What the operations on tables that are not simple insertions do to look-up, and how many keys and
how many sets there can be over a given list of elements.

Main statements: `Table.get?_merge` and `Table.get?_ofList_filterMap` describe the bulk operations
through look-up, `OrderedSet.length_le_two_pow` bounds the number of distinct sets.
-/

namespace VariantGraph

namespace Table

variable {κ ν : Type} [Ord κ]

/-! ## Look-up after the other operations -/

section Lookup

variable [DecidableEq κ] [Std.TransOrd κ] [Std.LawfulEqOrd κ]

@[simp] theorem get?_erase (t : Table κ ν) (k k' : κ) :
    (t.erase k).get? k' = if k' = k then none else t.get? k' := by
  rw [erase, get?_filter]
  by_cases h : k' = k
  · subst h
    cases hv : t.get? k' <;> simp
  · have hne : compare k k' ≠ .eq := fun hc => h (Std.LawfulEqOrd.eq_of_compare hc).symm
    cases hv : t.get? k' <;> simp [h, hne]

theorem get?_insertIfNew (t : Table κ ν) (k k' : κ) (v : ν) :
    (t.insertIfNew k v).get? k'
      = if k' = k then some ((t.get? k).getD v) else t.get? k' := by
  unfold insertIfNew contains
  by_cases h : k' = k
  · subst h
    cases hv : t.get? k' <;> simp [hv]
  · cases hv : t.get? k <;> simp [h]

/-- Storing the values that a function gives to some keys. A key without a value keeps what it
had. -/
theorem get?_insertMany_filterMap (f : κ → Option ν) (l : List κ) (t : Table κ ν) (k : κ) :
    (t.insertMany (l.filterMap fun a => (f a).map fun v => (a, v))).get? k
      = if k ∈ l then (f k).or (t.get? k) else t.get? k := by
  unfold insertMany
  induction l generalizing t with
  | nil => simp
  | cons a rest ih =>
    cases hf : f a with
    | none =>
      rw [List.filterMap_cons_none (by simp [hf]), ih]
      by_cases hk : k = a
      · subst hk
        simp [hf]
      · simp [hk]
    | some v =>
      rw [List.filterMap_cons_some (b := (a, v)) (by simp [hf]), List.foldl_cons, ih]
      by_cases hk : k = a
      · subst hk
        simp [hf]
      · simp [hk]

theorem get?_ofList_filterMap (f : κ → Option ν) (l : List κ) (k : κ) :
    (ofList (l.filterMap fun a => (f a).map fun v => (a, v))).get? k
      = if k ∈ l then f k else none := by
  rw [ofList, get?_insertMany_filterMap]
  simp

theorem get?_insertMany_of_ascending {l : List (κ × ν)}
    (hl : l.Pairwise fun a b => compare a.1 b.1 = .lt) (t : Table κ ν) (k : κ) :
    (t.insertMany l).get? k = (lookupEntry k l).or (t.get? k) := by
  unfold insertMany
  induction l generalizing t with
  | nil => rfl
  | cons hd rest ih =>
    obtain ⟨a, b⟩ := hd
    obtain ⟨hfirst, hrest⟩ := List.pairwise_cons.1 hl
    rw [List.foldl_cons, ih hrest]
    by_cases hk : k = a
    · subst hk
      have hnone : lookupEntry k rest = none := lookupEntry_eq_none fun e he => hfirst e he
      simp [lookupEntry, hnone]
    · have hne : compare k a ≠ .eq := fun hc => hk (Std.LawfulEqOrd.eq_of_compare hc)
      simp [lookupEntry, hne, hk]

theorem get?_merge (t u : Table κ ν) (k : κ) : (t.merge u).get? k = (u.get? k).or (t.get? k) :=
  get?_insertMany_of_ascending u.ascending t k

/-- After several entries are stored, a value is one of theirs or was there before. -/
theorem mem_or_of_get?_insertMany {l : List (κ × ν)} {t : Table κ ν} {k : κ} {v : ν}
    (h : (t.insertMany l).get? k = some v) : (k, v) ∈ l ∨ t.get? k = some v := by
  unfold insertMany at h
  induction l generalizing t with
  | nil => exact .inr h
  | cons e rest ih =>
    rcases ih h with hrest | hnew
    · exact .inl (List.mem_cons_of_mem e hrest)
    · rw [get?_insert] at hnew
      split at hnew
      · next hk =>
        obtain rfl := Option.some.inj hnew
        exact .inl (hk ▸ List.mem_cons_self)
      · exact .inr hnew

theorem exists_get?_insertMany_iff {l : List (κ × ν)} {t : Table κ ν} {k : κ} :
    (∃ v, (t.insertMany l).get? k = some v) ↔ (∃ v, (k, v) ∈ l) ∨ ∃ v, t.get? k = some v := by
  unfold insertMany
  induction l generalizing t with
  | nil => simp
  | cons e rest ih =>
    obtain ⟨a, b⟩ := e
    rw [List.foldl_cons, ih, get?_insert]
    by_cases hk : k = a
    · simp [hk]
    · simp [hk]

theorem mem_of_get?_ofList {l : List (κ × ν)} {k : κ} {v : ν} (h : (ofList l).get? k = some v) :
    (k, v) ∈ l := by
  rcases mem_or_of_get?_insertMany h with hmem | hempty
  · exact hmem
  · cases hempty

theorem exists_get?_ofList_iff {l : List (κ × ν)} {k : κ} :
    (∃ v, (ofList l).get? k = some v) ↔ ∃ v, (k, v) ∈ l := by
  rw [ofList, exists_get?_insertMany_iff]
  simp

theorem exists_get?_merge_iff {t u : Table κ ν} {k : κ} :
    (∃ v, (t.merge u).get? k = some v) ↔ (∃ v, u.get? k = some v) ∨ ∃ v, t.get? k = some v := by
  rw [get?_merge]
  cases u.get? k <;> simp

theorem ofList_toList (t : Table κ ν) : ofList t.toList = t :=
  ext_get? fun k => (get?_merge empty t k).trans Option.or_none

/-- Merging the same entries over a table a second time changes nothing. -/
theorem merge_merge_self (t u : Table κ ν) : t.merge (t.merge u) = t.merge u := by
  refine ext_get? fun k => ?_
  simp only [get?_merge]
  cases u.get? k <;> cases t.get? k <;> rfl

end Lookup

/-! ## Sizes -/

theorem size_le_of_keys_subset [Std.TransOrd κ] {t : Table κ ν} {l : List κ}
    (h : ∀ k ∈ t.keys, k ∈ l) : t.size ≤ l.length := by
  have hlen : t.keys.length ≤ l.length := (List.subperm_of_subset t.nodup_keys h).length_le
  simpa [keys, size] using hlen

/-- A table with at most one entry has at most one key. -/
theorem eq_of_size_lt_two {t : Table κ ν} {k k' : κ} (h : t.size < 2) (hk : k ∈ t.keys)
    (hk' : k' ∈ t.keys) : k = k' := by
  by_contra hne
  have hpair : [k, k'].length ≤ t.keys.length :=
    (List.subperm_of_subset (by simpa using hne) (by simp [hk, hk'])).length_le
  rw [keys, List.length_map] at hpair
  exact absurd h (Nat.not_lt.2 hpair)

theorem isEmpty_insert [Std.TransOrd κ] (t : Table κ ν) (k : κ) (v : ν) :
    (t.insert k v).isEmpty = false := by
  have hne : insertEntry k v t.entries ≠ [] := by
    cases t.entries with
    | nil => simp [insertEntry]
    | cons e rest =>
      unfold insertEntry
      split <;> simp
  simpa [isEmpty, insert] using hne

theorem isEmpty_insertMany [Std.TransOrd κ] (t : Table κ ν) (l : List (κ × ν)) :
    (t.insertMany l).isEmpty = (t.isEmpty && l.isEmpty) := by
  unfold insertMany
  induction l generalizing t with
  | nil => simp
  | cons e rest ih =>
    rw [List.foldl_cons, ih, isEmpty_insert]
    simp

theorem isEmpty_ofList [Std.TransOrd κ] (l : List (κ × ν)) : (ofList l).isEmpty = l.isEmpty :=
  isEmpty_insertMany empty l

theorem size_filter_le (t : Table κ ν) (keep : κ → ν → Bool) : (t.filter keep).size ≤ t.size :=
  List.length_filter_le _ _

theorem filter_eq_self_of_size {t : Table κ ν} {keep : κ → ν → Bool}
    (h : t.size ≤ (t.filter keep).size) : t.filter keep = t := by
  obtain ⟨entries, hasc⟩ := t
  have hsub : (entries.filter fun e => keep e.1 e.2).Sublist entries := List.filter_sublist
  have heq := hsub.eq_of_length_le h
  simp [filter, heq]

/-! ## Tables with the same keys -/

section Related

variable {μ : Type} {R : ν → μ → Prop} {t : Table κ ν} {u : Table κ μ}

/-- Two tables have the same keys and related values. -/
def Related (R : ν → μ → Prop) (t : Table κ ν) (u : Table κ μ) : Prop :=
  List.Forall₂ (fun d e => d.1 = e.1 ∧ R d.2 e.2) t.entries u.entries

theorem rel_lookupEntry {l : List (κ × ν)} {m : List (κ × μ)}
    (h : List.Forall₂ (fun d e => d.1 = e.1 ∧ R d.2 e.2) l m) (k : κ) :
    Option.Rel R (lookupEntry k l) (lookupEntry k m) := by
  induction h with
  | nil => exact .none
  | @cons d e l m hde _ ih =>
    obtain ⟨a, v⟩ := d
    obtain ⟨b, w⟩ := e
    obtain ⟨hkey, hvalue⟩ := hde
    obtain rfl : a = b := hkey
    unfold lookupEntry
    split
    · exact .some hvalue
    · exact ih

/-- Under each key either both tables have related values, or neither has one. -/
theorem Related.get? (h : Related R t u) (k : κ) : Option.Rel R (t.get? k) (u.get? k) :=
  rel_lookupEntry h k

theorem Related.toList (h : Related R t u) :
    List.Forall₂ (fun d e => d.1 = e.1 ∧ R d.2 e.2) t.toList u.toList :=
  h

theorem Related.keys_eq (h : Related R t u) : t.keys = u.keys := by
  have hkeys : List.Forall₂ Eq t.keys u.keys :=
    List.rel_map (fun _ _ hde => hde.1) h
  rwa [List.forall₂_eq_eq_eq] at hkeys

theorem Related.contains_eq (h : Related R t u) (k : κ) : t.contains k = u.contains k := by
  unfold contains
  have hk := h.get? k
  generalize t.get? k = v, u.get? k = w at hk
  cases hk with
  | none => rfl
  | some => rfl

end Related

end Table

/-! ## Ordered sets -/

namespace OrderedSet

variable {κ : Type} [Ord κ] [Std.TransOrd κ] [Std.LawfulEqOrd κ]

theorem mem_elements_union [DecidableEq κ] {s t : OrderedSet κ} {k : κ} :
    k ∈ (union s t).elements ↔ k ∈ s.elements ∨ k ∈ t.elements := by
  rw [mem_elements_iff, mem_elements_iff, mem_elements_iff, union, Table.get?_merge]
  cases Table.get? s k <;> cases Table.get? t k <;> simp

theorem ext_elements {s t : OrderedSet κ} (h : ∀ k, k ∈ s.elements ↔ k ∈ t.elements) : s = t := by
  refine Table.ext_get? fun k => ?_
  have hk := h k
  rw [mem_elements_iff, mem_elements_iff] at hk
  cases hs : Table.get? s k with
  | some u => rw [hk.1 hs]
  | none =>
    cases ht : Table.get? t k with
    | none => rfl
    | some u => rw [hk.2 ht] at hs; simp at hs

/-- Over a list of elements there are at most two to the power of its length distinct sets. -/
theorem length_le_two_pow [DecidableEq κ] {sets : List (OrderedSet κ)} {l : List κ}
    (hnd : sets.Nodup) (h : ∀ s ∈ sets, ∀ k ∈ s.elements, k ∈ l) : sets.length ≤ 2 ^ l.length := by
  have hinj : Function.Injective fun s : OrderedSet κ => s.elements.toFinset := by
    intro s t heq
    refine ext_elements fun k => ?_
    have hk := congrArg (k ∈ ·) heq
    simpa using hk
  have hsub : (sets.map fun s => s.elements.toFinset).toFinset ⊆ l.toFinset.powerset := by
    intro f hf
    obtain ⟨s, hs, rfl⟩ := List.mem_map.1 (List.mem_toFinset.1 hf)
    rw [Finset.mem_powerset]
    intro k hk
    exact List.mem_toFinset.2 (h s hs k (List.mem_toFinset.1 hk))
  calc sets.length
      = (sets.map fun s => s.elements.toFinset).length := (List.length_map _).symm
    _ = (sets.map fun s => s.elements.toFinset).toFinset.card :=
        (List.toFinset_card_of_nodup (hnd.map hinj)).symm
    _ ≤ l.toFinset.powerset.card := Finset.card_le_card hsub
    _ = 2 ^ l.toFinset.card := Finset.card_powerset _
    _ ≤ 2 ^ l.length := Nat.pow_le_pow_right (by decide) (List.toFinset_card_le l)

end OrderedSet

end VariantGraph
