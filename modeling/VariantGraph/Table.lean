/-!
# Tables

A table is a finite map kept as a list of entries in ascending key order. Because the order is part
of the type, two tables that hold the same entries are equal, and walking a table visits its keys in
ascending order.

Main statements: `Table.get?_insert` and `Table.get?_empty` describe the operations through look-up,
`Table.mem_toList_iff` the entries, `Table.ext_get?` says that look-up determines a table.
-/

namespace VariantGraph

/-- A finite map whose entries ascend by key. -/
structure Table (κ ν : Type) [Ord κ] where
  entries : List (κ × ν)
  ascending : entries.Pairwise fun a b => compare a.1 b.1 = .lt
deriving DecidableEq

namespace Table

variable {κ ν : Type} [Ord κ]

/-! ## Building and reading -/

/-- The table without entries. -/
def empty : Table κ ν := ⟨[], .nil⟩

instance : EmptyCollection (Table κ ν) := ⟨empty⟩

instance : Inhabited (Table κ ν) := ⟨empty⟩

/-- The value stored under a key in a list of entries. -/
def lookupEntry (k : κ) : List (κ × ν) → Option ν
  | [] => none
  | (k', v) :: rest => if compare k k' = .eq then some v else lookupEntry k rest

/-- The value stored under a key. -/
def get? (t : Table κ ν) (k : κ) : Option ν := lookupEntry k t.entries

/-- Whether a key has a value. -/
def contains (t : Table κ ν) (k : κ) : Bool := (t.get? k).isSome

/-- The entries in ascending key order. -/
def toList (t : Table κ ν) : List (κ × ν) := t.entries

/-- The keys in ascending order. -/
def keys (t : Table κ ν) : List κ := t.entries.map (·.1)

/-- The values in the order of their keys. -/
def values (t : Table κ ν) : List ν := t.entries.map (·.2)

/-- The number of entries. -/
def size (t : Table κ ν) : Nat := t.entries.length

/-- Whether there is no entry. -/
def isEmpty (t : Table κ ν) : Bool := t.entries.isEmpty

/-- Puts an entry into its place, replacing the value of a key that is there already. -/
def insertEntry (k : κ) (v : ν) : List (κ × ν) → List (κ × ν)
  | [] => [(k, v)]
  | (k', v') :: rest =>
    match compare k k' with
    | .lt => (k, v) :: (k', v') :: rest
    | .eq => (k, v) :: rest
    | .gt => (k', v') :: insertEntry k v rest

theorem mem_insertEntry {k : κ} {v : ν} {e : κ × ν} {l : List (κ × ν)} :
    e ∈ insertEntry k v l → e = (k, v) ∨ e ∈ l := by
  induction l with
  | nil => simp [insertEntry]
  | cons hd rest ih =>
    obtain ⟨k', v'⟩ := hd
    rw [insertEntry]
    split
    · simp
    · simp only [List.mem_cons]
      rintro (h | h)
      · exact .inl h
      · exact .inr (.inr h)
    · simp only [List.mem_cons]
      rintro (h | h)
      · exact .inr (.inl h)
      · exact (ih h).imp id .inr

theorem ascending_insertEntry [Std.TransOrd κ] (k : κ) (v : ν) {l : List (κ × ν)}
    (h : l.Pairwise fun a b => compare a.1 b.1 = .lt) :
    (insertEntry k v l).Pairwise fun a b => compare a.1 b.1 = .lt := by
  induction l with
  | nil => simp [insertEntry]
  | cons hd rest ih =>
    obtain ⟨k', v'⟩ := hd
    obtain ⟨hfirst, hrest⟩ := List.pairwise_cons.1 h
    rw [insertEntry]
    split
    · next hk =>
      refine h.cons fun a ha => ?_
      rcases List.mem_cons.1 ha with rfl | ha
      · exact hk
      · exact Std.TransCmp.lt_trans hk (hfirst a ha)
    · next hk =>
      exact hrest.cons fun a ha => Std.TransCmp.lt_of_eq_of_lt hk (hfirst a ha)
    · next hk =>
      refine (ih hrest).cons fun a ha => ?_
      rcases mem_insertEntry ha with rfl | ha
      · exact Std.OrientedCmp.lt_of_gt hk
      · exact hfirst a ha

/-- Stores a value under a key, replacing what was there. -/
def insert [Std.TransOrd κ] (t : Table κ ν) (k : κ) (v : ν) : Table κ ν :=
  ⟨insertEntry k v t.entries, ascending_insertEntry k v t.ascending⟩

/-- Keeps the entries that pass a test. -/
def filter (t : Table κ ν) (keep : κ → ν → Bool) : Table κ ν :=
  ⟨t.entries.filter fun e => keep e.1 e.2, t.ascending.sublist List.filter_sublist⟩

/-- Removes a key. -/
def erase (t : Table κ ν) (k : κ) : Table κ ν :=
  t.filter fun k' _ => compare k k' != .eq

/-- Replaces every value by its image. -/
def mapValues {μ : Type} (t : Table κ ν) (f : ν → μ) : Table κ μ :=
  ⟨t.entries.map fun e => (e.1, f e.2), by
    rw [List.pairwise_map]
    exact t.ascending⟩

/-- Stores entries one after the other; a later entry replaces an earlier one of the same key. -/
def insertMany [Std.TransOrd κ] (t : Table κ ν) (l : List (κ × ν)) : Table κ ν :=
  l.foldl (fun t e => t.insert e.1 e.2) t

/-- The table of a list of entries, in which the last entry of a key counts. -/
def ofList [Std.TransOrd κ] (l : List (κ × ν)) : Table κ ν := (empty : Table κ ν).insertMany l

/-- Stores the entries of `u` over those of `t`. -/
def merge [Std.TransOrd κ] (t u : Table κ ν) : Table κ ν := t.insertMany u.entries

/-- Stores a value only under a key that has none. -/
def insertIfNew [Std.TransOrd κ] (t : Table κ ν) (k : κ) (v : ν) : Table κ ν :=
  if t.contains k then t else t.insert k v

/-! ## Look-up after each operation -/

@[simp] theorem get?_empty (k : κ) : (empty : Table κ ν).get? k = none := rfl

theorem lookupEntry_insertEntry [DecidableEq κ] [Std.TransOrd κ] [Std.LawfulEqOrd κ]
    (k k' : κ) (v : ν) (l : List (κ × ν)) :
    lookupEntry k' (insertEntry k v l) = if k' = k then some v else lookupEntry k' l := by
  induction l with
  | nil => simp [insertEntry, lookupEntry]
  | cons hd rest ih =>
    obtain ⟨a, b⟩ := hd
    rw [insertEntry]
    split
    · simp [lookupEntry]
    · next hk =>
      have hk := Std.LawfulEqOrd.eq_of_compare hk
      subst hk
      by_cases h : k' = k <;> simp [lookupEntry, h]
    · next hk =>
      have hne : ¬ a = k := by
        rintro rfl
        simp [Std.ReflOrd.compare_self] at hk
      by_cases h : k' = a
      · subst h
        simp [lookupEntry, hne]
      · simp [lookupEntry, h, ih]

@[simp] theorem get?_insert [DecidableEq κ] [Std.TransOrd κ] [Std.LawfulEqOrd κ]
    (t : Table κ ν) (k k' : κ) (v : ν) :
    (t.insert k v).get? k' = if k' = k then some v else t.get? k' :=
  lookupEntry_insertEntry k k' v t.entries

theorem lookupEntry_eq_none [Std.TransOrd κ] {k : κ} {l : List (κ × ν)}
    (h : ∀ e ∈ l, compare k e.1 = .lt) : lookupEntry k l = none := by
  induction l with
  | nil => rfl
  | cons hd rest ih =>
    have hlt : compare k hd.1 = .lt := h hd (by simp)
    simp only [lookupEntry, hlt, reduceCtorEq, if_false]
    exact ih fun e he => h e (List.mem_cons_of_mem _ he)

theorem entries_eq_of_lookupEntry [Std.TransOrd κ] [Std.LawfulEqOrd κ] :
    ∀ {l m : List (κ × ν)}, (l.Pairwise fun a b => compare a.1 b.1 = .lt) →
      (m.Pairwise fun a b => compare a.1 b.1 = .lt) →
      (∀ k, lookupEntry k l = lookupEntry k m) → l = m
  | [], [], _, _, _ => rfl
  | [], (k, v) :: m, _, _, h => by
    have := h k
    simp [lookupEntry] at this
  | (k, v) :: l, [], _, _, h => by
    have := h k
    simp [lookupEntry] at this
  | (k, v) :: l, (k', v') :: m, hl, hm, h => by
    obtain ⟨hl1, hl2⟩ := List.pairwise_cons.1 hl
    obtain ⟨hm1, hm2⟩ := List.pairwise_cons.1 hm
    have hkk : compare k k' = .eq := by
      cases hc : compare k k' with
      | eq => rfl
      | lt =>
        have hn : lookupEntry k ((k', v') :: m) = none := lookupEntry_eq_none fun e he => by
          rcases List.mem_cons.1 he with rfl | he
          · exact hc
          · exact Std.TransCmp.lt_trans hc (hm1 e he)
        have := h k
        rw [hn] at this
        simp [lookupEntry] at this
      | gt =>
        have hc := Std.OrientedCmp.lt_of_gt hc
        have hn : lookupEntry k' ((k, v) :: l) = none := lookupEntry_eq_none fun e he => by
          rcases List.mem_cons.1 he with rfl | he
          · exact hc
          · exact Std.TransCmp.lt_trans hc (hl1 e he)
        have := h k'
        rw [hn] at this
        simp [lookupEntry] at this
    have hkk := Std.LawfulEqOrd.eq_of_compare hkk
    subst hkk
    have hv : v = v' := by
      have := h k
      simpa [lookupEntry] using this
    subst hv
    congr 1
    refine entries_eq_of_lookupEntry hl2 hm2 fun x => ?_
    have hx := h x
    by_cases hxk : compare x k = .eq
    · have hxk := Std.LawfulEqOrd.eq_of_compare hxk
      subst hxk
      rw [lookupEntry_eq_none hl1, lookupEntry_eq_none hm1]
    · simpa [lookupEntry, hxk] using hx

theorem lookupEntry_filter [Std.TransOrd κ] [Std.LawfulEqOrd κ] (keep : κ → ν → Bool) (k : κ)
    {l : List (κ × ν)} (h : l.Pairwise fun a b => compare a.1 b.1 = .lt) :
    lookupEntry k (l.filter fun e => keep e.1 e.2) = (lookupEntry k l).filter (keep k) := by
  induction l with
  | nil => rfl
  | cons hd rest ih =>
    obtain ⟨a, b⟩ := hd
    obtain ⟨hfirst, hrest⟩ := List.pairwise_cons.1 h
    by_cases hk : compare k a = .eq
    · have hk := Std.LawfulEqOrd.eq_of_compare hk
      subst hk
      cases hkeep : keep k b with
      | true => simp [lookupEntry, hkeep, Option.filter]
      | false =>
        have hn : lookupEntry k (rest.filter fun e => keep e.1 e.2) = none :=
          lookupEntry_eq_none fun e he => hfirst e (List.mem_filter.1 he).1
        simp [lookupEntry, hkeep, hn, Option.filter]
    · cases hkeep : keep a b <;> simp [lookupEntry, hkeep, hk, ih hrest]

@[simp] theorem get?_filter [Std.TransOrd κ] [Std.LawfulEqOrd κ] (t : Table κ ν)
    (keep : κ → ν → Bool) (k : κ) : (t.filter keep).get? k = (t.get? k).filter (keep k) :=
  lookupEntry_filter keep k t.ascending

/-- Tables that answer every look-up alike are equal. -/
theorem ext_get? [Std.TransOrd κ] [Std.LawfulEqOrd κ] {t u : Table κ ν}
    (h : ∀ k, t.get? k = u.get? k) : t = u := by
  obtain ⟨l, hl⟩ := t
  obtain ⟨m, hm⟩ := u
  have : l = m := entries_eq_of_lookupEntry hl hm h
  subst this
  rfl

/-! ## Entries and look-up -/

theorem mem_of_lookupEntry [Std.LawfulEqOrd κ] {k : κ} {v : ν} {l : List (κ × ν)}
    (h : lookupEntry k l = some v) : (k, v) ∈ l := by
  induction l with
  | nil => simp [lookupEntry] at h
  | cons hd rest ih =>
    obtain ⟨a, b⟩ := hd
    by_cases hk : compare k a = .eq
    · obtain rfl := Std.LawfulEqOrd.eq_of_compare hk
      simp only [lookupEntry, hk, if_true, Option.some.injEq] at h
      simp [h]
    · simp only [lookupEntry, hk, if_false] at h
      exact List.mem_cons_of_mem _ (ih h)

theorem lookupEntry_of_mem [Std.TransOrd κ] {k : κ} {v : ν} {l : List (κ × ν)}
    (hl : l.Pairwise fun a b => compare a.1 b.1 = .lt) (h : (k, v) ∈ l) :
    lookupEntry k l = some v := by
  induction l with
  | nil => simp at h
  | cons hd rest ih =>
    obtain ⟨a, b⟩ := hd
    obtain ⟨hfirst, hrest⟩ := List.pairwise_cons.1 hl
    rcases List.mem_cons.1 h with heq | hmem
    · obtain ⟨rfl, rfl⟩ := Prod.mk.inj heq
      simp [lookupEntry]
    · have hgt : compare k a = .gt := Std.OrientedCmp.gt_of_lt (hfirst _ hmem)
      simp [lookupEntry, hgt, ih hrest hmem]

theorem mem_toList_iff [Std.TransOrd κ] [Std.LawfulEqOrd κ] {t : Table κ ν} {k : κ} {v : ν} :
    (k, v) ∈ t.toList ↔ t.get? k = some v :=
  ⟨lookupEntry_of_mem t.ascending, mem_of_lookupEntry⟩

theorem mem_keys_iff [Std.TransOrd κ] [Std.LawfulEqOrd κ] {t : Table κ ν} {k : κ} :
    k ∈ t.keys ↔ ∃ v, t.get? k = some v := by
  simp only [keys, List.mem_map, Prod.exists, exists_and_right, exists_eq_right]
  exact exists_congr fun v => mem_toList_iff

theorem mem_values_of_get? [Std.LawfulEqOrd κ] {t : Table κ ν} {k : κ} {v : ν}
    (h : t.get? k = some v) : v ∈ t.values :=
  List.mem_map.2 ⟨(k, v), mem_of_lookupEntry h, rfl⟩

theorem nodup_keys [Std.TransOrd κ] (t : Table κ ν) : t.keys.Nodup := by
  rw [keys, List.Nodup, List.pairwise_map]
  refine t.ascending.imp fun {a b} hlt heq => ?_
  rw [heq, Std.ReflOrd.compare_self] at hlt
  cases hlt

theorem lookupEntry_map {μ : Type} (f : ν → μ) (k : κ) (l : List (κ × ν)) :
    lookupEntry k (l.map fun e => (e.1, f e.2)) = (lookupEntry k l).map f := by
  induction l with
  | nil => rfl
  | cons e rest ih =>
    obtain ⟨a, v⟩ := e
    rw [List.map_cons, lookupEntry, lookupEntry]
    split
    · rfl
    · exact ih

@[simp] theorem get?_mapValues {μ : Type} (t : Table κ ν) (f : ν → μ) (k : κ) :
    (t.mapValues f).get? k = (t.get? k).map f :=
  lookupEntry_map f k t.entries

end Table

/-! ## Ordered sets -/

/-- An ordered set is a table whose keys carry nothing. -/
abbrev OrderedSet (κ : Type) [Ord κ] := Table κ Unit

namespace OrderedSet

variable {κ : Type} [Ord κ]

/-- Adds an element. -/
def add [Std.TransOrd κ] (s : OrderedSet κ) (k : κ) : OrderedSet κ := s.insert k ()

/-- The set of the elements of a list. -/
def ofElements [Std.TransOrd κ] (l : List κ) : OrderedSet κ :=
  l.foldl add Table.empty

/-- The elements in ascending order. -/
def elements (s : OrderedSet κ) : List κ := Table.keys s

/-- The elements of either set. -/
def union [Std.TransOrd κ] (s t : OrderedSet κ) : OrderedSet κ := Table.merge s t

/-- Sets are ordered by their elements, as texts are by their characters. -/
instance : Ord (OrderedSet κ) := ⟨compareOn elements⟩

instance [Std.TransOrd κ] : Std.TransOrd (OrderedSet κ) :=
  inferInstanceAs (Std.TransCmp (compareOn elements))

theorem entries_eq_map_elements (s : OrderedSet κ) :
    s.entries = s.elements.map fun k => (k, ()) := by
  rw [elements, Table.keys, List.map_map]
  exact (List.map_id' s.entries).symm

instance [Std.TransOrd κ] [Std.LawfulEqOrd κ] : Std.LawfulEqOrd (OrderedSet κ) where
  eq_of_compare {s t} h := by
    have helements : s.elements = t.elements := Std.LawfulEqOrd.eq_of_compare h
    have hentries : s.entries = t.entries := by
      rw [entries_eq_map_elements, helements, ← entries_eq_map_elements]
    obtain ⟨l, _⟩ := s
    obtain ⟨m, _⟩ := t
    subst hentries
    rfl

section Elements

variable [Std.TransOrd κ] [Std.LawfulEqOrd κ]

theorem mem_elements_iff {s : OrderedSet κ} {k : κ} : k ∈ s.elements ↔ Table.get? s k = some () := by
  rw [elements, Table.mem_keys_iff]
  exact ⟨fun ⟨_, h⟩ => h, fun h => ⟨_, h⟩⟩

theorem mem_elements_foldl_add [DecidableEq κ] {l : List κ} {s : OrderedSet κ} {k : κ} :
    k ∈ (l.foldl add s).elements ↔ k ∈ s.elements ∨ k ∈ l := by
  induction l generalizing s with
  | nil => simp
  | cons a rest ih =>
    have hadd : k ∈ (add s a).elements ↔ k ∈ s.elements ∨ k = a := by
      rw [mem_elements_iff, mem_elements_iff, add, Table.get?_insert]
      by_cases h : k = a <;> simp [h]
    rw [List.foldl_cons, ih, hadd, List.mem_cons, or_assoc]

@[simp] theorem mem_elements_ofElements [DecidableEq κ] {l : List κ} {k : κ} :
    k ∈ (ofElements l).elements ↔ k ∈ l := by
  have hnone : k ∉ elements (Table.empty : OrderedSet κ) := List.not_mem_nil
  rw [ofElements, mem_elements_foldl_add, or_iff_right hnone]

end Elements

end OrderedSet

end VariantGraph
