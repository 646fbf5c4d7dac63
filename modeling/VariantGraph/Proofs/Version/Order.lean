import Mathlib.Data.Set.Basic
import VariantGraph.Version.Selector

/-!
# Versions with one release marker

`final`, `ga` and `release` count as absent, but they differ from each other. So versions are not
ordered transitively as soon as two of the three occur: `1-release-x` is below `1`, `1` is below
`1-ga`, and `1-ga` is below `1-release-x`. Where at most one of them occurs the order is the steady
one, in which all three stand where nothing stands, and the steady order is total.

Main statements: the instances for `Version.steadyOrder`, `Version.order_eq_steadyOrder` for
versions with one marker, `Version.highest?_eq_some_iff` and `Selector.accepts_of_between`.
-/

namespace VariantGraph

namespace Version

open Std

/-! ## Comparing place by place -/

/-- Comparisons that go on where another one finds no difference are transitive together with it. -/
theorem isLE_then_trans {β : Type} {cmp : β → β → Ordering} [TransCmp cmp] {a b c : β}
    {x y z : Ordering} (h : x.isLE = true → y.isLE = true → z.isLE = true)
    (hab : ((cmp a b).then x).isLE = true) (hbc : ((cmp b c).then y).isLE = true) :
    ((cmp a c).then z).isLE = true := by
  rw [Ordering.isLE_then_iff_or] at hab hbc ⊢
  rcases hab with hab | ⟨hab, hx⟩
  · rcases hbc with hbc | ⟨hbc, -⟩
    · exact .inl (TransCmp.lt_trans hab hbc)
    · exact .inl (TransCmp.lt_of_lt_of_eq hab hbc)
  · rcases hbc with hbc | ⟨hbc, hy⟩
    · exact .inl (TransCmp.lt_of_eq_of_lt hab hbc)
    · exact .inr ⟨TransCmp.eq_trans hab hbc, h hx hy⟩

/-- Compares two lists place by place, where a list that has ended has nothing to show: the first
place where they differ decides. -/
def comparePlaces {α : Type} (cmp : Option α → Option α → Ordering) : List α → List α → Ordering
  | [], [] => .eq
  | a :: as, [] => (cmp (some a) none).then (comparePlaces cmp as [])
  | [], b :: bs => (cmp none (some b)).then (comparePlaces cmp [] bs)
  | a :: as, b :: bs => (cmp (some a) (some b)).then (comparePlaces cmp as bs)

section ComparePlaces

variable {α : Type} {cmp : Option α → Option α → Ordering}

/-- The first place decides, and then the rest. -/
theorem comparePlaces_eq_then [ReflCmp cmp] (as bs : List α) : comparePlaces cmp as bs
    = (cmp as.head? bs.head?).then (comparePlaces cmp as.tail bs.tail) := by
  cases as with
  | nil =>
    cases bs with
    | nil => simp [comparePlaces, ReflCmp.compare_self]
    | cons b bs => simp [comparePlaces]
  | cons a as => cases bs <;> simp [comparePlaces]

theorem comparePlaces_congr {cmp' : Option α → Option α → Ordering} {as bs : List α}
    (hnone : ∀ b ∈ bs, cmp none (some b) = cmp' none (some b))
    (hsome : ∀ a ∈ as, cmp (some a) none = cmp' (some a) none ∧
      ∀ b ∈ bs, cmp (some a) (some b) = cmp' (some a) (some b)) :
    comparePlaces cmp as bs = comparePlaces cmp' as bs := by
  fun_induction comparePlaces cmp as bs with
  | case1 => simp [comparePlaces]
  | case2 a as ih => simp_all [comparePlaces]
  | case3 b bs ih => simp_all [comparePlaces]
  | case4 a as b bs ih => simp_all [comparePlaces]

instance [OrientedCmp cmp] : OrientedCmp (comparePlaces cmp) where
  eq_swap {as bs} := by
    fun_induction comparePlaces cmp as bs with
    | case1 => simp [comparePlaces]
    | case2 a as ih =>
      rw [comparePlaces, Ordering.swap_then, ← ih, @OrientedCmp.eq_swap _ cmp _ (some a) none]
    | case3 b bs ih =>
      rw [comparePlaces, Ordering.swap_then, ← ih, @OrientedCmp.eq_swap _ cmp _ none (some b)]
    | case4 a as b bs ih =>
      rw [comparePlaces, Ordering.swap_then, ← ih, @OrientedCmp.eq_swap _ cmp _ (some a) (some b)]

instance [TransCmp cmp] : TransCmp (comparePlaces cmp) where
  isLE_trans {as bs cs} := by
    -- all three lists lose their first place at once
    induction hn : as.length + bs.length + cs.length using Nat.strong_induction_on
      generalizing as bs cs with
    | _ n ih =>
      intro hab hbc
      by_cases hnil : as = [] ∧ bs = [] ∧ cs = []
      · obtain ⟨rfl, rfl, rfl⟩ := hnil
        exact hab
      · have hshorter : as.tail.length + bs.tail.length + cs.tail.length < n := by
          rw [← hn]
          cases as <;> cases bs <;> cases cs <;> simp at hnil ⊢ <;> omega
        rw [comparePlaces_eq_then] at hab hbc ⊢
        exact isLE_then_trans (ih _ hshorter rfl) hab hbc

end ComparePlaces

/-- The order of what two versions have at one place. -/
def orderAt : Option Part → Option Part → Ordering
  | none, none => .eq
  | some p, none => p.orderAgainstNone
  | none, some q => q.orderAgainstNone.swap
  | some p, some q => p.order q

theorem orderParts_eq_comparePlaces (ps qs : List Part) :
    orderParts ps qs = comparePlaces orderAt ps qs := by
  fun_induction orderParts ps qs with
  | case1 => simp [comparePlaces]
  | case2 p ps ih => rw [ih, comparePlaces, orderAt]
  | case3 q qs ih => rw [ih, comparePlaces, orderAt]
  | case4 p ps q qs ih => rw [ih, comparePlaces, orderAt]

/-! ## The steady order -/

/-- Whether a part counts as absent. -/
def Part.isMarker : Part → Bool
  | .text .final | .text .ga | .text .release => true
  | _ => false

/-- At most one of `final`, `ga` and `release` occurs among some versions. -/
def OneMarker (versions : Set String) : Prop :=
  ∀ a ∈ versions, ∀ b ∈ versions, ∀ p ∈ parts a, ∀ q ∈ parts b,
    p.isMarker = true → q.isMarker = true → p = q

instance (l : List String) : Decidable (OneMarker {v | v ∈ l}) :=
  inferInstanceAs (Decidable (∀ a ∈ l, ∀ b ∈ l, ∀ p ∈ parts a, ∀ q ∈ parts b,
    p.isMarker = true → q.isMarker = true → p = q))

theorem OneMarker.mono {versions versions' : Set String} (h : OneMarker versions')
    (hsub : ∀ v ∈ versions, v ∈ versions') : OneMarker versions :=
  fun a ha b hb => h a (hsub a ha) b (hsub b hb)

/-- The height of what stands at one place. The markers stand where nothing stands. -/
def height : Option Part → Nat
  | some (.text .dev) => 0
  | some (.text (.other _)) => 1
  | some (.text .rc) => 2
  | some (.text .snapshot) => 3
  | none | some (.text .final) | some (.text .ga) | some (.text .release) => 4
  | some (.text .sp) => 5
  | some (.number _) => 6

/-- How many digits a number has. -/
def size : Option Part → Nat
  | some (.number digits) => digits.length
  | _ => 0

/-- The text that orders parts of one height and one size. -/
def tieText : Option Part → String
  | some (.number digits) => String.ofList digits
  | some (.text (.other text)) => text
  | _ => ""

/-- The order of what two versions have at one place, when the markers are not told apart. -/
def steadyAt : Option Part → Option Part → Ordering :=
  compareLex (compareOn height) (compareLex (compareOn size) (compareOn tieText))

instance : TransCmp steadyAt :=
  inferInstanceAs
    (TransCmp (compareLex (compareOn height) (compareLex (compareOn size) (compareOn tieText))))

theorem orderAt_none_eq_steadyAt (q : Part) : orderAt none (some q) = steadyAt none (some q) := by
  cases q with
  | number digits => rfl
  | text q => cases q <;> rfl

theorem orderAt_eq_steadyAt_none (p : Part) : orderAt (some p) none = steadyAt (some p) none := by
  cases p with
  | number digits => rfl
  | text p => cases p <;> rfl

theorem orderAt_eq_steadyAt {p q : Part} (h : p.isMarker = true → q.isMarker = true → p = q) :
    orderAt (some p) (some q) = steadyAt (some p) (some q) := by
  cases p with
  | number a =>
    cases q with
    | number b => rfl
    | text q => cases q <;> rfl
  | text p =>
    cases q with
    | number b => cases p <;> rfl
    | text q => cases p <;> cases q <;> simp_all [Part.isMarker] <;> rfl

/-- The order of lists of parts in which the markers are not told apart. -/
def steadyParts : List Part → List Part → Ordering := comparePlaces steadyAt

instance : TransCmp steadyParts := inferInstanceAs (TransCmp (comparePlaces steadyAt))

/-- The order of versions in which the markers are not told apart. -/
def steadyOrder (a b : String) : Ordering :=
  (steadyParts (parts a) (parts b)).then (compare a b)

instance : TransCmp steadyOrder where
  eq_swap {a b} := by
    rw [steadyOrder, steadyOrder, Ordering.swap_then,
      @OrientedCmp.eq_swap _ steadyParts _ (parts a) (parts b), OrientedOrd.eq_swap (a := a)]
  isLE_trans hab hbc := isLE_then_trans TransOrd.isLE_trans hab hbc

instance : LawfulEqCmp steadyOrder where
  compare_self := by simp [steadyOrder, ReflCmp.compare_self]
  eq_of_compare h := LawfulEqOrd.eq_of_compare (Ordering.then_eq_eq.1 h).2

/-- Versions with one marker are ordered steadily. -/
theorem orderParts_eq_steadyParts {versions : Set String} (h : OneMarker versions) {a b : String}
    (ha : a ∈ versions) (hb : b ∈ versions) :
    orderParts (parts a) (parts b) = steadyParts (parts a) (parts b) := by
  rw [orderParts_eq_comparePlaces]
  refine comparePlaces_congr (fun q _ => orderAt_none_eq_steadyAt q) fun p hp => ?_
  exact ⟨orderAt_eq_steadyAt_none p, fun q hq => orderAt_eq_steadyAt (h a ha b hb p hp q hq)⟩

theorem order_eq_steadyOrder {versions : Set String} (h : OneMarker versions) {a b : String}
    (ha : a ∈ versions) (hb : b ∈ versions) : order a b = steadyOrder a b := by
  rw [order, steadyOrder, orderParts_eq_steadyParts h ha hb]

/-! ## The highest version -/

/-- A version is the highest of some versions: all others are below it. -/
structure IsHighest (versions : Set String) (v : String) : Prop where
  mem : v ∈ versions
  above : ∀ w ∈ versions, w ≠ v → order w v = .lt

section Highest

variable {versions : Set String} {u v w : String}

/-- No other version is above the highest one. -/
theorem isHighest_iff (h : OneMarker versions) : IsHighest versions v ↔
    v ∈ versions ∧ ∀ w ∈ versions, (steadyOrder w v).isLE = true := by
  constructor
  · rintro ⟨hv, habove⟩
    refine ⟨hv, fun w hw => ?_⟩
    by_cases hne : w = v
    · rw [hne]
      exact ReflCmp.isLE_rfl
    · rw [← order_eq_steadyOrder h hw hv, habove w hw hne]
      rfl
  · rintro ⟨hv, hle⟩
    refine ⟨hv, fun w hw hne => ?_⟩
    rw [order_eq_steadyOrder h hw hv]
    have hnot : steadyOrder w v ≠ .eq := fun heq => hne (LawfulEqCmp.eq_of_compare heq)
    have hw := hle w hw
    revert hw hnot
    cases steadyOrder w v <;> simp

/-- Of versions with one marker only one is the highest. -/
theorem IsHighest.unique (h : OneMarker versions) (hv : IsHighest versions v)
    (hw : IsHighest versions w) : v = w := by
  obtain ⟨hmem, hle⟩ := (isHighest_iff h).1 hv
  obtain ⟨hmem', hle'⟩ := (isHighest_iff h).1 hw
  exact LawfulEqCmp.eq_of_compare (OrientedCmp.isLE_antisymm (hle' v hmem) (hle w hmem'))

/-- The later of two versions is at least as high as both. -/
theorem isLE_later (h : OneMarker versions) (hv : v ∈ versions) (hw : w ∈ versions) :
    (steadyOrder v (later v w)).isLE = true ∧ (steadyOrder w (later v w)).isLE = true := by
  unfold later
  rw [order_eq_steadyOrder h hv hw]
  split
  · next hgt =>
    refine ⟨ReflCmp.isLE_rfl, ?_⟩
    rw [OrientedCmp.lt_of_gt hgt]
    rfl
  · next hle =>
    exact ⟨Ordering.isLE_iff_ne_gt.2 hle, ReflCmp.isLE_rfl⟩

theorem later_mem (hv : v ∈ versions) (hw : w ∈ versions) : later v w ∈ versions := by
  unfold later
  split
  · exact hv
  · exact hw

theorem isLE_foldl_later (h : OneMarker versions) {l : List String} (hv : v ∈ versions)
    (hl : ∀ w ∈ l, w ∈ versions) :
    ∀ w ∈ v :: l, (steadyOrder w (l.foldl later v)).isLE = true := by
  induction l generalizing v with
  | nil =>
    intro w hw
    obtain rfl := List.mem_singleton.1 hw
    exact ReflCmp.isLE_rfl
  | cons u rest ih =>
    obtain ⟨hu, hrest⟩ := List.forall_mem_cons.1 hl
    obtain ⟨hleft, hright⟩ := isLE_later h hv hu
    have hfold := ih (later_mem hv hu) hrest
    have hlater := hfold _ List.mem_cons_self
    intro w hw
    rcases List.mem_cons.1 hw with rfl | hw
    · exact TransCmp.isLE_trans hleft hlater
    · rcases List.mem_cons.1 hw with rfl | hw
      · exact TransCmp.isLE_trans hright hlater
      · exact hfold w (List.mem_cons_of_mem _ hw)

/-- Some member of a list is at most as high as all others. -/
theorem exists_lowest {l : List String} (h : l ≠ []) :
    ∃ v ∈ l, ∀ w ∈ l, (steadyOrder v w).isLE = true := by
  induction l with
  | nil => exact absurd rfl h
  | cons u rest ih =>
    by_cases hrest : rest = []
    · subst hrest
      exact ⟨u, List.mem_cons_self, fun w hw => List.mem_singleton.1 hw ▸ ReflCmp.isLE_rfl⟩
    · obtain ⟨v, hv, hlow⟩ := ih hrest
      by_cases huv : steadyOrder u v = .gt
      · have hvu : (steadyOrder v u).isLE = true :=
          Ordering.isLE_of_eq_lt (OrientedCmp.lt_of_gt huv)
        exact ⟨v, List.mem_cons_of_mem u hv, List.forall_mem_cons.2 ⟨hvu, hlow⟩⟩
      · have hle := Ordering.isLE_iff_ne_gt.2 huv
        refine ⟨u, List.mem_cons_self, List.forall_mem_cons.2 ⟨ReflCmp.isLE_rfl, ?_⟩⟩
        exact fun w hw => TransCmp.isLE_trans hle (hlow w hw)

theorem highest?_eq_none_iff {l : List String} : highest? l = none ↔ l = [] := by
  cases l with
  | nil => simp [highest?]
  | cons v rest => simp [highest?]

/-- What is found from left to right is the highest of versions with one marker. -/
theorem highest?_eq_some_iff {l : List String} (h : OneMarker {w | w ∈ l}) :
    highest? l = some v ↔ IsHighest {w | w ∈ l} v := by
  cases l with
  | nil =>
    constructor
    · intro hnone
      cases hnone
    · intro hv
      cases hv.mem
  | cons u rest =>
    have hmem : u ∈ {w | w ∈ u :: rest} := List.mem_cons_self
    have hle := isLE_foldl_later h hmem fun w hw => List.mem_cons_of_mem u hw
    have hfound := (isHighest_iff h).2 ⟨Selector.foldl_later_mem rest u, hle⟩
    constructor
    · intro hv
      obtain rfl := Option.some.inj hv
      exact hfound
    · intro hv
      rw [highest?, Option.some.injEq]
      exact hfound.unique h hv

end Highest

end Version

/-! ## Intervals -/

/-- The bounds of a range. -/
def Range.bounds (r : Range) : List Bound := r.lower.toList ++ r.upper.toList

namespace Selector

/-- Whether a selector is a range or selects any version. -/
def isInterval : Selector → Bool
  | range _ | latest => true
  | _ => false

/-- The versions that bound what a selector accepts. -/
def boundVersions : Selector → List String
  | range r => r.bounds.map Bound.version
  | _ => []

end Selector

section Intervals

open Std Version

variable {versions : Set String} {u v w : String}

/-- Bounds look at parts alone. -/
theorem isLE_steadyParts (h : OneMarker versions) (hv : v ∈ versions) (hw : w ∈ versions)
    (hvw : (order v w).isLE = true) : (steadyParts (parts v) (parts w)).isLE = true := by
  rw [order_eq_steadyOrder h hv hw] at hvw
  exact Ordering.isLE_left_of_isLE_then hvw

/-- Whatever stands above a version that a lower bound admits is admitted. -/
theorem Bound.admitsAbove_of_isLE (h : OneMarker versions) {b : Bound} (hb : b.version ∈ versions)
    (hv : v ∈ versions) (hw : w ∈ versions) (hvw : (order v w).isLE = true)
    (hadmits : b.admitsAbove v = true) : b.admitsAbove w = true := by
  unfold admitsAbove at hadmits ⊢
  rw [orderParts_eq_steadyParts h hv hb] at hadmits
  rw [orderParts_eq_steadyParts h hw hb]
  have hle := isLE_steadyParts h hv hw hvw
  cases hwb : steadyParts (parts w) (parts b.version) with
  | lt =>
    rw [TransCmp.lt_of_isLE_of_lt hle hwb] at hadmits
    exact hadmits
  | eq =>
    have hvb := TransCmp.isLE_trans hle (Ordering.isLE_of_eq_eq hwb)
    cases hvb' : steadyParts (parts v) (parts b.version) with
    | lt => simp [hvb'] at hadmits
    | eq => simpa [hvb'] using hadmits
    | gt => simp [hvb'] at hvb
  | gt => rfl

/-- Whatever stands below a version that an upper bound admits is admitted. -/
theorem Bound.admitsBelow_of_isLE (h : OneMarker versions) {b : Bound} (hb : b.version ∈ versions)
    (hv : v ∈ versions) (hw : w ∈ versions) (hvw : (order v w).isLE = true)
    (hadmits : b.admitsBelow w = true) : b.admitsBelow v = true := by
  unfold admitsBelow at hadmits ⊢
  rw [orderParts_eq_steadyParts h hw hb] at hadmits
  rw [orderParts_eq_steadyParts h hv hb]
  have hle := isLE_steadyParts h hv hw hvw
  cases hwb : steadyParts (parts w) (parts b.version) with
  | lt =>
    rw [TransCmp.lt_of_isLE_of_lt hle hwb]
  | eq =>
    have hvb := TransCmp.isLE_trans hle (Ordering.isLE_of_eq_eq hwb)
    rw [hwb] at hadmits
    cases hvb' : steadyParts (parts v) (parts b.version) with
    | lt => rfl
    | eq => exact hadmits
    | gt => simp [hvb'] at hvb
  | gt => simp [hwb] at hadmits

/-- Whatever stands between two versions of a range is in the range. -/
theorem Range.contains_of_between (h : OneMarker versions) {r : Range}
    (hbounds : ∀ b ∈ r.bounds, b.version ∈ versions) (hu : u ∈ versions) (hv : v ∈ versions)
    (hw : w ∈ versions) (huv : (order u v).isLE = true) (hvw : (order v w).isLE = true)
    (hcontains : r.contains u = true) (hcontains' : r.contains w = true) :
    r.contains v = true := by
  unfold contains at hcontains hcontains' ⊢
  rw [Bool.and_eq_true, Option.all_eq_true, Option.all_eq_true] at hcontains hcontains' ⊢
  constructor
  · intro b hb
    have hmem : b ∈ r.bounds := List.mem_append_left _ (Option.mem_toList.2 hb)
    exact b.admitsAbove_of_isLE h (hbounds b hmem) hu hv huv (hcontains.1 b hb)
  · intro b hb
    have hmem : b ∈ r.bounds := List.mem_append_right _ (Option.mem_toList.2 hb)
    exact b.admitsBelow_of_isLE h (hbounds b hmem) hv hw hvw (hcontains'.2 b hb)

/-- Whatever stands between two versions that an interval accepts is accepted. -/
theorem Selector.accepts_of_between (h : OneMarker versions) {s : Selector}
    (hs : s.isInterval = true) (hbounds : ∀ b ∈ s.boundVersions, b ∈ versions)
    (hu : u ∈ versions) (hv : v ∈ versions) (hw : w ∈ versions) (huv : (order u v).isLE = true)
    (hvw : (order v w).isLE = true) (haccepts : s.accepts u = true)
    (haccepts' : s.accepts w = true) : s.accepts v = true := by
  cases s with
  | exact t => cases hs
  | range r =>
    have hrange : ∀ b ∈ r.bounds, b.version ∈ versions :=
      fun b hb => hbounds _ (List.mem_map_of_mem hb)
    exact r.contains_of_between h hrange hu hv hw huv hvw haccepts haccepts'
  | startingWith t => cases hs
  | latest => rfl

end Intervals

end VariantGraph
