import VariantGraph.Proofs.Version.Order

/-!
# Where the order of versions goes round in a circle

Reversing a comparison reverses its answer, and only a version is equal to itself. But the order is
not transitive: a version that has ended cannot tell two release markers apart, and what follows the
markers may put it between the two the wrong way round. `1-release-x` is below `1`, `1` is below
`1-ga`, and `1-ga` is below `1-release-x`. The order fails to be total in this way only: of three
versions each of which stands below the next one, one has ended where the other two carry different
markers.

Main statement: `Version.order_total_iff`.
-/

namespace VariantGraph.Version

open Std

/-! ## Comparing what stands at one place -/

/-- The rank of what stands at one place, with the markers told apart. -/
def rankAt : Option Part → Nat
  | none => 0
  | some (.text q) => q.rank + 1
  | some (.number _) => 9

/-- The order of what two versions have at one place where neither has ended. -/
def strictAt : Option Part → Option Part → Ordering :=
  compareLex (compareOn rankAt) (compareLex (compareOn size) (compareOn tieText))

instance : TransCmp strictAt :=
  inferInstanceAs
    (TransCmp (compareLex (compareOn rankAt) (compareLex (compareOn size) (compareOn tieText))))

theorem orderAt_eq_strictAt (p q : Part) :
    orderAt (some p) (some q) = strictAt (some p) (some q) := by
  cases p with
  | number a =>
    cases q with
    | number b => rfl
    | text q => cases q <;> rfl
  | text p =>
    cases q with
    | number b => cases p <;> rfl
    | text q => cases p <;> cases q <;> rfl

instance : OrientedCmp orderAt where
  eq_swap {a b} := by
    cases a with
    | none => cases b <;> rfl
    | some p =>
      cases b with
      | none => simp [orderAt]
      | some q =>
        rw [orderAt_eq_strictAt, orderAt_eq_strictAt,
          @OrientedCmp.eq_swap _ strictAt _ (some p) (some q)]

/-- Two versions carry different markers at one place. -/
def ApartAt (a b : Option Part) : Prop :=
  ∃ p q, a = some p ∧ b = some q ∧ p.isMarker = true ∧ q.isMarker = true ∧ p ≠ q

theorem Part.isMarker_iff {p : Part} : p.isMarker = true ↔
    p = .text .final ∨ p = .text .ga ∨ p = .text .release := by
  cases p with
  | number digits => simp [isMarker]
  | text q => cases q <;> simp [isMarker]

/-- Different markers are told apart. -/
theorem orderAt_ne_eq_of_apartAt {a b : Option Part} (h : ApartAt a b) : orderAt a b ≠ .eq := by
  obtain ⟨p, q, rfl, rfl, hp, hq, hne⟩ := h
  rcases Part.isMarker_iff.1 hp with rfl | rfl | rfl <;>
    rcases Part.isMarker_iff.1 hq with rfl | rfl | rfl <;>
    first | exact absurd rfl hne | decide

theorem orderAt_eq_steadyAt_of_not_apartAt {a b : Option Part} (h : ¬ ApartAt a b) :
    orderAt a b = steadyAt a b := by
  cases a with
  | none =>
    cases b with
    | none => rfl
    | some q => exact orderAt_none_eq_steadyAt q
  | some p =>
    cases b with
    | none => exact orderAt_eq_steadyAt_none p
    | some q =>
      refine orderAt_eq_steadyAt fun hp hq => ?_
      by_contra hne
      exact h ⟨p, q, rfl, rfl, hp, hq, hne⟩

/-- One of three versions has ended at a place where the other two carry different markers. -/
def ForkAt (a b c : Option Part) : Prop :=
  (a = none ∧ ApartAt b c) ∨ (b = none ∧ ApartAt a c) ∨ (c = none ∧ ApartAt a b)

/-- Three versions without a fork at a place are ordered steadily there. -/
theorem exists_transCmp_of_not_forkAt {a b c : Option Part} (h : ¬ ForkAt a b c) :
    ∃ cmp : Option Part → Option Part → Ordering,
      TransCmp cmp ∧ orderAt a b = cmp a b ∧ orderAt b c = cmp b c ∧ orderAt a c = cmp a c := by
  by_cases hsome : (∃ p q r, a = some p ∧ b = some q ∧ c = some r)
  · obtain ⟨p, q, r, rfl, rfl, rfl⟩ := hsome
    exact ⟨strictAt, inferInstance, orderAt_eq_strictAt p q, orderAt_eq_strictAt q r,
      orderAt_eq_strictAt p r⟩
  · have hab : ¬ ApartAt a b := by
      rintro ⟨p, q, rfl, rfl, hrest⟩
      cases c with
      | none => exact h (.inr (.inr ⟨rfl, p, q, rfl, rfl, hrest⟩))
      | some r => exact hsome ⟨p, q, r, rfl, rfl, rfl⟩
    have hbc : ¬ ApartAt b c := by
      rintro ⟨q, r, rfl, rfl, hrest⟩
      cases a with
      | none => exact h (.inl ⟨rfl, q, r, rfl, rfl, hrest⟩)
      | some p => exact hsome ⟨p, q, r, rfl, rfl, rfl⟩
    have hac : ¬ ApartAt a c := by
      rintro ⟨p, r, rfl, rfl, hrest⟩
      cases b with
      | none => exact h (.inr (.inl ⟨rfl, p, r, rfl, rfl, hrest⟩))
      | some q => exact hsome ⟨p, q, r, rfl, rfl, rfl⟩
    exact ⟨steadyAt, inferInstance, orderAt_eq_steadyAt_of_not_apartAt hab,
      orderAt_eq_steadyAt_of_not_apartAt hbc, orderAt_eq_steadyAt_of_not_apartAt hac⟩

/-! ## Forks -/

/-- A place at which the first of three versions has ended and the other two carry different
markers, the second one the lower of them. No two of the three differ before it. -/
structure Forks (es xs ys : List Part) (i : Nat) : Prop where
  left : ∀ k < i, orderAt es[k]? xs[k]? = .eq
  right : ∀ k < i, orderAt es[k]? ys[k]? = .eq
  across : ∀ k < i, orderAt xs[k]? ys[k]? = .eq
  ended : es[i]? = none
  apart : ApartAt xs[i]? ys[i]?
  lower : orderAt xs[i]? ys[i]? = .lt

section Forks

variable {es xs ys : List Part} {i : Nat}

theorem getElem?_tail (l : List Part) (k : Nat) : l.tail[k]? = l[k + 1]? := by
  cases l <;> simp

/-- A fork behind a place where no two of the three differ. -/
theorem Forks.of_tail (h : Forks es.tail xs.tail ys.tail i)
    (hleft : orderAt es.head? xs.head? = .eq) (hright : orderAt es.head? ys.head? = .eq)
    (hacross : orderAt xs.head? ys.head? = .eq) : Forks es xs ys (i + 1) where
  left k hk := by
    cases k with
    | zero => rwa [← List.head?_eq_getElem?, ← List.head?_eq_getElem?]
    | succ k => simpa [getElem?_tail] using h.left k (by omega)
  right k hk := by
    cases k with
    | zero => rwa [← List.head?_eq_getElem?, ← List.head?_eq_getElem?]
    | succ k => simpa [getElem?_tail] using h.right k (by omega)
  across k hk := by
    cases k with
    | zero => rwa [← List.head?_eq_getElem?, ← List.head?_eq_getElem?]
    | succ k => simpa [getElem?_tail] using h.across k (by omega)
  ended := by simpa [getElem?_tail] using h.ended
  apart := by simpa [getElem?_tail] using h.apart
  lower := by simpa [getElem?_tail] using h.lower

/-- At a fork the two that have not ended are told apart. -/
theorem Forks.of_apartAt {as bs cs : List Part} (hnone : as.head? = none)
    (happart : ApartAt bs.head? cs.head?) (hlower : orderAt bs.head? cs.head? = .lt) :
    Forks as bs cs 0 where
  left k hk := absurd hk (Nat.not_lt_zero k)
  right k hk := absurd hk (Nat.not_lt_zero k)
  across k hk := absurd hk (Nat.not_lt_zero k)
  ended := by rwa [← List.head?_eq_getElem?]
  apart := by rwa [← List.head?_eq_getElem?, ← List.head?_eq_getElem?]
  lower := by rwa [← List.head?_eq_getElem?, ← List.head?_eq_getElem?]

end Forks

/-- Three lists of parts fork somewhere, in one of the three orders that agree with each of them
standing below the next one. -/
def ForkSomewhere (as bs cs : List Part) : Prop :=
  ∃ i, Forks as bs cs i ∨ Forks bs cs as i ∨ Forks cs as bs i

theorem orderParts_eq_then (as bs : List Part) : orderParts as bs
    = (orderAt as.head? bs.head?).then (orderParts as.tail bs.tail) := by
  rw [orderParts_eq_comparePlaces, orderParts_eq_comparePlaces, comparePlaces_eq_then]

theorem lt_of_isLE_then {x y : Ordering} (hne : x ≠ .eq) (h : (x.then y).isLE = true) :
    x = .lt := by
  cases x <;> simp_all

/-- Where three lists of parts fork at once, the third is not below the first or they go round. -/
theorem isLE_or_forks_of_forkAt {as bs cs : List Part} {x y z : Ordering}
    (hfork : ForkAt as.head? bs.head? cs.head?)
    (hab : ((orderParts as bs).then x).isLE = true)
    (hbc : ((orderParts bs cs).then y).isLE = true) :
    ((orderParts as cs).then z).isLE = true ∨ ForkSomewhere as bs cs := by
  rw [orderParts_eq_then, Ordering.then_assoc] at hab hbc
  rcases hfork with ⟨hnone, happart⟩ | ⟨hnone, happart⟩ | ⟨hnone, happart⟩
  · have hlt := lt_of_isLE_then (orderAt_ne_eq_of_apartAt happart) hbc
    exact .inr ⟨0, .inl (.of_apartAt hnone happart hlt)⟩
  · cases hac : orderAt as.head? cs.head? with
    | lt =>
      rw [orderParts_eq_then, hac]
      exact .inl rfl
    | eq => exact absurd hac (orderAt_ne_eq_of_apartAt happart)
    | gt =>
      obtain ⟨p, q, hp, hq, hpm, hqm, hne⟩ := happart
      exact .inr ⟨0, .inr (.inl (.of_apartAt hnone ⟨q, p, hq, hp, hqm, hpm, hne.symm⟩
        (OrientedCmp.lt_of_gt hac)))⟩
  · have hlt := lt_of_isLE_then (orderAt_ne_eq_of_apartAt happart) hab
    exact .inr ⟨0, .inr (.inr (.of_apartAt hnone happart hlt))⟩

/-- Lists of parts that do not fork are ordered transitively, together with any comparison that goes
on where they do not differ. -/
theorem isLE_or_forkSomewhere {as bs cs : List Part} {x y z : Ordering}
    (htie : x.isLE = true → y.isLE = true → z.isLE = true)
    (hab : ((orderParts as bs).then x).isLE = true)
    (hbc : ((orderParts bs cs).then y).isLE = true) :
    ((orderParts as cs).then z).isLE = true ∨ ForkSomewhere as bs cs := by
  -- all three lists lose their first place at once
  induction hn : as.length + bs.length + cs.length using Nat.strong_induction_on
    generalizing as bs cs with
  | _ n ih =>
    by_cases hnil : as = [] ∧ bs = [] ∧ cs = []
    · obtain ⟨rfl, rfl, rfl⟩ := hnil
      rw [orderParts] at hab hbc ⊢
      exact .inl (htie hab hbc)
    by_cases hfork : ForkAt as.head? bs.head? cs.head?
    · exact isLE_or_forks_of_forkAt hfork hab hbc
    obtain ⟨cmp, hcmp, h1, h2, h3⟩ := exists_transCmp_of_not_forkAt hfork
    have hshorter : as.tail.length + bs.tail.length + cs.tail.length < n := by
      rw [← hn]
      cases as <;> cases bs <;> cases cs <;> simp at hnil ⊢ <;> omega
    rw [orderParts_eq_then, Ordering.then_assoc, Ordering.isLE_then_iff_or] at hab hbc
    rw [orderParts_eq_then, Ordering.then_assoc, Ordering.isLE_then_iff_or]
    rw [h1] at hab
    rw [h2] at hbc
    rw [h3]
    rcases hab with hab | ⟨hab, hab'⟩
    · rcases hbc with hbc | ⟨hbc, -⟩
      · exact .inl (.inl (TransCmp.lt_trans hab hbc))
      · exact .inl (.inl (TransCmp.lt_of_lt_of_eq hab hbc))
    rcases hbc with hbc | ⟨hbc, hbc'⟩
    · exact .inl (.inl (TransCmp.lt_of_eq_of_lt hab hbc))
    have hac := TransCmp.eq_trans hab hbc
    rcases ih _ hshorter hab' hbc' rfl with hle | ⟨i, hi⟩
    · exact .inl (.inr ⟨hac, hle⟩)
    · refine .inr ⟨i + 1, ?_⟩
      rw [← h1] at hab
      rw [← h2] at hbc
      rw [← h3] at hac
      rcases hi with hi | hi | hi
      · exact .inl (hi.of_tail hab hac hbc)
      · exact .inr (.inl (hi.of_tail hbc (OrientedCmp.eq_symm hab) (OrientedCmp.eq_symm hac)))
      · exact .inr (.inr (hi.of_tail (OrientedCmp.eq_symm hac) (OrientedCmp.eq_symm hbc) hab))

/-! ## Circles -/

/-- The first place where two lists of parts may differ decides, and then what follows it. -/
theorem orderParts_eq_then_drop {as bs : List Part} {i : Nat}
    (h : ∀ k < i, orderAt as[k]? bs[k]? = .eq) : orderParts as bs
      = (orderAt as[i]? bs[i]?).then (orderParts (as.drop (i + 1)) (bs.drop (i + 1))) := by
  induction i generalizing as bs with
  | zero =>
    rw [orderParts_eq_then, List.head?_eq_getElem?, List.head?_eq_getElem?, List.drop_one,
      List.drop_one]
  | succ i ih =>
    have hhead := h 0 (Nat.succ_pos i)
    rw [← List.head?_eq_getElem?, ← List.head?_eq_getElem?] at hhead
    have htail : ∀ k < i, orderAt as.tail[k]? bs.tail[k]? = .eq := by
      intro k hk
      rw [getElem?_tail, getElem?_tail]
      exact h (k + 1) (Nat.succ_lt_succ hk)
    rw [orderParts_eq_then, hhead, Ordering.eq_then, ih htail, getElem?_tail, getElem?_tail,
      List.drop_tail, List.drop_tail]

/-- How a version stands to one that has ended at a place, by what follows that place. -/
def goesOn (v ended : String) (i : Nat) : Ordering :=
  (orderParts ((parts v).drop (i + 1)) []).then (compare v ended)

/-- Three versions fork: the first has ended where the other two carry different markers. What
follows the lower marker is above the first version, and what follows the higher one is below it. -/
def CircleFrom (e x y : String) : Prop :=
  ∃ i, Forks (parts e) (parts x) (parts y) i ∧ goesOn x e i = .gt ∧ goesOn y e i = .lt

/-- Three versions go round in a circle, each of them below the next one. -/
def InCircle (a b c : String) : Prop := CircleFrom a b c ∨ CircleFrom b c a ∨ CircleFrom c a b

theorem orderAt_eq_of_apartAt {a b : Option Part} (h : ApartAt a b) :
    orderAt a none = .eq ∧ orderAt b none = .eq := by
  obtain ⟨p, q, rfl, rfl, hp, hq, -⟩ := h
  constructor
  · rcases Part.isMarker_iff.1 hp with rfl | rfl | rfl <;> rfl
  · rcases Part.isMarker_iff.1 hq with rfl | rfl | rfl <;> rfl

section Circles

variable {a b c e x y : String} {i : Nat}

/-- What follows the markers of a fork decides how they stand to the version that has ended. -/
theorem Forks.order_eq_goesOn (h : Forks (parts e) (parts x) (parts y) i) :
    order x e = goesOn x e i ∧ order y e = goesOn y e i := by
  have hended : (parts e).drop (i + 1) = [] :=
    List.drop_eq_nil_of_le (Nat.le_succ_of_le (List.getElem?_eq_none_iff.1 h.ended))
  obtain ⟨hx, hy⟩ := orderAt_eq_of_apartAt h.apart
  constructor
  · rw [order, orderParts_eq_then_drop fun k hk => OrientedCmp.eq_symm (h.left k hk), h.ended, hx,
      Ordering.eq_then, hended, goesOn]
  · rw [order, orderParts_eq_then_drop fun k hk => OrientedCmp.eq_symm (h.right k hk), h.ended, hy,
      Ordering.eq_then, hended, goesOn]

/-- The version with the lower marker of a fork is below the one with the higher marker. -/
theorem Forks.order_eq_lt (h : Forks (parts e) (parts x) (parts y) i) : order x y = .lt := by
  rw [order, orderParts_eq_then_drop h.across, h.lower, Ordering.lt_then, Ordering.lt_then]

instance : OrientedCmp order where
  eq_swap {a b} := by
    rw [order, order, orderParts_eq_comparePlaces, orderParts_eq_comparePlaces,
      Ordering.swap_then, @OrientedCmp.eq_swap _ (comparePlaces orderAt) _ (parts a) (parts b),
      OrientedOrd.eq_swap (a := a)]

theorem order_eq_eq_iff : order a b = .eq ↔ a = b := by
  constructor
  · intro h
    exact LawfulEqOrd.eq_of_compare (Ordering.then_eq_eq.1 h).2
  · rintro rfl
    exact ReflCmp.compare_self

theorem CircleFrom.order_eq_lt (h : CircleFrom e x y) :
    order e x = .lt ∧ order x y = .lt ∧ order y e = .lt := by
  obtain ⟨i, hfork, hx, hy⟩ := h
  obtain ⟨hxe, hye⟩ := hfork.order_eq_goesOn
  exact ⟨OrientedCmp.lt_of_gt (hxe.trans hx), hfork.order_eq_lt, hye.trans hy⟩

/-- Versions that each stand below the next one, the last one below the first, fork. -/
theorem inCircle_iff :
    InCircle a b c ↔ order a b = .lt ∧ order b c = .lt ∧ order c a = .lt := by
  constructor
  · rintro (h | h | h)
    · exact h.order_eq_lt
    · obtain ⟨hbc, hca, hab⟩ := h.order_eq_lt
      exact ⟨hab, hbc, hca⟩
    · obtain ⟨hca, hab, hbc⟩ := h.order_eq_lt
      exact ⟨hab, hbc, hca⟩
  · rintro ⟨hab, hbc, hca⟩
    have hfork : (order a c).isLE = true ∨ ForkSomewhere (parts a) (parts b) (parts c) :=
      isLE_or_forkSomewhere TransOrd.isLE_trans (Ordering.isLE_of_eq_lt hab)
        (Ordering.isLE_of_eq_lt hbc)
    rcases hfork with hle | ⟨i, hi | hi | hi⟩
    · exact absurd (OrientedCmp.gt_of_lt hca) (Ordering.isLE_iff_ne_gt.1 hle)
    · obtain ⟨hba, hca'⟩ := hi.order_eq_goesOn
      exact .inl ⟨i, hi, hba.symm.trans (OrientedCmp.gt_of_lt hab), hca'.symm.trans hca⟩
    · obtain ⟨hcb, hab'⟩ := hi.order_eq_goesOn
      exact .inr (.inl ⟨i, hi, hcb.symm.trans (OrientedCmp.gt_of_lt hbc), hab'.symm.trans hab⟩)
    · obtain ⟨hac, hbc'⟩ := hi.order_eq_goesOn
      exact .inr (.inr ⟨i, hi, hac.symm.trans (OrientedCmp.gt_of_lt hca), hbc'.symm.trans hbc⟩)

end Circles

/-- The order of versions is total up to circles. Reversing a comparison reverses its answer, only
equal texts compare as equal, and a version that is at most as high as a second one is at most as
high as all that the second one is at most as high as, unless the three go round in a circle. -/
theorem order_total_iff (a b c : String) :
    order b a = (order a b).swap ∧ (order a b = .eq ↔ a = b) ∧
      ((order a b).isLE = true → (order b c).isLE = true →
        ((order a c).isLE = true ↔ ¬ InCircle a b c)) := by
  refine ⟨OrientedCmp.eq_swap, order_eq_eq_iff, fun hab hbc => ?_⟩
  rw [inCircle_iff, Ordering.isLE_iff_ne_gt, not_iff_not]
  constructor
  · intro hac
    have hne : a ≠ b := by
      rintro rfl
      rw [hac] at hbc
      cases hbc
    have hne' : b ≠ c := by
      rintro rfl
      rw [hac] at hab
      cases hab
    refine ⟨?_, ?_, OrientedCmp.lt_of_gt hac⟩
    · exact (Ordering.isLE_iff_eq_lt_or_eq_eq.1 hab).resolve_right fun h =>
        hne (order_eq_eq_iff.1 h)
    · exact (Ordering.isLE_iff_eq_lt_or_eq_eq.1 hbc).resolve_right fun h =>
        hne' (order_eq_eq_iff.1 h)
  · rintro ⟨-, -, hca⟩
    exact OrientedCmp.gt_of_lt hca

/-- `1-release-x`, `1` and `1-ga` go round in a circle. -/
theorem order_total_iff_markers :
    (order "1-release-x" "1").isLE = true ∧ (order "1" "1-ga").isLE = true ∧
      (order "1-release-x" "1-ga").isLE = false ∧ InCircle "1-release-x" "1" "1-ga" := by
  have hab : (order "1-release-x" "1").isLE = true := by decide +kernel
  have hbc : (order "1" "1-ga").isLE = true := by decide +kernel
  have hac : (order "1-release-x" "1-ga").isLE = false := by decide +kernel
  have hiff := (order_total_iff "1-release-x" "1" "1-ga").2.2 hab hbc
  rw [hac] at hiff
  exact ⟨hab, hbc, hac, not_not.1 fun h => absurd (hiff.2 h) Bool.false_ne_true⟩

end VariantGraph.Version
