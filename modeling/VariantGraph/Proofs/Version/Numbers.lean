import Mathlib.Algebra.Group.Nat.Defs
import VariantGraph.Version

/-!
# The numeric parts of a version

A numeric part is kept as its digits without leading zeros, and such numerals compare by their number
of digits and then as text. This is the comparison of the numbers that they denote, whatever their
size: a numeral of more digits is at least as large as the power of ten that no shorter one reaches,
and among equally many digits the first one that differs decides.

Main statement: `Version.orderDigits_stripZeros`.
-/

namespace VariantGraph.Version

open VariantGraph.Text

/-! ## The number that digits denote -/

variable {a b s : List Char} {c : Char}

theorem isDigit_bounds (hc : isDigit c = true) : c.toNat - '0'.toNat ≤ 9 ∧ '0'.toNat ≤ c.toNat := by
  unfold isDigit at hc
  rw [Bool.and_eq_true, decide_eq_true_eq, decide_eq_true_eq] at hc
  have hlow : '0'.toNat ≤ c.toNat := hc.1
  have hhigh : c.toNat ≤ '9'.toNat := hc.2
  have hten : '9'.toNat - '0'.toNat = 9 := by decide
  omega

theorem digitsValue_cons : digitsValue (c :: s)
    = 10 ^ s.length * (c.toNat - '0'.toNat) + digitsValue s := by
  have hcons : digitsValue (c :: s) = Nat.ofDigitChars 10 s (c.toNat - '0'.toNat) := by
    simp [digitsValue, Nat.ofDigitChars_eq_foldl]
  rw [hcons, Nat.ofDigitChars_eq_ofDigitChars_zero]
  rfl

theorem digitsValue_lt (h : ∀ x ∈ s, isDigit x = true) : digitsValue s < 10 ^ s.length := by
  induction s with
  | nil => decide
  | cons c s ih =>
    obtain ⟨hc, hs⟩ := List.forall_mem_cons.1 h
    have hdigit := Nat.mul_le_mul_left (10 ^ s.length) (isDigit_bounds hc).1
    have hrest := ih hs
    rw [digitsValue_cons, List.length_cons, Nat.pow_succ]
    omega

/-- Of equally many digits the text is less where the number is. -/
theorem lt_iff_digitsValue_lt (ha : ∀ x ∈ a, isDigit x = true) (hb : ∀ x ∈ b, isDigit x = true)
    (hlength : a.length = b.length) : a < b ↔ digitsValue a < digitsValue b := by
  induction a generalizing b with
  | nil =>
    obtain rfl := List.length_eq_zero_iff.1 hlength.symm
    simp
  | cons c a ih =>
    obtain ⟨d, b, rfl⟩ := List.exists_cons_of_length_eq_add_one hlength.symm
    obtain ⟨hc, ha⟩ := List.forall_mem_cons.1 ha
    obtain ⟨hd, hb⟩ := List.forall_mem_cons.1 hb
    have hlength : a.length = b.length := Nat.succ.inj hlength
    have hla := digitsValue_lt ha
    have hlb := digitsValue_lt hb
    have hzero := (isDigit_bounds hc).2
    have hzero' := (isDigit_bounds hd).2
    rw [List.cons_lt_cons_iff, ih ha hb hlength, digitsValue_cons, digitsValue_cons, hlength]
    rw [hlength] at hla
    -- the first digit decides, as what follows is less than one unit of it
    rcases Nat.lt_trichotomy c.toNat d.toNat with hlt | heq | hgt
    · have hunit := Nat.mul_le_mul_left (10 ^ b.length)
        (show c.toNat - '0'.toNat + 1 ≤ d.toNat - '0'.toNat by omega)
      rw [Nat.mul_add, Nat.mul_one] at hunit
      have hless : c < d := hlt
      exact iff_of_true (.inl hless) (by omega)
    · obtain rfl := Char.toNat_inj.1 heq
      simp
    · have hunit := Nat.mul_le_mul_left (10 ^ b.length)
        (show d.toNat - '0'.toNat + 1 ≤ c.toNat - '0'.toNat by omega)
      rw [Nat.mul_add, Nat.mul_one] at hunit
      have hnot : ¬ c < d := Nat.lt_asymm hgt
      have hne : c ≠ d := fun h => Nat.lt_irrefl _ (h ▸ hgt)
      exact iff_of_false (by simp [hnot, hne]) (by omega)

theorem eq_iff_digitsValue_eq (ha : ∀ x ∈ a, isDigit x = true) (hb : ∀ x ∈ b, isDigit x = true)
    (hlength : a.length = b.length) : a = b ↔ digitsValue a = digitsValue b := by
  constructor
  · rintro rfl
    rfl
  · intro h
    have hnot : ¬ a < b := by
      rw [lt_iff_digitsValue_lt ha hb hlength]
      omega
    have hnot' : ¬ b < a := by
      rw [lt_iff_digitsValue_lt hb ha hlength.symm]
      omega
    exact List.le_antisymm (List.not_lt.1 hnot') (List.not_lt.1 hnot)

/-- Equally many digits compare as text like the numbers that they denote. -/
theorem compare_ofList (ha : ∀ x ∈ a, isDigit x = true) (hb : ∀ x ∈ b, isDigit x = true)
    (hlength : a.length = b.length) :
    compare (String.ofList a) (String.ofList b) = compare (digitsValue a) (digitsValue b) := by
  have hlt : String.ofList a < String.ofList b ↔ digitsValue a < digitsValue b := by
    rw [String.lt_iff, String.toList_ofList, String.toList_ofList,
      lt_iff_digitsValue_lt ha hb hlength]
  have heq : String.ofList a = String.ofList b ↔ digitsValue a = digitsValue b := by
    rw [String.ofList_inj, eq_iff_digitsValue_eq ha hb hlength]
  show compareOfLessAndEq _ _ = compareOfLessAndEq _ _
  simp only [compareOfLessAndEq, hlt, heq]

/-! ## Numerals -/

/-- Digits without leading zeros. -/
structure IsNumeral (s : List Char) : Prop where
  ne_nil : s ≠ []
  digits : ∀ c ∈ s, isDigit c = true
  head : s.head? = some '0' → s = ['0']

theorem isNumeral_stripZeros (h : ∀ c ∈ s, isDigit c = true) : IsNumeral (Part.stripZeros s) := by
  unfold Part.stripZeros
  split
  · exact ⟨by simp, List.all_eq_true.1 rfl, fun _ => rfl⟩
  · next hne =>
    refine ⟨hne, fun c hc => h c ((List.dropWhile_sublist _).subset hc), fun hhead => ?_⟩
    have hfirst := List.head?_dropWhile_not (· == '0') s
    rw [hhead] at hfirst
    simp at hfirst

theorem digitsValue_dropWhile (s : List Char) :
    digitsValue (s.dropWhile (· == '0')) = digitsValue s := by
  induction s with
  | nil => rfl
  | cons c s ih =>
    by_cases hc : c = '0'
    · subst hc
      rw [List.dropWhile_cons_of_pos (by decide), ih, digitsValue_cons]
      simp
    · rw [List.dropWhile_cons_of_neg (by simpa using hc)]

theorem digitsValue_stripZeros (s : List Char) :
    digitsValue (Part.stripZeros s) = digitsValue s := by
  rw [← digitsValue_dropWhile s]
  unfold Part.stripZeros
  split
  · next h =>
    rw [h]
    rfl
  · rfl

/-- A numeral of more than one digit is as large as its first place. -/
theorem IsNumeral.pow_le (h : IsNumeral s) {n : Nat} (hs : s.length = n + 2) :
    10 ^ (n + 1) ≤ digitsValue s := by
  obtain ⟨c, rest, rfl⟩ := List.exists_cons_of_ne_nil h.ne_nil
  have hrest : rest.length = n + 1 := Nat.succ.inj hs
  have hne : c ≠ '0' := by
    rintro rfl
    have hone := congrArg List.length (h.head rfl)
    simp [hrest] at hone
  have hzero := (isDigit_bounds (h.digits c List.mem_cons_self)).2
  have hpos : 1 ≤ c.toNat - '0'.toNat := by
    have hne : c.toNat ≠ '0'.toNat := fun heq => hne (Char.toNat_inj.1 heq)
    omega
  have hfirst := Nat.mul_le_mul_left (10 ^ rest.length) hpos
  rw [digitsValue_cons]
  rw [hrest, Nat.mul_one] at hfirst
  rw [hrest]
  omega

/-- A numeral of fewer digits denotes the smaller number. -/
theorem IsNumeral.digitsValue_lt_of_length_lt (ha : IsNumeral a) (hb : IsNumeral b)
    (h : a.length < b.length) : digitsValue a < digitsValue b := by
  have hpos : 0 < a.length := List.length_pos_iff.2 ha.ne_nil
  obtain ⟨n, hn⟩ : ∃ n, b.length = n + 2 := ⟨b.length - 2, by omega⟩
  calc digitsValue a < 10 ^ a.length := digitsValue_lt ha.digits
    _ ≤ 10 ^ (n + 1) := Nat.pow_le_pow_right (by decide) (by omega)
    _ ≤ digitsValue b := hb.pow_le hn

theorem IsNumeral.orderDigits_eq (ha : IsNumeral a) (hb : IsNumeral b) :
    Part.orderDigits a b = compare (digitsValue a) (digitsValue b) := by
  unfold Part.orderDigits
  rcases Nat.lt_trichotomy a.length b.length with h | h | h
  · rw [Nat.compare_eq_lt.2 h, Nat.compare_eq_lt.2 (ha.digitsValue_lt_of_length_lt hb h)]
    rfl
  · rw [Nat.compare_eq_eq.2 h, Ordering.eq_then, compare_ofList ha.digits hb.digits h]
  · rw [Nat.compare_eq_gt.2 h, Nat.compare_eq_gt.2 (hb.digitsValue_lt_of_length_lt ha h)]
    rfl

/-- Digits compare, without their leading zeros, as the numbers that they denote. -/
theorem orderDigits_stripZeros (ha : ∀ c ∈ a, isDigit c = true) (hb : ∀ c ∈ b, isDigit c = true) :
    Part.orderDigits (Part.stripZeros a) (Part.stripZeros b)
      = compare (digitsValue a) (digitsValue b) := by
  rw [(isNumeral_stripZeros ha).orderDigits_eq (isNumeral_stripZeros hb), digitsValue_stripZeros,
    digitsValue_stripZeros]

end VariantGraph.Version
