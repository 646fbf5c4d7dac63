import VariantGraph.Json.Printer
import VariantGraph.Json.Fields

/-!
# Integers as JSON numbers

An integer is written as its decimal notation. A reader finds the end of the notation again,
provided that no character follows that could belong to a number, and reads the same integer.
Integers of at most 64 bits are in the range of doubles.

Main statements: `Number.scan_toString`, `Number.integer?_toString`,
`Number.fitsDoubleByParts_toString`.
-/

namespace VariantGraph.Json.Number

open VariantGraph.Text

/-! ## Decimal digits -/

theorem isDigit_of_mem_toDigits {n : Nat} {c : Char} (h : c ∈ Nat.toDigits 10 n) :
    isDigit c = true :=
  Nat.isDigit_of_mem_toDigits (by decide) (by decide) h

theorem ne_of_isDigit {c d : Char} (hc : isDigit c = true) (hd : isDigit d = false) : c ≠ d := by
  rintro rfl
  rw [hc] at hd
  cases hd

/-- The notation of a positive number does not start with a zero. -/
theorem head?_toDigits_ne_zero {n : Nat} (h : 0 < n) : (Nat.toDigits 10 n).head? ≠ some '0' := by
  induction n using Nat.strongRecOn with
  | ind n ih =>
    rw [Nat.toDigits_eq_if (by decide)]
    split
    · next hlt =>
      have hall : ∀ m < 10, 0 < m → [m.digitChar].head? ≠ some '0' := by decide
      exact hall n hlt h
    · next hge =>
      have hhead : (Nat.toDigits 10 (n / 10)).head? ≠ some '0' := ih (n / 10) (by omega) (by omega)
      cases hs : Nat.toDigits 10 (n / 10) with
      | nil => exact absurd hs Nat.toDigits_ne_nil
      | cons c s => rwa [hs] at hhead

theorem readDigits?_toDigits (n : Nat) : readDigits? (Nat.toDigits 10 n) = some n := by
  have hdigits : (Nat.toDigits 10 n).all isDigit = true :=
    List.all_eq_true.2 fun c hc => isDigit_of_mem_toDigits hc
  have hvalue : digitsValue (Nat.toDigits 10 n) = n := Nat.ofDigitChars_ten_toDigits
  rw [readDigits?, hdigits, hvalue, if_neg]
  simp [Nat.toDigits_ne_nil]

/-! ## The end of a number -/

/-- No character follows that could belong to a number. -/
def Ends (rest : List Char) : Prop :=
  ∀ c ∈ rest.head?, isDigit c = false ∧ c ≠ '.' ∧ c ≠ 'e' ∧ c ≠ 'E'

section Scanning

variable {rest : List Char}

theorem scanDigits_append {s : List Char} (hs : ∀ c ∈ s, isDigit c = true) (h : Ends rest) :
    scanDigits (s ++ rest) = (s, rest) := by
  have hstop : rest.takeWhile isDigit = [] ∧ rest.dropWhile isDigit = rest := by
    cases rest with
    | nil => exact ⟨rfl, rfl⟩
    | cons c rest =>
      have hc := (h c rfl).1
      exact ⟨List.takeWhile_cons_of_neg (by simp [hc]), List.dropWhile_cons_of_neg (by simp [hc])⟩
  rw [scanDigits, List.takeWhile_append_of_pos hs, List.dropWhile_append_of_pos hs, hstop.1,
    hstop.2, List.append_nil]

theorem scanInteger_toDigits (n : Nat) (h : Ends rest) :
    scanInteger (Nat.toDigits 10 n ++ rest) = some (Nat.toDigits 10 n, rest) := by
  rcases Nat.eq_zero_or_pos n with rfl | hpos
  · rfl
  have hscan := scanDigits_append (fun c hc => isDigit_of_mem_toDigits (n := n) hc) h
  have hzero := head?_toDigits_ne_zero hpos
  cases hs : Nat.toDigits 10 n with
  | nil => exact absurd hs Nat.toDigits_ne_nil
  | cons c s =>
    have hc : isDigit c = true := isDigit_of_mem_toDigits (hs ▸ List.mem_cons_self)
    rw [hs] at hzero hscan
    have hne : c ≠ '0' := fun heq => hzero (by rw [heq]; rfl)
    rw [List.cons_append] at hscan ⊢
    rw [scanInteger]
    · rw [if_pos hc, hscan]
    · exact fun heq => hne heq

theorem scanFraction_of_ends (h : Ends rest) : scanFraction rest = some ([], rest) := by
  rw [scanFraction]
  rintro tail rfl
  exact (h '.' rfl).2.1 rfl

theorem scanExponent_of_ends (h : Ends rest) : scanExponent rest = some ([], rest) := by
  rw [scanExponent]
  · rintro tail rfl
    exact (h 'e' rfl).2.2.1 rfl
  · rintro tail rfl
    exact (h 'E' rfl).2.2.2 rfl

theorem scanUnsigned_toDigits (n : Nat) (h : Ends rest) :
    scanUnsigned (Nat.toDigits 10 n ++ rest) = some (Nat.toDigits 10 n, rest) := by
  rw [scanUnsigned, scanInteger_toDigits n h, Option.bind_some, scanFraction_of_ends h,
    Option.bind_some, scanExponent_of_ends h, Option.map_some, List.append_nil, List.append_nil]

/-! ## Integers -/

theorem toList_toString_natCast (n : Nat) : (toString (n : Int)).toList = Nat.toDigits 10 n := by
  exact Nat.toList_repr

theorem toList_toString_negSucc (n : Nat) :
    (toString (Int.negSucc n)).toList = '-' :: Nat.toDigits 10 (n + 1) := by
  have h : toString (Int.negSucc n) = "-" ++ Nat.repr (n + 1) := rfl
  rw [h, String.toList_append, Nat.toList_repr]
  rfl

theorem scan_toDigits (n : Nat) (h : Ends rest) :
    scan (Nat.toDigits 10 n ++ rest) = some (Nat.toDigits 10 n, rest) := by
  rw [scan]
  · exact scanUnsigned_toDigits n h
  · intro tail heq
    cases hs : Nat.toDigits 10 n with
    | nil => exact Nat.toDigits_ne_nil hs
    | cons c s =>
      rw [hs, List.cons_append, List.cons.injEq] at heq
      have hc : isDigit c = true := isDigit_of_mem_toDigits (hs ▸ List.mem_cons_self)
      exact ne_of_isDigit hc (by decide) heq.1

/-- A written integer ends where it ends. -/
theorem scan_toString (i : Int) (h : Ends rest) :
    scan ((toString i).toList ++ rest) = some ((toString i).toList, rest) := by
  cases i with
  | ofNat n =>
    rw [Int.ofNat_eq_natCast, toList_toString_natCast]
    exact scan_toDigits n h
  | negSucc n =>
    rw [toList_toString_negSucc, List.cons_append, scan, scanUnsigned_toDigits _ h]
    rfl

end Scanning

theorem integer?_toDigits (n : Nat) : integer? (Nat.toDigits 10 n) = some (n : Int) := by
  rw [integer?]
  · rw [readDigits?_toDigits]
    rfl
  · intro tail heq
    have hc : isDigit '-' = true := isDigit_of_mem_toDigits (n := n) (heq ▸ List.mem_cons_self)
    cases hc

/-- Reading a written integer gives it back. -/
theorem integer?_toString (i : Int) : integer? (toString i).toList = some i := by
  cases i with
  | ofNat n =>
    rw [Int.ofNat_eq_natCast, toList_toString_natCast, integer?_toDigits]
  | negSucc n =>
    rw [toList_toString_negSucc, integer?, readDigits?_toDigits, Option.bind_some,
      if_neg (Nat.succ_ne_zero n)]
    rfl

theorem int64?_toString (i : Int64) : int64? (toString i.toInt) = some i := by
  have hmin : Int64.minValue.toInt ≤ i.toInt := Int64.minValue_le_toInt i
  have hmax : i.toInt ≤ Int64.maxValue.toInt := Int64.toInt_le i
  rw [int64?, integer?_toString, Option.bind_some, toInt64?, if_pos ⟨hmin, hmax⟩, Int64.ofInt_toInt]

theorem uint64?_toString (n : UInt64) : uint64? (toString (n.toNat : Int)) = some n := by
  have hlt : n.toNat < UInt64.size := n.toNat_lt_size
  rw [uint64?, integer?_toString, Option.bind_some, if_pos ⟨by omega, by omega⟩, Int.toNat_natCast,
    UInt64.ofNat_toNat]

/-! ## The range of doubles -/

theorem dropWhile_sign_toString (i : Int) :
    (toString i).toList.dropWhile (· == '-') = Nat.toDigits 10 i.natAbs := by
  have hdigits : ∀ n, (Nat.toDigits 10 n).dropWhile (· == '-') = Nat.toDigits 10 n := by
    intro n
    cases hs : Nat.toDigits 10 n with
    | nil => rfl
    | cons c s =>
      have hc : isDigit c = true := isDigit_of_mem_toDigits (hs ▸ List.mem_cons_self)
      exact List.dropWhile_cons_of_neg (by simpa using ne_of_isDigit hc (by decide))
  cases i with
  | ofNat n =>
    rw [Int.ofNat_eq_natCast, toList_toString_natCast, hdigits, Int.natAbs_natCast]
  | negSucc n =>
    rw [toList_toString_negSucc, List.dropWhile_cons_of_pos rfl, hdigits, Int.natAbs_negSucc]

/-- Digits alone are a decimal without fraction and exponent. -/
theorem ofChars_of_isDigit {s : List Char} (h : ∀ c ∈ s, isDigit c = true) :
    Decimal.ofChars s = ⟨s, [], 0⟩ := by
  have hmark : ∀ c ∈ s, (!(c == 'e' || c == 'E')) = true := by
    intro c hc
    have he : c ≠ 'e' := ne_of_isDigit (h c hc) (by decide)
    have hE : c ≠ 'E' := ne_of_isDigit (h c hc) (by decide)
    simp [he, hE]
  have hpoint : ∀ c ∈ s, (c != '.') = true := by
    intro c hc
    simpa using ne_of_isDigit (h c hc) (by decide)
  have htake : ∀ p : Char → Bool, (∀ c ∈ s, p c = true) →
      s.takeWhile p = s ∧ s.dropWhile p = [] := by
    intro p hp
    have htaken : (s ++ []).takeWhile p = s ++ [].takeWhile p := List.takeWhile_append_of_pos hp
    have hleft : (s ++ []).dropWhile p = [].dropWhile p := List.dropWhile_append_of_pos hp
    simpa using And.intro htaken hleft
  simp only [Decimal.ofChars, (htake _ hmark).1, (htake _ hmark).2, (htake _ hpoint).1,
    (htake _ hpoint).2, List.drop_nil, exponentOf]

theorem le_foldl_digits (s : List Char) (n : Nat) :
    n ≤ s.foldl (fun n c => 10 * n + (c.toNat - '0'.toNat)) n := by
  induction s generalizing n with
  | nil => exact Nat.le_refl n
  | cons c s ih =>
    rw [List.foldl_cons]
    exact Nat.le_trans (by omega) (ih _)

/-- All digits of a number of 64 bits fit. -/
theorem appendDigits_of_lt {s : List Char} {n : Nat}
    (h : s.foldl (fun n c => 10 * n + (c.toNat - '0'.toNat)) n < UInt64.size) :
    appendDigits n s = (s.foldl (fun n c => 10 * n + (c.toNat - '0'.toNat)) n, []) := by
  induction s generalizing n with
  | nil => rfl
  | cons c s ih =>
    rw [List.foldl_cons] at h ⊢
    rw [appendDigits, if_pos (Nat.lt_of_le_of_lt (le_foldl_digits s _) h), ih h]

theorem nearestDouble_le (n : Nat) : nearestDouble n ≤ 2 * n := by
  by_cases hsmall : n.log2 < 53
  · rw [nearestDouble_of_log2_lt hsmall]
    omega
  have hne : n ≠ 0 := by
    rintro rfl
    exact hsmall (by decide)
  have hunit : 2 ^ (n.log2 - 52) ≤ n :=
    Nat.le_trans (Nat.pow_le_pow_right (by decide) (Nat.sub_le _ _)) (Nat.log2_self_le hne)
  have hbelow : n / 2 ^ (n.log2 - 52) * 2 ^ (n.log2 - 52) ≤ n := Nat.div_mul_le_self _ _
  rw [nearestDouble, if_neg hsmall]
  simp only [Nat.pow_eq]
  split
  · rw [Nat.add_mul, Nat.one_mul]
    omega
  · omega

theorem productInRange_zero {n : Nat} (h : n < UInt64.size) : productInRange n 0 = true := by
  have hdouble := nearestDouble_le n
  have hone : nearestDouble (Nat.pow 10 (Int.toNat 0)) = 1 := by decide
  have hlimit : 2 * UInt64.size < doubleLimit := by decide +kernel
  rw [productInRange]
  split
  · rfl
  · rw [if_neg (by decide), hone, Nat.mul_one]
    exact decide_eq_true (by omega)

/-- An integer of at most 64 bits is in the range of doubles. -/
theorem fitsDoubleByParts_toString {i : Int} (h : i.natAbs < UInt64.size) :
    fitsDoubleByParts ((toString i).toList.dropWhile (· == '-')) = true := by
  have hvalue : (Nat.toDigits 10 i.natAbs).foldl (fun n c => 10 * n + (c.toNat - '0'.toNat)) 0
      = i.natAbs := Nat.ofDigitChars_ten_toDigits
  have hdigits : appendDigits 0 (Nat.toDigits 10 i.natAbs) = (i.natAbs, []) := by
    rw [appendDigits_of_lt (by rwa [hvalue]), hvalue]
  rw [dropWhile_sign_toString, fitsDoubleByParts,
    ofChars_of_isDigit fun c hc => isDigit_of_mem_toDigits hc]
  dsimp only
  rw [hdigits]
  exact productInRange_zero h

end VariantGraph.Json.Number
