import VariantGraph.Json
import VariantGraph.Text.Integer

/-!
# Numbers in JSON

The grammar of numbers and which integers they denote. A number without fraction and exponent is an
integer if it fits into 64 bits; minus zero and everything else are floating-point numbers.

Main statement: `length_lt_of_scan` says that scanning a number consumes its characters.
-/

namespace VariantGraph.Json.Number

open VariantGraph.Text

/-! ## Grammar -/

/-- Splits a text behind its leading digits. -/
def scanDigits (s : List Char) : List Char × List Char := (s.takeWhile isDigit, s.dropWhile isDigit)

/-- Splits a text behind an integer part: a zero, or digits that do not start with one. -/
def scanInteger : List Char → Option (List Char × List Char)
  | '0' :: rest => some (['0'], rest)
  | c :: rest => if isDigit c then some (scanDigits (c :: rest)) else none
  | [] => none

/-- Splits a text behind digits of which there has to be one. -/
def scanDigits1 (s : List Char) : Option (List Char × List Char) :=
  if (scanDigits s).1.isEmpty then none else some (scanDigits s)

/-- Splits a text behind an optional fraction. -/
def scanFraction : List Char → Option (List Char × List Char)
  | '.' :: rest => (scanDigits1 rest).map fun p => ('.' :: p.1, p.2)
  | s => some ([], s)

/-- Splits a text behind the digits of an exponent and their optional sign. -/
def scanExponentDigits : List Char → Option (List Char × List Char)
  | '+' :: rest => (scanDigits1 rest).map fun p => ('+' :: p.1, p.2)
  | '-' :: rest => (scanDigits1 rest).map fun p => ('-' :: p.1, p.2)
  | s => scanDigits1 s

/-- Splits a text behind an optional exponent. -/
def scanExponent : List Char → Option (List Char × List Char)
  | 'e' :: rest => (scanExponentDigits rest).map fun p => ('e' :: p.1, p.2)
  | 'E' :: rest => (scanExponentDigits rest).map fun p => ('E' :: p.1, p.2)
  | s => some ([], s)

/-- Splits a text behind a number without sign. -/
def scanUnsigned (s : List Char) : Option (List Char × List Char) :=
  (scanInteger s).bind fun i => (scanFraction i.2).bind fun f =>
    (scanExponent f.2).map fun e => (i.1 ++ f.1 ++ e.1, e.2)

/-- Splits a text behind a number. -/
def scan : List Char → Option (List Char × List Char)
  | '-' :: rest => (scanUnsigned rest).map fun p => ('-' :: p.1, p.2)
  | s => scanUnsigned s

/-! ## Integers -/

/-- The integer that a written number denotes, if it is written as one. -/
def integer? : List Char → Option Int
  | '-' :: rest => (readDigits? rest).bind fun n => if n = 0 then none else some (-(n : Int))
  | s => (readDigits? s).map fun n => (n : Int)

/-- A written number as a signed 64-bit integer. -/
def int64? (s : String) : Option Int64 := (integer? s.toList).bind toInt64?

/-- A written number as an unsigned 64-bit integer. -/
def uint64? (s : String) : Option UInt64 :=
  (integer? s.toList).bind fun i =>
    if 0 ≤ i ∧ i < (UInt64.size : Int) then some (UInt64.ofNat i.toNat) else none

/-! ## Scanning consumes -/

theorem length_scanDigits (s : List Char) :
    (scanDigits s).1.length + (scanDigits s).2.length = s.length := by
  rw [scanDigits, ← List.length_append, List.takeWhile_append_dropWhile]

theorem length_lt_of_scanDigits1 {s t r : List Char} (h : scanDigits1 s = some (t, r)) :
    r.length < s.length := by
  unfold scanDigits1 at h
  split at h
  · simp at h
  · next hne =>
    have he := Option.some.inj h
    have hlen := length_scanDigits s
    rw [he] at hlen hne
    have : t ≠ [] := by simpa using hne
    have := List.length_pos_iff.2 this
    simp only at hlen
    omega

theorem length_lt_of_scanInteger {s t r : List Char} (h : scanInteger s = some (t, r)) :
    r.length < s.length := by
  unfold scanInteger at h
  split at h
  · simp_all
  · next c rest _ =>
    split at h
    · next hc =>
      have he := Option.some.inj h
      have hlen := length_scanDigits (c :: rest)
      rw [he] at hlen
      have : t ≠ [] := by
        have : t = (scanDigits (c :: rest)).1 := by rw [he]
        simp [this, scanDigits, hc]
      have := List.length_pos_iff.2 this
      simp only at hlen
      omega
    · simp at h
  · simp at h

theorem length_le_of_scanFraction {s t r : List Char} (h : scanFraction s = some (t, r)) :
    r.length ≤ s.length := by
  unfold scanFraction at h
  split at h
  · obtain ⟨⟨t', r'⟩, hs, he⟩ := Option.map_eq_some_iff.1 h
    obtain ⟨rfl, rfl⟩ := Prod.mk.inj he
    have := length_lt_of_scanDigits1 hs
    simp only [List.length_cons]
    omega
  · simp_all

theorem length_le_of_scanExponentDigits {s t r : List Char}
    (h : scanExponentDigits s = some (t, r)) : r.length ≤ s.length := by
  unfold scanExponentDigits at h
  split at h
  · obtain ⟨⟨t', r'⟩, hs, he⟩ := Option.map_eq_some_iff.1 h
    obtain ⟨rfl, rfl⟩ := Prod.mk.inj he
    have := length_lt_of_scanDigits1 hs
    simp only [List.length_cons]
    omega
  · obtain ⟨⟨t', r'⟩, hs, he⟩ := Option.map_eq_some_iff.1 h
    obtain ⟨rfl, rfl⟩ := Prod.mk.inj he
    have := length_lt_of_scanDigits1 hs
    simp only [List.length_cons]
    omega
  · exact Nat.le_of_lt (length_lt_of_scanDigits1 h)

theorem length_le_of_scanExponent {s t r : List Char} (h : scanExponent s = some (t, r)) :
    r.length ≤ s.length := by
  unfold scanExponent at h
  split at h
  · obtain ⟨⟨t', r'⟩, hs, he⟩ := Option.map_eq_some_iff.1 h
    obtain ⟨rfl, rfl⟩ := Prod.mk.inj he
    have := length_le_of_scanExponentDigits hs
    simp only [List.length_cons]
    omega
  · obtain ⟨⟨t', r'⟩, hs, he⟩ := Option.map_eq_some_iff.1 h
    obtain ⟨rfl, rfl⟩ := Prod.mk.inj he
    have := length_le_of_scanExponentDigits hs
    simp only [List.length_cons]
    omega
  · simp_all

theorem length_lt_of_scanUnsigned {s t r : List Char} (h : scanUnsigned s = some (t, r)) :
    r.length < s.length := by
  obtain ⟨⟨i, s1⟩, hi, h⟩ := Option.bind_eq_some_iff.1 h
  obtain ⟨⟨f, s2⟩, hf, h⟩ := Option.bind_eq_some_iff.1 h
  obtain ⟨⟨e, s3⟩, he, h⟩ := Option.map_eq_some_iff.1 h
  obtain ⟨rfl, rfl⟩ := Prod.mk.inj h
  have h1 := length_lt_of_scanInteger hi
  have h2 := length_le_of_scanFraction hf
  have h3 := length_le_of_scanExponent he
  simp only at h2 h3 ⊢
  omega

theorem length_lt_of_scan {s t r : List Char} (h : scan s = some (t, r)) :
    r.length < s.length := by
  unfold scan at h
  split at h
  · obtain ⟨⟨t', r'⟩, hs, he⟩ := Option.map_eq_some_iff.1 h
    obtain ⟨rfl, rfl⟩ := Prod.mk.inj he
    have := length_lt_of_scanUnsigned hs
    simp only [List.length_cons]
    omega
  · exact length_lt_of_scanUnsigned h

end VariantGraph.Json.Number
