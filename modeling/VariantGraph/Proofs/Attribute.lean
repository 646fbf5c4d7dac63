import VariantGraph.Attribute
import VariantGraph.Proofs.Table

/-!
# What a value stands for

Matching does not look at the representation of a value but at what the value stands for: an
integer, a text, or a value of a foreign type, which only stands for itself. Two values are the same
exactly if they stand for the same thing, and so being the same is an equivalence.

Main statements: `Value.same_iff` says when two values are the same, `Value.same_equivalence` that
this is an equivalence, `Value.asInteger?_congr` that it keeps the integer that a value has.
-/

namespace VariantGraph

open VariantGraph.Text

/-- What a value stands for, whatever its representation. -/
inductive Meaning where
  | integer (value : Int64)
  | text (value : String)
  | foreign (typeName : String) (shown : String)
deriving DecidableEq

/-- The integer that a meaning is, if it is one. -/
def Meaning.integer? : Meaning → Option Int64
  | integer i => some i
  | text _ | foreign _ _ => none

namespace Value

variable {a b c : Value}

/-! ## Meanings -/

/-- What a text stands for: the integer of which it is the notation, else the text itself. -/
def meaningOfText (s : String) : Meaning :=
  match readInt64? s with
  | some i => .integer i
  | none => .text s

/-- What a value stands for. -/
def meaning : Value → Meaning
  | boolean b => .text (boolean b).text
  | integer i => .integer i
  | string s | named s => meaningOfText s
  | foreign typeName shown => .foreign typeName shown

theorem integer?_meaningOfText (s : String) : (meaningOfText s).integer? = readInt64? s := by
  unfold meaningOfText
  cases readInt64? s <;> rfl

/-- The integer of a value is the one that the value stands for. -/
theorem asInteger?_eq (v : Value) : v.asInteger? = v.meaning.integer? := by
  cases v with
  | string s | named s => exact (integer?_meaningOfText s).symm
  | _ => rfl

theorem meaning_eq_integer_iff {i : Int64} :
    a.meaning = .integer i ↔ a.asInteger? = some i := by
  rw [asInteger?_eq]
  cases a.meaning <;> simp [Meaning.integer?]

theorem meaningOfText_eq_text_iff {s t : String} (h : readInt64? t = none) :
    meaningOfText s = .text t ↔ s = t := by
  unfold meaningOfText
  cases hs : readInt64? s with
  | none => simp
  | some i =>
    have hne : s ≠ t := by
      rintro rfl
      rw [h] at hs
      cases hs
    simp [hne]

theorem meaningOfText_eq_iff {s t : String} :
    meaningOfText s = meaningOfText t ↔
      match readInt64? s, readInt64? t with
      | some i, some j => i = j
      | _, _ => s = t := by
  cases ht : readInt64? t with
  | none =>
    have htext : meaningOfText t = .text t := by rw [meaningOfText, ht]
    rw [htext, meaningOfText_eq_text_iff ht]
    cases readInt64? s <;> rfl
  | some j =>
    cases hs : readInt64? s with
    | none =>
      have htext : meaningOfText s = .text s := by rw [meaningOfText, hs]
      rw [htext, eq_comm, meaningOfText_eq_text_iff hs, eq_comm]
    | some i => simp [meaningOfText, hs, ht]

theorem meaningOfText_ne_foreign (s typeName shown : String) :
    meaningOfText s ≠ .foreign typeName shown := by
  unfold meaningOfText
  cases readInt64? s <;> simp

/-- The text of a boolean is not the notation of an integer. -/
theorem readInt64?_text_boolean (x : Bool) : readInt64? (boolean x).text = none := by
  cases x <;> decide +kernel

theorem not_mem_toDigits (n : Nat) : 'e' ∉ Nat.toDigits 10 n := by
  intro h
  have hdigit : ('e').isDigit = true := Nat.isDigit_of_mem_toDigits (by decide) (by decide) h
  exact absurd hdigit (by decide)

/-- The notation of an integer has no letters. -/
theorem not_mem_toString (i : Int) : 'e' ∉ (toString i).toList := by
  cases i with
  | ofNat n =>
    rw [show (toString (Int.ofNat n)).toList = Nat.toDigits 10 n from Nat.toList_repr]
    exact not_mem_toDigits n
  | negSucc n =>
    rw [show toString (Int.negSucc n) = "-" ++ Nat.repr (n + 1) from rfl, String.toList_append,
      Nat.toList_repr, List.mem_append, not_or]
    exact ⟨by decide, not_mem_toDigits (n + 1)⟩

theorem text_integer_ne_text_boolean (i : Int64) (x : Bool) :
    (integer i).text ≠ (boolean x).text := by
  intro h
  have hletter : 'e' ∈ (boolean x).text.toList := by cases x <;> decide
  rw [← h] at hletter
  exact not_mem_toString i.toInt hletter

/-! ## Being the same -/

theorem same_foreign_iff {typeName shown : String} :
    (foreign typeName shown).same a = true ↔ a.meaning = .foreign typeName shown := by
  cases a with
  | foreign typeName' shown' =>
    simp only [same, meaning, Bool.or_false, beq_iff_eq, foreign.injEq, Meaning.foreign.injEq]
    exact and_congr eq_comm eq_comm
  | string s | named s => simp [same, meaning, meaningOfText_ne_foreign]
  | boolean x => simp [same, meaning]
  | integer i => simp [same, meaning]

theorem same_boolean_iff {x : Bool} :
    (boolean x).same a = true ↔ a.meaning = .text (boolean x).text := by
  cases a with
  | foreign typeName shown => simp [same, meaning]
  | string s | named s =>
    rw [meaning, meaningOfText_eq_text_iff (readInt64?_text_boolean x)]
    simp only [same, Bool.or_eq_true, beq_iff_eq, reduceCtorEq, false_or]
    exact eq_comm
  | boolean y => cases x <;> cases y <;> decide
  | integer i =>
    simp only [same, meaning, Bool.or_eq_true, beq_iff_eq, reduceCtorEq, false_or, iff_false]
    exact fun h => text_integer_ne_text_boolean i x h.symm

theorem same_integer_iff {i : Int64} :
    (integer i).same a = true ↔ a.meaning = .integer i := by
  rw [meaning_eq_integer_iff]
  cases a with
  | foreign typeName shown => simp [same, asInteger?]
  | boolean x =>
    simp only [same, asInteger?, Bool.or_eq_true, beq_iff_eq, reduceCtorEq, false_or, iff_false]
    exact text_integer_ne_text_boolean i x
  | integer j =>
    simp only [same, sameContent, asInteger?, Bool.or_eq_true, beq_iff_eq, integer.injEq, or_self,
      Option.some.injEq]
    exact eq_comm
  | string s | named s =>
    simp only [same, sameContent, asInteger?, asText?, Bool.or_eq_true, beq_iff_eq, reduceCtorEq,
      false_or]
    cases readInt64? s with
    | none => simp
    | some j =>
      simp only [beq_iff_eq, Option.some.injEq]
      exact eq_comm

/-- Strings and names are the same if they have the same integer or, where one of them has none, the
same text. -/
theorem same_text_iff {s t : String} (ha : a = string s ∨ a = named s)
    (hb : b = string t ∨ b = named t) :
    a.same b = true ↔ meaningOfText s = meaningOfText t := by
  have hcontent : sameContent a b = true ↔ meaningOfText s = meaningOfText t := by
    rw [meaningOfText_eq_iff]
    rcases ha with rfl | rfl <;> rcases hb with rfl | rfl <;>
      simp only [sameContent, asInteger?, asText?] <;>
        cases readInt64? s <;> cases readInt64? t <;> simp
  have hsame : a.same b = true ↔ a = b ∨ sameContent a b = true := by
    rcases ha with rfl | rfl <;> rcases hb with rfl | rfl <;> simp [same]
  rw [hsame, hcontent, or_iff_right_iff_imp]
  rintro rfl
  rcases ha with rfl | rfl <;> rcases hb with hb | hb <;> cases hb <;> rfl

/-- Two values are the same exactly if they stand for the same thing. -/
theorem same_iff : a.same b = true ↔ a.meaning = b.meaning := by
  have htext : ∀ {a b : Value} {s : String}, a = string s ∨ a = named s →
      (a.same b = true ↔ meaningOfText s = b.meaning) := by
    intro a b s ha
    cases b with
    | foreign typeName shown =>
      rw [same_symm, same_foreign_iff]
      rcases ha with rfl | rfl <;> rfl
    | boolean x =>
      rw [same_symm, same_boolean_iff]
      rcases ha with rfl | rfl <;> rfl
    | integer j =>
      rw [same_symm, same_integer_iff]
      rcases ha with rfl | rfl <;> rfl
    | string t => exact same_text_iff ha (.inl rfl)
    | named t => exact same_text_iff ha (.inr rfl)
  cases a with
  | foreign typeName shown => rw [same_foreign_iff, eq_comm]; rfl
  | boolean x => rw [same_boolean_iff, eq_comm]; rfl
  | integer i => rw [same_integer_iff, eq_comm]; rfl
  | string s => exact htext (.inl rfl)
  | named s => exact htext (.inr rfl)

/-- Being the same is an equivalence. -/
theorem same_equivalence : Equivalence fun a b : Value => a.same b = true where
  refl := same_refl
  symm h := (same_symm _ _).trans h
  trans hab hbc := same_iff.2 ((same_iff.1 hab).trans (same_iff.1 hbc))

theorem same_trans (hab : a.same b = true) (hbc : b.same c = true) : a.same c = true :=
  same_equivalence.trans hab hbc

/-- Values can be compared through any others that are the same. -/
theorem same_congr {a' b' : Value} (ha : a.same a' = true) (hb : b.same b' = true) :
    a.same b = a'.same b' := by
  rw [Bool.eq_iff_iff, same_iff, same_iff, same_iff.1 ha, same_iff.1 hb]

theorem asInteger?_congr (h : a.same b = true) : a.asInteger? = b.asInteger? := by
  rw [asInteger?_eq, asInteger?_eq, same_iff.1 h]

/-- Values with the same integer are the same. -/
theorem same_of_asInteger? {i : Int64} (ha : a.asInteger? = some i) (hb : b.asInteger? = some i) :
    a.same b = true := by
  rw [same_iff, meaning_eq_integer_iff.2 ha, meaning_eq_integer_iff.2 hb]

end Value

/-! ## Attributes -/

namespace Attributes

/-- Attributes that differ only in the representation of their values. -/
abbrev Same (a b : Attributes) : Prop := Table.Related (fun v w : Value => v.same w = true) a b

theorem Same.refl (a : Attributes) : a.Same a :=
  List.forall₂_same.2 fun e _ => ⟨rfl, e.2.same_refl⟩

end Attributes

end VariantGraph
