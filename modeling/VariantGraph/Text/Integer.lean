/-!
# Integers in decimal notation

Reading a signed 64-bit integer: an optional sign, then ASCII digits only, with any number of
leading zeros, and a value that the type can hold.

Main statement: `readInt64?_eq_some` bounds what is read by the range of the type.
-/

namespace VariantGraph.Text

/-- Whether a character is an ASCII digit. -/
def isDigit (c : Char) : Bool := '0' ≤ c && c ≤ '9'

/-- The number that a list of ASCII digits denotes. -/
def digitsValue (s : List Char) : Nat :=
  s.foldl (fun n c => 10 * n + (c.toNat - '0'.toNat)) 0

/-- A nonempty run of ASCII digits, read as a number. -/
def readDigits? (s : List Char) : Option Nat :=
  if s.isEmpty || !s.all isDigit then none else some (digitsValue s)

/-- An optional sign and digits, read as an integer of any size. -/
def readSigned? : List Char → Option Int
  | '-' :: rest => (readDigits? rest).map fun n => -(n : Int)
  | '+' :: rest => (readDigits? rest).map fun n => (n : Int)
  | s => (readDigits? s).map fun n => (n : Int)

/-- An integer as a 64-bit word, if it fits. -/
def toInt64? (i : Int) : Option Int64 :=
  if Int64.minValue.toInt ≤ i ∧ i ≤ Int64.maxValue.toInt then some (Int64.ofInt i) else none

/-- A text read as a signed 64-bit integer. -/
def readInt64? (s : String) : Option Int64 := (readSigned? s.toList).bind toInt64?

theorem toInt64?_eq_some {i : Int} {n : Int64} (h : toInt64? i = some n) : n.toInt = i := by
  unfold toInt64? at h
  split at h
  · next hi =>
    obtain rfl := Option.some.inj h
    have hmin : Int64.minValue.toInt = -2 ^ 63 := by decide
    have hmax : Int64.maxValue.toInt = 2 ^ 63 - 1 := by decide
    rw [hmin, hmax] at hi
    exact Int64.toInt_ofInt_of_le (by omega) (by omega)
  · exact absurd h (by simp)

/-- What is read has the value that the digits denote. -/
theorem readInt64?_eq_some {s : String} {n : Int64} (h : readInt64? s = some n) :
    readSigned? s.toList = some n.toInt := by
  obtain ⟨i, hi, hn⟩ := Option.bind_eq_some_iff.1 h
  rw [hi, toInt64?_eq_some hn]

end VariantGraph.Text
