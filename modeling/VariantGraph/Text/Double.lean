import VariantGraph.Text.Integer

/-!
# The range of doubles

Whether a number in decimal notation, with a fraction and an exponent or without, is small enough to
be a double. What counts is the number that would be rounded to: from half a unit above the largest
double on there is none.

There are two ways to come by that number. `fitsDouble` takes the exact value of the notation. In
`fitsDoubleByParts` the digits and the power of ten are rounded on their own before they are
multiplied, which close to the limit may decide otherwise.

Main statement: `nearestDouble_of_log2_lt` says that numbers of at most 53 binary digits are
not rounded.
-/

namespace VariantGraph.Text

/-- Half a unit in the last place above the largest double: from here on numbers are out
of range. -/
def doubleLimit : Nat := Nat.pow 2 1024 - Nat.pow 2 970

/-! ## Notation -/

/-- The exponent that a written exponent denotes. -/
def exponentOf : List Char → Int
  | [] => 0
  | _ :: '-' :: digits => -(digitsValue digits : Int)
  | _ :: '+' :: digits => digitsValue digits
  | _ :: digits => digitsValue digits

/-- A number without sign in decimal notation. -/
structure Decimal where
  /-- The digits before the point. -/
  whole : List Char
  /-- The digits behind the point. -/
  fraction : List Char
  exponent : Int

/-- The parts of a written number without sign. -/
def Decimal.ofChars (s : List Char) : Decimal :=
  let isMark : Char → Bool := fun c => c == 'e' || c == 'E'
  let mantissa := s.takeWhile fun c => !isMark c
  { whole := mantissa.takeWhile (· != '.')
    fraction := (mantissa.dropWhile (· != '.')).drop 1
    exponent := exponentOf (s.dropWhile fun c => !isMark c) }

/-! ## The exact value -/

/-- Whether a mantissa times a power of ten is a double. Mantissas far from the limit are decided by
their number of digits. -/
def scaledInRange (digits : List Char) (exponent : Int) : Bool :=
  let digits := digits.dropWhile (· == '0')
  let magnitude := exponent + digits.length
  if digits.isEmpty || magnitude < 300 then true
  else if magnitude > 400 then false
  else if 0 ≤ exponent then digitsValue digits * Nat.pow 10 exponent.toNat < doubleLimit
  else digitsValue digits < doubleLimit * Nat.pow 10 (-exponent).toNat

/-- Whether the value of a written number, rounded once, is a double. -/
def fitsDouble (s : List Char) : Bool :=
  let d := Decimal.ofChars s
  scaledInRange (d.whole ++ d.fraction) (d.exponent - d.fraction.length)

/-! ## The value by parts -/

/-- The double next to a number, if it is in range; of two that are equally near the one whose last
binary digit is even. -/
def nearestDouble (n : Nat) : Nat :=
  if n.log2 < 53 then n
  else
    let unit := Nat.pow 2 (n.log2 - 52)
    let below := n / unit
    let rest := 2 * (n % unit)
    let up := unit < rest || (rest == unit && below % 2 == 1)
    (if up then below + 1 else below) * unit

theorem nearestDouble_of_log2_lt {n : Nat} (h : n.log2 < 53) : nearestDouble n = n :=
  if_pos h

/-- Appends digits to a number as long as it fits into 64 bits: the number, and the digits that are
left over. -/
def appendDigits (n : Nat) : List Char → Nat × List Char
  | [] => (n, [])
  | c :: rest =>
    let next := 10 * n + (c.toNat - '0'.toNat)
    if next < UInt64.size then appendDigits next rest else (n, c :: rest)

/-- Whether a number times a power of ten is a double when both are rounded before they are
multiplied. A power of ten that is no double is out of range itself. -/
def productInRange (n : Nat) (exponent : Int) : Bool :=
  if n = 0 ∨ exponent < 0 then true
  else if 308 < exponent then false
  else nearestDouble n * nearestDouble (Nat.pow 10 exponent.toNat) < doubleLimit

/-- Whether the leading digits of a written number, as many as fit into 64 bits, and the power of
ten that belongs to them have a double as their product. -/
def fitsDoubleByParts (s : List Char) : Bool :=
  let d := Decimal.ofChars s
  let whole := appendDigits 0 d.whole
  let all := appendDigits whole.1 d.fraction
  productInRange all.1
    (d.exponent + whole.2.length - ((d.fraction.length : Int) - all.2.length))

end VariantGraph.Text
