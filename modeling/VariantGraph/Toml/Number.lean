import VariantGraph.Text.Double
import VariantGraph.Toml.Text

/-!
# Numbers in TOML

Integers in decimal, hexadecimal, octal and binary notation and floating-point numbers. Single
underscores may stand between digits, a decimal integer does not start with a zero, and only decimal
numbers have a sign.
-/

namespace VariantGraph.Toml.Number

open VariantGraph.Text

/-- The digits of a number that may have single underscores between them. -/
def digits? (isDigit : Char → Bool) : List Char → Option (List Char)
  | [] => none
  | [c] => if isDigit c then some [c] else none
  | c :: '_' :: rest => if isDigit c then (digits? isDigit rest).map (c :: ·) else none
  | c :: rest => if isDigit c then (digits? isDigit rest).map (c :: ·) else none

/-! ## Integers -/

/-- The digits of a decimal integer, which do not start with a zero unless they are one. -/
def decimalDigits? (s : List Char) : Option (List Char) :=
  (digits? isDigit s).bind fun d => if d.length = 1 ∨ d.head? ≠ some '0' then some d else none

/-- The value of digits in a base. -/
def valueOf (base : Nat) (digits : List Char) : Nat :=
  digits.foldl (fun n c => base * n + (Text.hexDigit? c).getD 0) 0

/-- An integer of a base behind its mark. -/
def based? (base : Nat) (s : List Char) : Option Int :=
  (digits? (fun c => (Text.hexDigit? c).any (· < base)) s).map fun d => (valueOf base d : Int)

/-- A written integer. -/
def integer? : List Char → Option Int
  | '0' :: 'x' :: rest => based? 16 rest
  | '0' :: 'o' :: rest => based? 8 rest
  | '0' :: 'b' :: rest => based? 2 rest
  | '-' :: rest => (decimalDigits? rest).map fun d => -(valueOf 10 d : Int)
  | '+' :: rest => (decimalDigits? rest).map fun d => (valueOf 10 d : Int)
  | s => (decimalDigits? s).map fun d => (valueOf 10 d : Int)

/-- A written integer that fits into 64 bits. -/
def int64? (s : List Char) : Option Int64 := (integer? s).bind toInt64?

/-! ## Floating-point numbers -/

/-- Whether a text is an exponent behind its mark. -/
def isExponent : List Char → Bool
  | '+' :: rest => (digits? isDigit rest).isSome
  | '-' :: rest => (digits? isDigit rest).isSome
  | s => (digits? isDigit s).isSome

/-- Whether a text without sign is a floating-point number: an integer part with a fraction, an
exponent or both. -/
def isUnsignedFloat (s : List Char) : Bool :=
  let isMark : Char → Bool := fun c => c == 'e' || c == 'E'
  let mantissa := s.takeWhile fun c => !isMark c
  let exponent := s.dropWhile fun c => !isMark c
  let fraction := mantissa.dropWhile (· != '.')
  (decimalDigits? (mantissa.takeWhile (· != '.'))).isSome &&
    (fraction.isEmpty || (digits? isDigit (fraction.drop 1)).isSome) &&
    (exponent.isEmpty || isExponent (exponent.drop 1)) &&
    !(fraction.isEmpty && exponent.isEmpty)

/-- Whether a text names infinity or no number. -/
def isSpecial (s : List Char) : Bool := s == ['i', 'n', 'f'] || s == ['n', 'a', 'n']

/-- Whether a text is a floating-point number. A positive one has to be in range. -/
def isFloat : List Char → Bool
  | '-' :: rest => isSpecial rest || isUnsignedFloat rest
  | '+' :: rest => isSpecial rest || (isUnsignedFloat rest && fitsDouble (rest.filter (· != '_')))
  | s => isSpecial s || (isUnsignedFloat s && fitsDouble (s.filter (· != '_')))

end VariantGraph.Toml.Number
