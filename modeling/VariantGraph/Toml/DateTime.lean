import VariantGraph.Text.Integer

/-!
# Dates and times in TOML

Dates `1979-05-27`, times `07:32:00` with an optional fraction, both together with an offset or
without. A date has to be one of the calendar.

A date or a time has a standard form: `T` stands between date and time, a fraction has at most nine
digits and no zero at its end, and the offset of no minutes is `Z` or `+00:00`.

Main statement: `daysIn_le` says that no month is longer than 31 days.
-/

namespace VariantGraph.Toml.DateTime

open VariantGraph.Text

/-- Whether a year has a leap day. -/
def isLeapYear (year : Nat) : Bool := year % 4 == 0 && (year % 100 != 0 || year % 400 == 0)

/-- The number of days in a month. -/
def daysIn (year month : Nat) : Nat :=
  if month = 2 then if isLeapYear year then 29 else 28
  else if month = 4 ∨ month = 6 ∨ month = 9 ∨ month = 11 then 30
  else 31

theorem daysIn_le (year month : Nat) : daysIn year month ≤ 31 := by
  unfold daysIn
  split
  · split <;> omega
  · split <;> omega

/-- Whether some digits denote a number of a range. -/
def inRange (digits : List Char) (low high : Nat) : Bool :=
  (readDigits? digits).any fun n => low ≤ n && n ≤ high

/-- What follows a date at the start of a text. -/
def date? : List Char → Option (List Char)
  | y1 :: y2 :: y3 :: y4 :: '-' :: m1 :: m2 :: '-' :: d1 :: d2 :: rest =>
    let year := digitsValue [y1, y2, y3, y4]
    let month := digitsValue [m1, m2]
    let lastDay := daysIn year month
    if [y1, y2, y3, y4].all isDigit && inRange [m1, m2] 1 12 && inRange [d1, d2] 1 lastDay
    then some rest else none
  | _ => none

/-- What follows a fraction of a second, if there is one. -/
def fraction? : List Char → Option (List Char)
  | '.' :: c :: rest => if isDigit c then some (rest.dropWhile isDigit) else none
  | ['.'] => none
  | s => some s

/-- What follows a time at the start of a text. -/
def time? : List Char → Option (List Char)
  | h1 :: h2 :: ':' :: m1 :: m2 :: ':' :: s1 :: s2 :: rest =>
    if inRange [h1, h2] 0 23 && inRange [m1, m2] 0 59 && inRange [s1, s2] 0 60 then fraction? rest
    else none
  | _ => none

/-- Whether a text is an offset or empty. -/
def isOffset : List Char → Bool
  | [] => true
  | [c] => c == 'Z' || c == 'z'
  | [sign, h1, h2, ':', m1, m2] =>
    (sign == '+' || sign == '-') && inRange [h1, h2] 0 23 && inRange [m1, m2] 0 59
  | _ => false

/-- Whether a text is a date. -/
def isDate (s : List Char) : Bool := date? s == some []

/-- Whether a text is a time. -/
def isTime (s : List Char) : Bool := time? s == some []

/-- Whether a text is a time with an offset or without. -/
def isTimeWithOffset (s : List Char) : Bool := (time? s).any isOffset

/-- Whether a text is a date and a time with a letter between them. -/
def isDateTime (s : List Char) : Bool :=
  match date? s with
  | some (c :: rest) => (c == 'T' || c == 't') && isTimeWithOffset rest
  | _ => false

/-! ## Standard form -/

/-- The standard form of the digits of a fraction, with the point. -/
def standardFraction (digits : List Char) : List Char :=
  match ((digits.take 9).reverse.dropWhile fun c => c == '0').reverse with
  | [] => []
  | kept => '.' :: kept

/-- The standard form of an offset. -/
def standardOffset : List Char → List Char
  | ['z'] => ['Z']
  | '-' :: rest => if rest == ['0', '0', ':', '0', '0'] then '+' :: rest else '-' :: rest
  | s => s

/-- The standard form of a time: the seconds end behind eight characters. -/
def standardTime (s : List Char) : List Char :=
  s.take 8 ++
    match s.drop 8 with
    | '.' :: rest =>
      standardFraction (rest.takeWhile isDigit) ++ standardOffset (rest.dropWhile isDigit)
    | rest => standardOffset rest

/-- The standard form of a date, a time or both. -/
def standard (s : List Char) : List Char :=
  match date? s with
  | none => standardTime s
  | some [] => s
  | some (_ :: time) => s.take 10 ++ 'T' :: standardTime time

end VariantGraph.Toml.DateTime
