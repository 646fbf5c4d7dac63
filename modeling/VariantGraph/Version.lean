import VariantGraph.Text.Integer
import VariantGraph.Text.Lowercase

/-!
# Versions

A version is a text. It is read as a list of parts: the text is cut at `.`, `-`, `_` and `+` and
wherever ASCII digits meet other characters, so `1.0rc1` has the parts `1`, `0`, `rc`, `1`.

* Numeric parts compare as numbers and stand above every text part.
* Text parts rank `dev` < any other text < `rc` < `snapshot` < `final` < `ga` < `release` < `sp`,
  case ignored; two other texts compare by their lower-case form.
* When one version runs out of parts, a numeric part or `sp` makes the longer version higher,
  `final`, `ga` and `release` count as absent, and any other text makes it lower.
* Versions that are still equal are ordered by their text.

Main statements: `Scan.token_flush` and `Scan.parts_flush` say what the end of a token leaves.
-/

namespace VariantGraph.Version

open VariantGraph.Text

/-! ## Parts -/

/-- What a text part says about maturity. -/
inductive Qualifier where
  | dev
  | other (text : String)
  | rc
  | snapshot
  | final
  | ga
  | release
  | sp
deriving DecidableEq, Repr

/-- A part of a version. -/
inductive Part where
  /-- Digits without leading zeros, so that runs of any length compare exactly. -/
  | number (digits : List Char)
  | text (qualifier : Qualifier)
deriving DecidableEq, Repr

namespace Qualifier

/-- The qualifier that a lower-case text names. -/
def ofText (text : String) : Qualifier :=
  if text = "dev" then .dev
  else if text = "rc" then .rc
  else if text = "snapshot" then .snapshot
  else if text = "final" then .final
  else if text = "ga" then .ga
  else if text = "release" then .release
  else if text = "sp" then .sp
  else .other text

/-- The place among the qualifiers. -/
def rank : Qualifier → Nat
  | dev => 0
  | other _ => 1
  | rc => 2
  | snapshot => 3
  | final => 4
  | ga => 5
  | release => 6
  | sp => 7

/-- The text that orders qualifiers of one rank. -/
def tieText : Qualifier → String
  | other text => text
  | _ => ""

/-- Qualifiers compare by rank, unnamed ones then by text. -/
def order (a b : Qualifier) : Ordering :=
  (compare a.rank b.rank).then (compare a.tieText b.tieText)

end Qualifier

namespace Part

/-- Digits without their leading zeros; zero keeps one. -/
def stripZeros (digits : List Char) : List Char :=
  match digits.dropWhile (· == '0') with
  | [] => ['0']
  | rest => rest

/-- The part that a token stands for. -/
def ofToken (token : List Char) : Part :=
  if token.all isDigit then .number (stripZeros token)
  else .text (Qualifier.ofText (String.ofList (lowercase token)))

/-- Digits without leading zeros denote the larger number when there are more of them, and compare
as text when there are equally many. -/
def orderDigits (a b : List Char) : Ordering :=
  (compare a.length b.length).then (compare (String.ofList a) (String.ofList b))

/-- The order of two parts in the same place. -/
def order : Part → Part → Ordering
  | number a, number b => orderDigits a b
  | number _, text _ => .gt
  | text _, number _ => .lt
  | text a, text b => a.order b

/-- The order of a part against no part at all. -/
def orderAgainstNone : Part → Ordering
  | number _ => .gt
  | text .sp => .gt
  | text .final | text .ga | text .release => .eq
  | text _ => .lt

end Part

/-! ## The parts of a version -/

/-- The characters that separate tokens and belong to none. -/
def isSeparator (c : Char) : Bool := c == '.' || c == '-' || c == '_' || c == '+'

/-- A version that has been read up to some character. -/
structure Scan where
  /-- The parts of the tokens that have ended. -/
  parts : List Part := []
  /-- The token that has not ended, empty if none has begun. -/
  token : List Char := []

namespace Scan

/-- Ends the token, if one has begun. -/
def flush (s : Scan) : Scan :=
  if s.token.isEmpty then s else ⟨s.parts ++ [Part.ofToken s.token], []⟩

/-- Whether a digit and another character meet between the token and a character. -/
def meets (s : Scan) (c : Char) : Bool :=
  s.token.getLast?.any fun last => isDigit last != isDigit c

/-- Reads a character. -/
def step (s : Scan) (c : Char) : Scan :=
  if isSeparator c then s.flush
  else
    let s := if s.meets c then s.flush else s
    { s with token := s.token ++ [c] }

@[simp] theorem token_flush (s : Scan) : s.flush.token = [] := by
  unfold flush
  split
  · next h => exact List.isEmpty_iff.1 h
  · rfl

theorem parts_flush (s : Scan) :
    s.flush.parts = s.parts ++ if s.token = [] then [] else [Part.ofToken s.token] := by
  unfold flush
  by_cases h : s.token = []
  · simp [h]
  · simp [h]

end Scan

/-- The parts of a version. -/
def parts (version : String) : List Part := (version.toList.foldl Scan.step {}).flush.parts

/-! ## The order of versions -/

/-- The order of two lists of parts: the first place where they differ decides. -/
def orderParts : List Part → List Part → Ordering
  | [], [] => .eq
  | p :: ps, [] => p.orderAgainstNone.then (orderParts ps [])
  | [], q :: qs => q.orderAgainstNone.swap.then (orderParts [] qs)
  | p :: ps, q :: qs => (p.order q).then (orderParts ps qs)
termination_by ps qs => ps.length + qs.length

/-- The order of two versions: their parts, then their texts. -/
def order (a b : String) : Ordering :=
  (orderParts (parts a) (parts b)).then (compare a b)

/-- The later of two versions; the second of two equal ones. -/
def later (a b : String) : String := if order a b = .gt then a else b

/-- The highest of some versions, found from left to right. -/
def highest? : List String → Option String
  | [] => none
  | v :: rest => some (rest.foldl later v)

end VariantGraph.Version
