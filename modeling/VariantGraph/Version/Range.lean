import VariantGraph.Text.Blank
import VariantGraph.Text.Fields
import VariantGraph.Version

/-!
# Version ranges

A range is written with its bounds in brackets: `[1.0,2.0)`, `[1.0,]`, `(,2.0)`, `]1.0,2.0[`, and
`[1.0]` for a single version. A square bracket that opens inwards includes its bound.
-/

namespace VariantGraph

/-- One end of a range. -/
structure Bound where
  version : String
  inclusive : Bool
deriving DecidableEq, Repr

/-- A range of versions, open where a bound is missing. -/
structure Range where
  lower : Option Bound
  upper : Option Bound
deriving DecidableEq, Repr

/-- Whether a version lies above a lower bound. -/
def Bound.admitsAbove (b : Bound) (version : String) : Bool :=
  match Version.orderParts (Version.parts version) (Version.parts b.version) with
  | .lt => false
  | .eq => b.inclusive
  | .gt => true

/-- Whether a version lies below an upper bound. -/
def Bound.admitsBelow (b : Bound) (version : String) : Bool :=
  match Version.orderParts (Version.parts version) (Version.parts b.version) with
  | .lt => true
  | .eq => b.inclusive
  | .gt => false

namespace Range

open VariantGraph.Text

/-- The bound that a text between brackets and commas gives, if it is not blank. -/
def boundOf (text : List Char) (inclusive : Bool) : Option Bound :=
  match trimBlank text with
  | [] => none
  | version => some ⟨String.ofList version, inclusive⟩

/-- The range that the text between two brackets describes. -/
def ofInner (inner : List Char) (openInclusive closeInclusive : Bool) : Option Range :=
  match splitFirst ',' inner with
  | some (lower, upper) => some ⟨boundOf lower openInclusive, boundOf upper closeInclusive⟩
  | none => (boundOf inner true).map fun exact => ⟨some exact, some exact⟩

/-- Whether a character may open a range. -/
def opens (c : Char) : Bool := c == '[' || c == '(' || c == ']'

/-- Whether a character may close a range. -/
def closes (c : Char) : Bool := c == ']' || c == ')' || c == '['

/-- Reads a range without blanks around it. -/
def ofChars? : List Char → Option Range
  | [] => none
  | first :: rest =>
    match rest.getLast? with
    | none => none
    | some last =>
      if opens first && closes last then ofInner rest.dropLast (first == '[') (last == ']')
      else none

/-- Reads a range; `none` for a text that is not one. -/
def parse? (s : String) : Option Range := ofChars? (trimBlank s.toList)

/-- Whether a version lies in the range. Bounds compare by parts alone. -/
def contains (r : Range) (version : String) : Bool :=
  r.lower.all (·.admitsAbove version) && r.upper.all (·.admitsBelow version)

end Range

end VariantGraph
