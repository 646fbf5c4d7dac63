import VariantGraph.Json.Number
import VariantGraph.Json.Text

/-!
# Reading JSON

A text is cut into tokens, and a machine with a stack of unfinished arrays and objects puts the
tokens together. The grammar is the strict one: blanks are spaces, tabs and line ends, nothing may
follow the value, and no comma stands before a closing bracket. How deeply arrays and objects are
nested does not matter here.

Main statement: `length_lt_of_nextToken` says that a token is never empty, which bounds the cutting.
-/

namespace VariantGraph.Json

/-! ## Tokens -/

/-- A token of a JSON text. -/
inductive Token where
  | openArray
  | closeArray
  | openObject
  | closeObject
  | comma
  | colon
  /-- A value without parts. -/
  | atom (value : Json)

/-- Whether a character separates tokens. -/
def isBlank (c : Char) : Bool := c == ' ' || c == '\t' || c == '\n' || c == '\r'

/-- The token at the start of a text, and what follows it. -/
def nextToken : List Char → Option (Token × List Char)
  | [] => none
  | '[' :: rest => some (.openArray, rest)
  | ']' :: rest => some (.closeArray, rest)
  | '\x7b' :: rest => some (.openObject, rest)
  | '\x7d' :: rest => some (.closeObject, rest)
  | ',' :: rest => some (.comma, rest)
  | ':' :: rest => some (.colon, rest)
  | '"' :: rest => (Text.scan rest).map fun p => (.atom (.string (String.ofList p.1)), p.2)
  | 'n' :: 'u' :: 'l' :: 'l' :: rest => some (.atom .null, rest)
  | 't' :: 'r' :: 'u' :: 'e' :: rest => some (.atom (.bool true), rest)
  | 'f' :: 'a' :: 'l' :: 's' :: 'e' :: rest => some (.atom (.bool false), rest)
  | s => (Number.scan s).map fun p => (.atom (.number (String.ofList p.1)), p.2)

theorem length_lt_of_nextToken {s r : List Char} {t : Token} (h : nextToken s = some (t, r)) :
    r.length < s.length := by
  unfold nextToken at h
  split at h
  case h_8 =>
    obtain ⟨⟨t', r'⟩, hs, he⟩ := Option.map_eq_some_iff.1 h
    obtain ⟨rfl, rfl⟩ := Prod.mk.inj he
    have := Text.length_lt_of_scan hs
    simp only [List.length_cons]
    omega
  case h_12 =>
    obtain ⟨⟨t', r'⟩, hs, he⟩ := Option.map_eq_some_iff.1 h
    obtain ⟨rfl, rfl⟩ := Prod.mk.inj he
    exact Number.length_lt_of_scan hs
  all_goals simp_all
  all_goals
    obtain ⟨rfl, rfl⟩ := h
    omega

/-- The tokens of a text. -/
def tokens (s : List Char) : Option (List Token) :=
  match _h : s with
  | [] => some []
  | c :: rest =>
    if isBlank c then tokens rest
    else
      match _ht : nextToken s with
      | none => none
      | some (t, rest) => (tokens rest).map (t :: ·)
termination_by s.length
decreasing_by
  · simp
  · exact length_lt_of_nextToken (_h ▸ _ht)

/-! ## The machine -/

/-- An array or object that is not complete, with its parts in reverse order. -/
inductive Frame where
  | array (done : List Json)
  /-- An object, with the key whose value is being read. -/
  | object (done : List (String × Json)) (key : String)

/-- What the machine is waiting for, below which unfinished arrays and objects. -/
inductive Machine where
  /-- A value. Right after an opening bracket the array may also be closed. -/
  | value (stack : List Frame) (mayClose : Bool)
  /-- A key. Right after an opening brace the object may also be closed. -/
  | key (stack : List Frame) (done : List (String × Json)) (mayClose : Bool)
  | colon (stack : List Frame) (done : List (String × Json)) (key : String)
  /-- A comma or a closing bracket after a value, or the end. -/
  | after (stack : List Frame) (last : Json)

namespace Machine

/-- The machine before the first token. -/
def start : Machine := .value [] false

/-- What the machine does with one token. -/
def step : Machine → Token → Option Machine
  | value stack _, .openArray => some (.value (.array [] :: stack) true)
  | value stack _, .openObject => some (.key stack [] true)
  | value stack _, .atom v => some (.after stack v)
  | value (.array [] :: stack) true, .closeArray => some (.after stack (.array []))
  | key stack done _, .atom (.string k) => some (.colon stack done k)
  | key stack [] true, .closeObject => some (.after stack (.object []))
  | colon stack done k, .colon => some (.value (.object done k :: stack) false)
  | after (.array done :: stack) v, .comma => some (.value (.array (v :: done) :: stack) false)
  | after (.array done :: stack) v, .closeArray =>
    some (.after stack (.array (v :: done).reverse))
  | after (.object done k :: stack) v, .comma => some (.key stack ((k, v) :: done) false)
  | after (.object done k :: stack) v, .closeObject =>
    some (.after stack (.object ((k, v) :: done).reverse))
  | _, _ => none

/-- The value that the machine has read, if it is complete. -/
def result? : Machine → Option Json
  | after [] v => some v
  | _ => none

end Machine

/-- Reads a JSON text. -/
def parse? (s : String) : Option Json :=
  (tokens s.toList).bind fun l => (l.foldlM Machine.step Machine.start).bind Machine.result?

end VariantGraph.Json
