import VariantGraph.Json.Text

/-!
# Printing JSON

Two layouts: a compact one without any blanks, and one with a line for each item and member,
indented by two spaces for each level. Empty arrays and objects take no line of their own.
-/

namespace VariantGraph.Json

/-- The string that denotes a text. -/
def ofText (s : String) : Json := .string (String.ofList (Text.encode s.toList))

/-- The number that denotes an integer. -/
def ofInt (i : Int) : Json := .number (toString i)

/-- The member of an object that has a text as its key. -/
def member (key : String) (value : Json) : String × Json :=
  (String.ofList (Text.encode key.toList), value)

/-! ## Compact layout -/

mutual

/-- A value without blanks. -/
def compact : Json → String
  | .null => "null"
  | .bool b => if b then "true" else "false"
  | .number n => n
  | .string s => "\"" ++ s ++ "\""
  | .array items => "[" ++ compactItems items ++ "]"
  | .object members => "\x7b" ++ compactMembers members ++ "\x7d"

/-- Items with commas between them. -/
def compactItems : List Json → String
  | [] => ""
  | [v] => compact v
  | v :: w :: rest => compact v ++ "," ++ compactItems (w :: rest)

/-- Members with commas between them. -/
def compactMembers : List (String × Json) → String
  | [] => ""
  | [(k, v)] => "\"" ++ k ++ "\":" ++ compact v
  | (k, v) :: m :: rest => "\"" ++ k ++ "\":" ++ compact v ++ "," ++ compactMembers (m :: rest)

end

/-! ## Indented layout -/

/-- The start of a line at a level. -/
def newline (level : Nat) : String := "\n" ++ String.ofList (List.replicate (2 * level) ' ')

mutual

/-- A value at a level, with its items and members one level deeper. -/
def pretty (level : Nat) : Json → String
  | .null => "null"
  | .bool b => if b then "true" else "false"
  | .number n => n
  | .string s => "\"" ++ s ++ "\""
  | .array [] => "[]"
  | .array (v :: rest) => "[" ++ prettyItems (level + 1) (v :: rest) ++ newline level ++ "]"
  | .object [] => "\x7b\x7d"
  | .object (m :: rest) =>
    "\x7b" ++ prettyMembers (level + 1) (m :: rest) ++ newline level ++ "\x7d"

/-- Items on lines of their own. -/
def prettyItems (level : Nat) : List Json → String
  | [] => ""
  | [v] => newline level ++ pretty level v
  | v :: w :: rest => newline level ++ pretty level v ++ "," ++ prettyItems level (w :: rest)

/-- Members on lines of their own. -/
def prettyMembers (level : Nat) : List (String × Json) → String
  | [] => ""
  | [(k, v)] => newline level ++ "\"" ++ k ++ "\": " ++ pretty level v
  | (k, v) :: m :: rest =>
    newline level ++ "\"" ++ k ++ "\": " ++ pretty level v ++ "," ++ prettyMembers level (m :: rest)

end

end VariantGraph.Json
