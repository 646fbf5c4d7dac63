import VariantGraph.Toml.DateTime
import VariantGraph.Toml.Definition
import VariantGraph.Toml.Number

/-!
# Reading TOML

A text is read line by line: headers open tables, pairs of a key and a value go into the table that
is open. Values may be nested up to a number of levels.
-/

namespace VariantGraph.Toml

open VariantGraph.Toml.Text

/-! ## Values without parts -/

/-- Whether a character may stand in a number, a date or a word. -/
def isWordChar (c : Char) : Bool := isBare c || c == '+' || c == '.' || c == ':'

/-- The value of a word. -/
def wordValue? (word : List Char) : Option Toml :=
  if word = ['t', 'r', 'u', 'e'] then some (.boolean true)
  else if word = ['f', 'a', 'l', 's', 'e'] then some (.boolean false)
  else
    match Number.int64? word with
    | some i => some (.integer i)
    | none =>
      if Number.isFloat word then some (.float (String.ofList word))
      else if DateTime.isDate word || DateTime.isTime word || DateTime.isDateTime word then
        some (.dateTime (String.ofList (DateTime.standard word)))
      else none

/-- The time that follows a date behind a blank, if there is one. -/
def timeAfterDate : List Char → Option (List Char)
  | ' ' :: c :: rest =>
    if VariantGraph.Text.isDigit c then some ((c :: rest).takeWhile isWordChar) else none
  | _ => none

/-- A string, a number, a boolean, a date or a time at the start of a text. -/
def scanSimple (s : List Char) : Option (Toml × List Char) :=
  match s with
  | '"' :: _ | '\x27' :: _ => (scanString s).map fun p => (.text (String.ofList p.1), p.2)
  | _ =>
    let word := s.takeWhile isWordChar
    let rest := s.dropWhile isWordChar
    match if DateTime.isDate word then timeAfterDate rest else none with
    | some time =>
      if DateTime.isTimeWithOffset time then
        some (.dateTime (String.ofList (DateTime.standard (word ++ ' ' :: time))),
          rest.drop (time.length + 1))
      else none
    | none => (wordValue? word).map fun v => (v, rest)

/-! ## Arrays and inline tables -/

/-- The items of an array behind its opening bracket. Between them blanks, comments and line ends
may stand, and a comma may stand behind the last one. -/
def scanItems (item : List Char → Option (Toml × List Char)) (s : List Char) :
    Option (List Toml × List Char) :=
  match skipGap false s with
  | ']' :: rest => some ([], rest)
  | start =>
    match item start with
    | none => none
    | some (v, rest) =>
      match skipGap false rest with
      | ']' :: rest => some ([v], rest)
      | ',' :: rest =>
        if _h : rest.length < s.length then (scanItems item rest).map fun p => (v :: p.1, p.2)
        else none
      | _ => none
termination_by s.length

/-- A key and a value. -/
def scanPair (item : List Char → Option (Toml × List Char)) (s : List Char) :
    Option ((List String × Toml) × List Char) :=
  match scanKey s with
  | some (path, '=' :: rest) => (item (skipBlanks rest)).map fun p => ((path, p.1), p.2)
  | _ => none

/-- The pairs of an inline table, at least one, up to its closing brace. -/
def scanPairs (item : List Char → Option (Toml × List Char)) (s : List Char) :
    Option (List (List String × Toml) × List Char) :=
  match scanPair item (skipBlanks s) with
  | none => none
  | some (pair, rest) =>
    match skipBlanks rest with
    | '\x7d' :: rest => some ([pair], rest)
    | ',' :: rest =>
      if _h : rest.length < s.length then (scanPairs item rest).map fun p => (pair :: p.1, p.2)
      else none
    | _ => none
termination_by s.length

/-- The table of some pairs. -/
def tableOfPairs (pairs : List (List String × Toml)) : Option Toml :=
  (pairs.foldlM (fun es p => addAt es p.1 p.2) []).map fun es => .table (entryValues es)

/-- An inline table behind its opening brace. -/
def scanTable (item : List Char → Option (Toml × List Char)) (s : List Char) :
    Option (Toml × List Char) :=
  match skipBlanks s with
  | '\x7d' :: rest => some (.table [], rest)
  | start => (scanPairs item start).bind fun p => (tableOfPairs p.1).map fun t => (t, p.2)

/-- A value whose arrays and inline tables are nested no more deeply than a number of levels. -/
def scanValue : Nat → List Char → Option (Toml × List Char)
  | levels + 1, '[' :: rest => (scanItems (scanValue levels) rest).map fun p => (.array p.1, p.2)
  | levels + 1, '\x7b' :: rest => scanTable (scanValue levels) rest
  | _, s => scanSimple s

/-- How deeply values may be nested. -/
def levelLimit : Nat := 79

/-! ## Lines -/

/-- What a line says. -/
inductive Line where
  | blank
  | pair (path : List String) (v : Toml)
  /-- The header of a table. -/
  | table (path : List String)
  /-- The header of one more table of an array. -/
  | element (path : List String)

/-- What the first line says, and what follows it on the line. -/
def scanLine (s : List Char) : Option (Line × List Char) :=
  match skipBlanks s with
  | [] => some (.blank, [])
  | '[' :: '[' :: rest =>
    match scanKey (skipBlanks rest) with
    | some (path, ']' :: ']' :: rest) => some (.element path, rest)
    | _ => none
  | '[' :: rest =>
    match scanKey (skipBlanks rest) with
    | some (path, ']' :: rest) => some (.table path, rest)
    | _ => none
  | c :: rest =>
    if c = '#' ∨ c = '\n' ∨ c = '\r' then some (.blank, c :: rest)
    else (scanPair (scanValue levelLimit) (c :: rest)).map fun p => (.pair p.1.1 p.1.2, p.2)

/-- What the lines of a text say. -/
def scanLines (s : List Char) : Option (List Line) :=
  if s.isEmpty then some []
  else
    match scanLine s with
    | none => none
    | some (line, rest) =>
      match skipLineEnd? rest with
      | none => none
      | some rest =>
        if _h : rest.length < s.length then (scanLines rest).map (line :: ·) else none
termination_by s.length

/-! ## Documents -/

/-- What has been read of a text. -/
structure Draft where
  entries : Entries := []
  /-- The header of the table that is open. -/
  current : List String := []

/-- A draft after one more line. -/
def Draft.add (d : Draft) : Line → Option Draft
  | .blank => some d
  | .pair path v =>
    (inTable (fun es => addAt es path v) d.entries d.current).map fun es => { d with entries := es }
  | .table path => (atHeader openTable d.entries path).map fun es => ⟨es, path⟩
  | .element path => (atHeader openElement d.entries path).map fun es => ⟨es, path⟩

/-- A text without the byte order mark at its start. -/
def skipMark : List Char → List Char
  | '\ufeff' :: rest => rest
  | s => s

/-- Reads a TOML text: the entries of its top table. -/
def parse? (s : String) : Option Toml :=
  (scanLines (skipMark s.toList)).bind fun lines =>
    (lines.foldlM Draft.add {}).map fun d => .table (entryValues d.entries)

end VariantGraph.Toml
