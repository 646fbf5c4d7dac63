import VariantGraph.Toml

/-!
# Tables under construction

While a text is read its tables grow entry by entry. A table comes into being because a header names
it, because the path of another header passes through it, or because a dotted key does, and what may
be added later depends on that: a header may take up a table that only a path has implied, and a
dotted key may extend only tables that dotted keys have made.
-/

namespace VariantGraph.Toml

/-- How a table came into being. -/
inductive Origin where
  /-- A header names it. -/
  | header
  /-- The path of a header passes through it. -/
  | path
  /-- A dotted key passes through it. -/
  | dottedKey
deriving DecidableEq, Repr

/-- What stands under a key. -/
inductive Item where
  | value (v : Toml)
  | table (origin : Origin) (entries : List (String × Item))
  /-- The tables of an array, the latest one first. -/
  | tables (latestFirst : List (List (String × Item)))
deriving Inhabited

/-- The entries of a table under construction. -/
abbrev Entries := List (String × Item)

/-- Puts an item in the place of the one under a key, or behind all others. -/
def setItem (key : String) (item : Item) : Entries → Entries
  | [] => [(key, item)]
  | (k, i) :: rest => if k = key then (k, item) :: rest else (k, i) :: setItem key item rest

/-! ## Pairs -/

/-- Adds a value under a key that is free. -/
def addPair (es : Entries) (key : String) (v : Toml) : Option Entries :=
  match es.lookup key with
  | some _ => none
  | none => some (setItem key (.value v) es)

/-- Adds a value under a dotted key: the path to its table, and the key in it. The last table of the
path has to be one that dotted keys have made. -/
def addDotted (es : Entries) : List String → String → Toml → Option Entries
  | [], key, v => addPair es key v
  | k :: path, key, v =>
    match es.lookup k with
    | none => (addDotted [] path key v).map fun inner => setItem k (.table .dottedKey inner) es
    | some (.table .dottedKey inner) =>
      (addDotted inner path key v).map fun inner => setItem k (.table .dottedKey inner) es
    | some (.table .path inner) =>
      if path.isEmpty then none
      else (addDotted inner path key v).map fun inner => setItem k (.table .path inner) es
    | some (.tables (latest :: others)) =>
      if path.isEmpty then none
      else (addDotted latest path key v).map fun inner => setItem k (.tables (inner :: others)) es
    | some _ => none

/-- Adds a value under the path of a dotted key. -/
def addAt (es : Entries) (path : List String) (v : Toml) : Option Entries :=
  match path.getLast? with
  | some key => addDotted es path.dropLast key v
  | none => none

/-! ## Headers -/

/-- Changes the entry of the last key of a header's path. Tables that the path passes through come
into being, and of an array of tables the latest one is meant. -/
def atHeader (change : Entries → String → Option Entries) (es : Entries) :
    List String → Option Entries
  | [] => none
  | [key] => change es key
  | k :: path =>
    match es.lookup k with
    | none => (atHeader change [] path).map fun inner => setItem k (.table .path inner) es
    | some (.table origin inner) =>
      (atHeader change inner path).map fun inner => setItem k (.table origin inner) es
    | some (.tables (latest :: others)) =>
      (atHeader change latest path).map fun inner => setItem k (.tables (inner :: others)) es
    | some _ => none

/-- Opens a table that is new or that only a path has implied. -/
def openTable (es : Entries) (key : String) : Option Entries :=
  match es.lookup key with
  | none => some (setItem key (.table .header []) es)
  | some (.table .path inner) => some (setItem key (.table .header inner) es)
  | some _ => none

/-- Opens one more table of an array. -/
def openElement (es : Entries) (key : String) : Option Entries :=
  match es.lookup key with
  | none => some (setItem key (.tables [[]]) es)
  | some (.tables l) => some (setItem key (.tables ([] :: l)) es)
  | some _ => none

/-- Changes the table that a header has opened. -/
def inTable (change : Entries → Option Entries) (es : Entries) : List String → Option Entries
  | [] => change es
  | k :: path =>
    match es.lookup k with
    | some (.table origin inner) =>
      (inTable change inner path).map fun inner => setItem k (.table origin inner) es
    | some (.tables (latest :: others)) =>
      (inTable change latest path).map fun inner => setItem k (.tables (inner :: others)) es
    | _ => none

/-! ## Values -/

mutual

/-- The value of an item. -/
def Item.toValue : Item → Toml
  | .value v => v
  | .table _ entries => .table (entryValues entries)
  | .tables l => .array (tableValues l).reverse

/-- The values of entries. -/
def entryValues : List (String × Item) → List (String × Toml)
  | [] => []
  | (k, i) :: rest => (k, i.toValue) :: entryValues rest

/-- The values of tables. -/
def tableValues : List (List (String × Item)) → List Toml
  | [] => []
  | es :: rest => .table (entryValues es) :: tableValues rest

end

end VariantGraph.Toml
