import VariantGraph.Fields
import VariantGraph.Table
import VariantGraph.Toml

/-!
# Fields of a TOML table

Taking values out of TOML. A table that is read for some known fields may hold others, which are
passed over; the values of the known fields may also be written as an array, in the order of the
fields. One of several words is a string, or a table that has the word as its only key and nothing
under it. A date or a time can stand for a table with one entry, which holds it as a text.
-/

namespace VariantGraph.Toml

/-- The text of a string. -/
def text? : Toml → Option String
  | .text s => some s
  | _ => none

/-- The value of a boolean. -/
def bool? : Toml → Option Bool
  | .boolean b => some b
  | _ => none

/-- The value of an integer that is not negative. -/
def natural? : Toml → Option Nat
  | .integer i => if 0 ≤ i.toInt then some i.toInt.toNat else none
  | _ => none

/-- A list of values of one kind. -/
def list? {α : Type} (item : Toml → Option α) : Toml → Option (List α)
  | .array items => items.mapM item
  | _ => none

/-- The key of a date or a time that stands for a table. -/
def dateTimeKey : String := "$__toml_private_datetime"

/-- The entries of a value that is a table or stands for one. -/
def entries? : Toml → Option (List (String × Toml))
  | .table entries => some entries
  | .dateTime standard => some [(dateTimeKey, .text standard)]
  | _ => none

/-- Values of one kind by their keys. -/
def table? {α : Type} (value : Toml → Option α) (v : Toml) : Option (Table String α) :=
  (entries? v).bind fun entries =>
    (entries.mapM fun e => (value e.2).map fun v => (e.1, v)).map Table.ofList

/-- Whether a value has parts and none of them. -/
def isEmptyContainer : Toml → Bool
  | .array items => items.isEmpty
  | .table entries => entries.isEmpty
  | _ => false

/-- One of several words. -/
def word? {α : Type} (words : List (String × α)) : Toml → Option α
  | .text s => words.lookup s
  | .table [(s, v)] => if isEmptyContainer v then words.lookup s else none
  | _ => none

/-- The fields of a value that is read for some known fields. -/
def fields? (known : List String) : Toml → Option (Fields Toml)
  | .array items => some (known.zip items)
  | v => entries? v

end VariantGraph.Toml
