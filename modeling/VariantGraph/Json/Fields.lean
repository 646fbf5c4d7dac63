import VariantGraph.Fields
import VariantGraph.Json.Number
import VariantGraph.Json.Text
import VariantGraph.Text.Double

/-!
# Fields of a JSON object

Taking values out of a syntax tree. An object that is read for some known fields may hold others,
which are passed over, but no known field twice, and all of its keys have to denote texts. The
values of the known fields may also be written as an array, in the order of the fields and without
keys.

`isSound` says of a whole subtree that everything in it denotes something: strings and keys decode,
numbers are in range, and arrays and objects are not nested too deeply.

Main statement: `get?_fieldsOfMembers?` says that a field that is not known is not there.
-/

namespace VariantGraph.Json

/-! ## Values -/

/-- The text that a string denotes. -/
def text? : Json → Option String
  | .string s => (Text.decode? s.toList).map String.ofList
  | _ => none

/-- The value of a boolean. -/
def bool? : Json → Option Bool
  | .bool b => some b
  | _ => none

/-- A number as a signed 64-bit integer. -/
def int64? : Json → Option Int64
  | .number n => Number.int64? n
  | _ => none

/-- A number as an unsigned 64-bit integer. -/
def uint64? : Json → Option UInt64
  | .number n => Number.uint64? n
  | _ => none

/-- A list of values of one kind. -/
def list? {α : Type} (item : Json → Option α) : Json → Option (List α)
  | .array items => items.mapM item
  | _ => none

/-- A value that may be missing, which is written as null. -/
def nullable? {α : Type} (value : Json → Option α) : Json → Option (Option α)
  | .null => some none
  | v => (value v).map some

/-! ## Objects -/

/-- The members of an object by the texts that their keys denote. -/
def members? : Json → Option (List (String × Json))
  | .object members => members.mapM fun m => (text? (.string m.1)).map fun k => (k, m.2)
  | _ => none

/-- The known fields among some members, of which none may be repeated. -/
def fieldsOfMembers? (known : List String) (members : List (String × Json)) :
    Option (Fields Json) :=
  if ((members.filter fun m => known.contains m.1).map (·.1)).Nodup then
    some (members.filter fun m => known.contains m.1)
  else none

/-- The known fields among some values without keys, of which there may be fewer but not more. -/
def fieldsOfItems? (known : List String) (items : List Json) : Option (Fields Json) :=
  if items.length ≤ known.length then some (known.zip items) else none

/-- The known fields of a value. -/
def fields? (known : List String) : Json → Option (Fields Json)
  | .array items => fieldsOfItems? known items
  | j => (members? j).bind (fieldsOfMembers? known)

/-- A field that may be absent or null. -/
def nullableField? {α : Type} (f : Fields Json) (key : String) (value : Json → Option α) :
    Option (Option α) :=
  f.default? key none (nullable? value)

theorem get?_fieldsOfMembers? {known : List String} {members : List (String × Json)}
    {f : Fields Json} {key : String} (h : fieldsOfMembers? known members = some f)
    (hk : key ∉ known) : f.get? key = none := by
  unfold fieldsOfMembers? at h
  split at h
  · obtain rfl := Option.some.inj h
    rw [Fields.get?, List.lookup_eq_none_iff]
    intro m hm
    have hmem : known.contains m.1 = true := (List.mem_filter.1 hm).2
    have hm1 : m.1 ∈ known := List.contains_iff_mem.1 hmem
    exact bne_iff_ne.2 fun heq : key = m.1 => hk (heq ▸ hm1)
  · simp at h

/-! ## Subtrees in which everything denotes something -/

mutual

/-- Whether everything in a value denotes something and nothing is nested more deeply than a number
of levels. -/
def isSound : Nat → Json → Bool
  | _, .null => true
  | _, .bool _ => true
  | _, .number n => Text.fitsDoubleByParts (n.toList.dropWhile (· == '-'))
  | _, .string s => (Text.decode? s.toList).isSome
  | levels, .array items => 0 < levels && areSound (levels - 1) items
  | levels, .object members => 0 < levels && membersSound (levels - 1) members

/-- Whether everything in some items denotes something. -/
def areSound : Nat → List Json → Bool
  | _, [] => true
  | levels, v :: rest => isSound levels v && areSound levels rest

/-- Whether everything in some members denotes something. -/
def membersSound : Nat → List (String × Json) → Bool
  | _, [] => true
  | levels, (k, v) :: rest =>
    (Text.decode? k.toList).isSome && isSound levels v && membersSound levels rest

end

end VariantGraph.Json
