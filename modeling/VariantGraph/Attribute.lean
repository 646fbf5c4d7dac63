import VariantGraph.Table
import VariantGraph.Text.Integer

/-!
# Attributes

Attributes describe variants and what a consumer wants of them: named values of a few types. Values
that stand for the same thing in different representations are matched by `Value.same`: a document
that is written and read again turns named values into strings, and a string of digits stands for an
integer.

Main statements: `Value.same_refl` and `Value.same_symm`.
-/

namespace VariantGraph

open VariantGraph.Text

/-- The type of a value. -/
inductive ValueType where
  | boolean
  | integer
  | string
  /-- The name of one of some alternatives. -/
  | named
  /-- A type that documents cannot hold. -/
  | foreign
deriving DecidableEq, Repr

namespace ValueType

/-- The name of a type. -/
def text : ValueType → String
  | boolean => "boolean"
  | integer => "integer"
  | string => "string"
  | named => "named"
  | foreign => "opaque"

end ValueType

/-- The value of an attribute. -/
inductive Value where
  | boolean (value : Bool)
  | integer (value : Int64)
  | string (value : String)
  | named (name : String)
  /-- A value of a type that documents cannot hold. It matches only itself. -/
  | foreign (typeName : String) (shown : String)
deriving DecidableEq

namespace Value

/-- The type of a value. -/
def type : Value → ValueType
  | boolean _ => .boolean
  | integer _ => .integer
  | string _ => .string
  | named _ => .named
  | foreign _ _ => .foreign

/-- The value as an integer, where it is one or its text is the notation of one. -/
def asInteger? : Value → Option Int64
  | integer i => some i
  | string s | named s => readInt64? s
  | _ => none

/-- The text of strings and names. -/
def asText? : Value → Option String
  | string s | named s => some s
  | _ => none

/-- How a value is shown. -/
def text : Value → String
  | boolean b => if b then "true" else "false"
  | integer i => toString i.toInt
  | string s | named s => s
  | foreign _ shown => shown

/-- Whether two values of which neither is boolean or foreign stand for the same thing: the same
integer if both have one, else the same text. -/
def sameContent (a b : Value) : Bool :=
  match a.asInteger?, b.asInteger? with
  | some i, some j => i == j
  | _, _ => a.asText?.isSome && a.asText? == b.asText?

/-- Whether two values stand for the same thing, whatever their representation. -/
def same (a b : Value) : Bool :=
  a == b ||
  match a, b with
  | foreign _ _, _ | _, foreign _ _ => false
  | boolean _, _ | _, boolean _ => a.text == b.text
  | _, _ => sameContent a b

theorem same_refl (a : Value) : a.same a := by simp [same]

theorem sameContent_comm (a b : Value) : sameContent a b = sameContent b a := by
  unfold sameContent
  cases a.asInteger? <;> cases b.asInteger? <;> simp [Bool.beq_comm]
  all_goals
    cases ha : a.asText? <;> cases hb : b.asText? <;> simp [Bool.beq_comm]

theorem same_symm (a b : Value) : a.same b = b.same a := by
  unfold same
  rw [Bool.beq_comm (a := a)]
  congr 1
  cases a <;> cases b <;> first | rfl | exact sameContent_comm _ _ | exact Bool.beq_comm

end Value

/-- Attribute values by name, in the order of the names. -/
abbrev Attributes := Table String Value

namespace Attributes

/-- The pairs of names and values as shown to a reader. -/
def text (a : Attributes) : String :=
  "\x7b" ++ ", ".intercalate (a.toList.map fun e => e.1 ++ "=" ++ e.2.text) ++ "\x7d"

/-- The names with the types of their values. -/
def typedKeys (a : Attributes) : List (String × ValueType) :=
  a.toList.map fun e => (e.1, e.2.type)

end Attributes

end VariantGraph
