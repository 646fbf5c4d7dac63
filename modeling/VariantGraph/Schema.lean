import VariantGraph.Attribute

/-!
# Attribute schemas

A schema says for each attribute which producer values satisfy a consumer, and which of several
satisfying values is preferred. An attribute without rules is satisfied by the same value only.

Main statement: `Compatibility.accepts_refl` says that every rule accepts the value asked for.
-/

namespace VariantGraph

/-- When a producer value satisfies a consumer value. -/
inductive Compatibility where
  /-- Only the same value does. -/
  | equality
  /-- An integer that does not exceed the one asked for does. -/
  | atMost
  /-- A value that does not come after the one asked for does; values that are not listed match only
  themselves. -/
  | ordered (lowestFirst : List Value)
deriving DecidableEq

/-- Which candidates are preferred. -/
inductive Disambiguation where
  | highest
  | lowest
  | prefer (value : Value)
  /-- The value latest in a list is preferred. -/
  | ordered (lowestFirst : List Value)
deriving DecidableEq

/-- The first place of a value in an order. -/
def positionIn (order : List Value) (v : Value) : Option Nat :=
  order.findIdx? fun w => w.same v

namespace Compatibility

/-- Whether a producer value satisfies a consumer value. -/
def accepts (rule : Compatibility) (consumer producer : Value) : Bool :=
  consumer.same producer ||
  match rule with
  | equality => false
  | atMost =>
    match consumer.asInteger?, producer.asInteger? with
    | some c, some p => p.toInt ≤ c.toInt
    | _, _ => false
  | ordered order =>
    match positionIn order consumer, positionIn order producer with
    | some c, some p => p ≤ c
    | _, _ => false

theorem accepts_refl (rule : Compatibility) (v : Value) : rule.accepts v v := by
  simp [accepts, Value.same_refl]

end Compatibility

namespace Disambiguation

/-- How much a candidate value is preferred; `none` if it is not a choice at all. The least integer
has no negation and is none under `lowest`. -/
def score (rule : Disambiguation) (v : Value) : Option Int :=
  match rule with
  | highest => v.asInteger?.map fun i => i.toInt
  | lowest => v.asInteger?.bind fun i => if i = Int64.minValue then none else some (-i.toInt)
  | prefer wanted => if v.same wanted then some 0 else none
  | ordered order => (positionIn order v).map fun i => (i : Int)

/-- The greater of the best score so far and another one. -/
def betterScore (best : Option Int) (s : Option Int) : Option Int :=
  match best, s with
  | some b, some x => some (max b x)
  | some b, none => some b
  | none, x => x

/-- The indices of the candidates with the best score, in ascending order. Candidates without a
value are never preferred. -/
def preferred (rule : Disambiguation) (values : List (Option Value)) : List Nat :=
  let scores := values.map fun v => v.bind rule.score
  match scores.foldl betterScore none with
  | none => []
  | some best => scores.zipIdx.filterMap fun e => if e.1 = some best then some e.2 else none

end Disambiguation

/-- The rules of one attribute. -/
structure AttributeRules where
  compatibility : Compatibility := .equality
  disambiguation : Option Disambiguation := none
deriving DecidableEq

/-- The rules of every attribute that has some. -/
abbrev Schema := Table String AttributeRules

namespace Schema

/-- The rules of an attribute. -/
def rulesOf (s : Schema) (name : String) : AttributeRules := (s.get? name).getD {}

/-- Sets when values of an attribute are compatible. -/
def withCompatibility (s : Schema) (name : String) (rule : Compatibility) : Schema :=
  s.insert name { s.rulesOf name with compatibility := rule }

/-- Sets which values of an attribute are preferred. -/
def withDisambiguation (s : Schema) (name : String) (rule : Disambiguation) : Schema :=
  s.insert name { s.rulesOf name with disambiguation := some rule }

/-- Whether a producer value of an attribute satisfies a consumer value. -/
def accepts (s : Schema) (name : String) (consumer producer : Value) : Bool :=
  (s.rulesOf name).compatibility.accepts consumer producer

/-- The rule that chooses between values of an attribute. -/
def disambiguation? (s : Schema) (name : String) : Option Disambiguation :=
  (s.rulesOf name).disambiguation

/-- The rules of the well-known attributes of the JVM ecosystem. -/
def standard : Schema :=
  let usage := [Value.named "java-runtime", Value.named "java-api"]
  let elements := [Value.named "jar", Value.named "classes"]
  Table.ofList
    [("org.gradle.usage", ⟨.ordered usage, some (.ordered usage)⟩),
      ("org.gradle.libraryelements", ⟨.ordered elements, some (.ordered elements)⟩),
      ("org.gradle.jvm.version", ⟨.atMost, some .highest⟩),
      ("org.gradle.category", ⟨.equality, none⟩)]

end Schema

end VariantGraph
