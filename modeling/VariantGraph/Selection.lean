import VariantGraph.Schema
import VariantGraph.Variant

/-!
# Variant selection

An edge of the graph asks a module for a variant: by name, or by attributes and capabilities. A
variant is acceptable for a request when every requested attribute that it carries is compatible and
it provides what is requested, its module's own capability when nothing is. Of several acceptable
variants the attributes choose one, requested attributes first.

Main statement: `Selection.rejection?_eq_none_iff` says when a variant is acceptable.
-/

namespace VariantGraph

/-- What an edge asks of the module it leads to. -/
structure VariantRequest where
  attributes : Attributes := Table.empty
  capabilities : List CapabilityId := []
  targetVariant : Option String := none
deriving DecidableEq

namespace VariantRequest

/-- How a request is shown. -/
def text (r : VariantRequest) : String :=
  match r.targetVariant with
  | some name => "variant '" ++ name ++ "'"
  | none =>
    if r.capabilities.isEmpty then r.attributes.text
    else
      r.attributes.text ++ " with capabilities [" ++
        ", ".intercalate (r.capabilities.map CapabilityId.text) ++ "]"

end VariantRequest

/-- A requested attribute for which a variant has an incompatible value. -/
structure Mismatch where
  name : String
  wanted : Value
  provided : Value
deriving DecidableEq

namespace Mismatch

/-- How a mismatch is shown. -/
def text (m : Mismatch) : String :=
  m.name ++ "=" ++ m.provided.text ++ " (required " ++ m.wanted.text ++ ")"

end Mismatch

/-- Why a variant does not serve a request. -/
inductive Rejection where
  | incompatible (mismatches : List Mismatch)
  | lacksImplicit (capability : CapabilityId)
  | lacks (capability : CapabilityId)
  /-- Another variant was asked for by name. -/
  | otherRequested (name : String)
deriving DecidableEq

namespace Rejection

/-- How a rejection is shown. -/
def text : Rejection → String
  | incompatible l => "incompatible " ++ ", ".intercalate (l.map Mismatch.text)
  | lacksImplicit c => "does not provide the implicit capability " ++ c.text
  | lacks c => "does not provide capability " ++ c.text
  | otherRequested name => "variant '" ++ name ++ "' was requested"

end Rejection

/-- Why no variant could be selected. -/
inductive SelectionError where
  /-- Every variant was rejected by the requests. -/
  | noMatch (module : Coordinates) (requests : List VariantRequest)
      (eliminated : List (Variant × Rejection))
  /-- There is no variant of the requested name. -/
  | noSuchVariant (module : Coordinates) (name : String) (published : List Variant)
  /-- Several variants are left. -/
  | ambiguous (module : Coordinates) (requests : List VariantRequest) (candidates : List Variant)
deriving DecidableEq

namespace SelectionError

/-- How some requests are shown together. -/
def requestsText : List VariantRequest → String
  | [] => "no variant request"
  | l => " and ".intercalate (l.map VariantRequest.text)

/-- The line that lists a variant. -/
def variantLine (v : Variant) : String := "  - " ++ v.text

/-- The line that lists a variant with the reason why it was left out. -/
def eliminationLine (e : Variant × Rejection) : String :=
  "  - " ++ e.1.name ++ ": " ++ e.2.text

/-- The message that no variant matches. -/
def noMatchMessage (module : Coordinates) (requested : String) (lines : List String) : String :=
  "No variant of " ++ module.text ++ " matches the consumer attributes " ++ requested ++ ":\n" ++
    "\n".intercalate lines

/-- What a reader is told. -/
def message : SelectionError → String
  | noMatch m requests eliminated =>
    noMatchMessage m (requestsText requests) (eliminated.map eliminationLine)
  | noSuchVariant m name published =>
    noMatchMessage m ("variant '" ++ name ++ "'") (published.map variantLine)
  | ambiguous m requests candidates =>
    "Cannot choose between the following variants of " ++ m.text ++ " for " ++
      requestsText requests ++ ":\n" ++ "\n".intercalate (candidates.map variantLine)

end SelectionError

/-- What was selected of a module. -/
inductive Selection where
  | variant (variant : Variant)
  /-- The module publishes no variants; its artifacts are used as they are. -/
  | artifacts (files : List FileRef)
deriving DecidableEq

namespace Selection

/-! ## Acceptable variants -/

/-- The requested attributes for which a variant has an incompatible value. -/
def mismatches (schema : Schema) (wanted : Attributes) (v : Variant) : List Mismatch :=
  wanted.toList.filterMap fun e =>
    (v.attributes.get? e.1).bind fun provided =>
      if schema.accepts e.1 e.2 provided then none else some ⟨e.1, e.2, provided⟩

/-- The capabilities that a variant of a module provides, without versions. -/
def providedIds (module : ModuleData) (v : Variant) : List CapabilityId :=
  (module.provided v).map Capability.id

/-- Why a variant does not serve a request by attributes and capabilities, if it does not. -/
def rejection? (schema : Schema) (module : ModuleData) (r : VariantRequest) (v : Variant) :
    Option Rejection :=
  match mismatches schema r.attributes v with
  | m :: more => some (.incompatible (m :: more))
  | [] =>
    let provided := providedIds module v
    let implicit := CapabilityId.ofModule module.id.module
    if r.capabilities.isEmpty then
      if provided.contains implicit then none else some (.lacksImplicit implicit)
    else
      (r.capabilities.find? fun c => !provided.contains c).map .lacks

/-- Whether a variant serves a request by attributes and capabilities. -/
def Acceptable (schema : Schema) (module : ModuleData) (r : VariantRequest) (v : Variant) : Prop :=
  (∀ e ∈ r.attributes.toList, ∀ p ∈ v.attributes.get? e.1, schema.accepts e.1 e.2 p = true) ∧
    if r.capabilities = [] then CapabilityId.ofModule module.id.module ∈ providedIds module v
    else ∀ c ∈ r.capabilities, c ∈ providedIds module v

theorem mismatches_eq_nil_iff {schema : Schema} {wanted : Attributes} {v : Variant} :
    mismatches schema wanted v = [] ↔
      ∀ e ∈ wanted.toList, ∀ p ∈ v.attributes.get? e.1, schema.accepts e.1 e.2 p = true := by
  rw [mismatches, List.filterMap_eq_nil_iff]
  constructor
  · intro h e he p hp
    have := h e he
    rw [Option.mem_def.1 hp] at this
    cases ha : schema.accepts e.1 e.2 p with
    | true => rfl
    | false => simp [ha] at this
  · intro h e he
    cases hp : v.attributes.get? e.1 with
    | none => rfl
    | some p => simp [h e he p hp]

theorem rejection?_eq_none_iff {schema : Schema} {module : ModuleData} {r : VariantRequest}
    {v : Variant} : rejection? schema module r v = none ↔ Acceptable schema module r v := by
  unfold rejection? Acceptable
  rw [← mismatches_eq_nil_iff]
  split
  · next h => simp [h]
  · next h =>
    cases hc : r.capabilities with
    | nil => simp [h]
    | cons c cs => simp [h]

/-! ## Choosing among acceptable variants -/

/-- Keeps the candidates at some indices; all of them when there are no such indices. -/
def narrow (candidates : List Variant) (preferred : List Nat) : List Variant :=
  if preferred.isEmpty then candidates
  else candidates.zipIdx.filterMap fun e => if preferred.contains e.2 then some e.1 else none

/-- The indices of the candidates that carry the wanted value itself. -/
def exactMatches (candidates : List Variant) (name : String) (wanted : Value) : List Nat :=
  candidates.zipIdx.filterMap fun e =>
    match e.1.attributes.get? name with
    | some p => if p.same wanted then some e.2 else none
    | none => none

/-- The indices that a rule prefers on one attribute. -/
def preferredBy (rule : Disambiguation) (candidates : List Variant) (name : String) : List Nat :=
  rule.preferred (candidates.map fun v => v.attributes.get? name)

/-- Narrows candidates on a requested attribute: by its rule, else to the wanted value itself. -/
def narrowRequested (schema : Schema) (candidates : List Variant) (e : String × Value) :
    List Variant :=
  if candidates.length ≤ 1 then candidates
  else
    match schema.disambiguation? e.1 with
    | some rule => narrow candidates (preferredBy rule candidates e.1)
    | none => narrow candidates (exactMatches candidates e.1 e.2)

/-- Narrows candidates on an attribute that was not requested, if it has a rule. -/
def narrowExtra (schema : Schema) (candidates : List Variant) (name : String) : List Variant :=
  if candidates.length ≤ 1 then candidates
  else
    match schema.disambiguation? name with
    | some rule => narrow candidates (preferredBy rule candidates name)
    | none => candidates

/-- The attributes of some candidates that were not requested, in ascending order. -/
def extraNames (candidates : List Variant) (requested : Attributes) : List String :=
  (OrderedSet.ofElements
    ((candidates.flatMap fun v => v.attributes.keys).filter
      fun name => !requested.contains name)).elements

/-- Narrows candidates one attribute at a time: requested attributes first, then the others that
the candidates carry, each group in name order. -/
def disambiguate (schema : Schema) (requested : Attributes) (candidates : List Variant) :
    List Variant :=
  (extraNames candidates requested).foldl (narrowExtra schema)
    (requested.toList.foldl (narrowRequested schema) candidates)

/-! ## Selecting for one request and for several -/

/-- The variants that a request accepts, and the others with the reasons. -/
def partition (schema : Schema) (module : ModuleData) (r : VariantRequest) :
    List Variant × List (Variant × Rejection) :=
  (module.variants.filter fun v => (rejection? schema module r v).isNone,
    module.variants.filterMap fun v => (rejection? schema module r v).map fun why => (v, why))

/-- The variant of a module that matches a request. -/
def select (schema : Schema) (module : ModuleData) (r : VariantRequest) :
    Except SelectionError Selection :=
  match r.targetVariant with
  | some name =>
    match module.variant? name with
    | some v => .ok (.variant v)
    | none => .error (.noSuchVariant module.id name module.variants)
  | none =>
    if module.variants.isEmpty then .ok (.artifacts module.artifacts)
    else
      let (candidates, eliminated) := partition schema module r
      if candidates.isEmpty then .error (.noMatch module.id [r] eliminated)
      else
        match disambiguate schema r.attributes candidates with
        | [v] => .ok (.variant v)
        | left => .error (.ambiguous module.id [r] left)

/-- Why a variant cannot be the one that a request gets, by name or by its properties. -/
def refusal? (schema : Schema) (module : ModuleData) (v : Variant) (r : VariantRequest) :
    Option Rejection :=
  match r.targetVariant with
  | some name => if name = v.name then none else some (.otherRequested name)
  | none => rejection? schema module r v

/-- What each request selects by itself, without repetitions, in order of first choice. -/
def choices (schema : Schema) (module : ModuleData) :
    List VariantRequest → List Selection → Except SelectionError (List Selection)
  | [], chosen => .ok chosen
  | r :: rest, chosen =>
    match select schema module r with
    | .error e => .error e
    | .ok s =>
      choices schema module rest (if chosen.contains s then chosen else chosen ++ [s])

/-- The variants among some selections. -/
def variantsOf (chosen : List Selection) : List Variant :=
  chosen.filterMap fun
    | .variant v => some v
    | .artifacts _ => none

/-- One variant of a module for every request that reaches it: the one that all requests select by
themselves, else the one among those that every request accepts. -/
def selectShared (schema : Schema) (module : ModuleData) (requests : List VariantRequest) :
    Except SelectionError Selection :=
  match choices schema module requests [] with
  | .error e => .error e
  | .ok [] => .error (.noMatch module.id [] [])
  | .ok [single] => .ok single
  | .ok chosen =>
    let refusals := (variantsOf chosen).map fun v =>
      (v, requests.findSome? (refusal? schema module v))
    let shared := refusals.filterMap fun e => if e.2.isNone then some e.1 else none
    match shared with
    | [single] => .ok (.variant single)
    | [] =>
      .error (.noMatch module.id requests
        (refusals.filterMap fun e => e.2.map fun why => (e.1, why)))
    | several => .error (.ambiguous module.id requests several)

end Selection

end VariantGraph
