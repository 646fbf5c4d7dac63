import VariantGraph.Rules
import VariantGraph.Version.Selector

/-!
# Choosing the version of a module

Every edge into a module requests a version. In order of precedence the version is the one that the
rules force, the highest that an edge forces, the highest that a rule pins, or the outcome of
comparing the requests. Requests that an ancestor's constraint for the subgraph covers take no part
in the comparison, unless all of them are covered.

A required or strict version beats preferred ones. The candidates are the exact versions requested
and the best listed match of each dynamic selector, without those that somebody rejects; of the
candidates that every strict request accepts the highest is chosen.

Main statement: `VersionChoice.not_rejected_of_mem_candidates?` says that no candidate is rejected.
-/

namespace VariantGraph

/-- The request of one edge, after the rules. -/
structure VersionRequest where
  /-- Who asks, for messages. -/
  requestedBy : String
  constraint : VersionConstraint
  forced : Bool := false
  pinned : Option Pin := none
  /-- The constraint for the subgraph that an ancestor of the asking node declares. -/
  inherited : Option VersionConstraint := none
  /-- Whether the edge is a dependency constraint. -/
  isConstraint : Bool := false
deriving DecidableEq

/-- How a version came to be chosen. -/
inductive Cause where
  | forced
  | rule (description : String)
  | compared
deriving DecidableEq, Repr

/-- A chosen version. -/
structure SelectedVersion where
  version : String
  cause : Cause
deriving DecidableEq, Repr

/-- The outcome of a choice that did not fail. -/
inductive Decision where
  | selected (selected : SelectedVersion)
  /-- A dynamic selector needs to know which versions there are. -/
  | needsListing
deriving DecidableEq, Repr

/-- Why no version could be chosen. -/
inductive VersionError where
  /-- The best candidate is refused by strict requests, and so are all others. -/
  | conflict (module : ModuleId) (best : String) (strict : List VersionRequest)
  /-- There is no candidate. -/
  | unsatisfied (module : ModuleId) (requested rejected : List String)
deriving DecidableEq

namespace VersionError

/-- The clause about a strict request. -/
def strictClause (r : VersionRequest) : String :=
  r.requestedBy ++ " requires strictly " ++ r.constraint.strict.getD ""

/-- What a reader is told. -/
def message : VersionError → String
  | conflict m best strict =>
    "Version conflict on " ++ m.text ++ ": selected " ++ best ++ " but " ++
      ", ".intercalate (strict.map strictClause)
  | unsatisfied m requested rejected =>
    "No version of " ++ m.text ++ " satisfies the constraints: requested [" ++
      ", ".intercalate requested ++ "], rejected [" ++ ", ".intercalate rejected ++ "]"

end VersionError

namespace VersionChoice

/-! ## Versions that are forced or pinned -/

/-- The decision for a version that is forced or pinned. A dynamic selector takes its best match
from the listing; requests that reject it do not count. -/
def settle (m : ModuleId) (requested : String) (cause : Cause) (listing : Option (List String)) :
    Except VersionError Decision :=
  let selector := Selector.parse requested
  if !selector.isDynamic then .ok (.selected ⟨requested, cause⟩)
  else
    match listing with
    | none => .ok .needsListing
    | some versions =>
      match selector.bestMatch? versions fun _ => false with
      | some v => .ok (.selected ⟨v, cause⟩)
      | none => .error (.unsatisfied m [requested] [])

/-- The better of the best settled version so far and another one: the first of equals. -/
def higherOf (best : Option SelectedVersion) (s : SelectedVersion) : SelectedVersion :=
  match best with
  | none => s
  | some b => if Version.order s.version b.version = .gt then s else b

/-- Settles versions from left to right and keeps the highest; `none` when there are none. -/
def settleHighest (m : ModuleId) (listing : Option (List String)) :
    List SelectedVersion → Option SelectedVersion → Except VersionError (Option Decision)
  | [], best => .ok (best.map .selected)
  | r :: rest, best =>
    match settle m r.version r.cause listing with
    | .error e => .error e
    | .ok .needsListing => .ok (some .needsListing)
    | .ok (.selected s) => settleHighest m listing rest (some (higherOf best s))

/-- The versions that edges force. -/
def forcedByEdges (requests : List VersionRequest) : List SelectedVersion :=
  requests.filterMap fun r =>
    if r.forced then r.constraint.requestedVersion.map fun v => ⟨v, .forced⟩ else none

/-- The versions that rules pin. -/
def pinnedByRules (requests : List VersionRequest) : List SelectedVersion :=
  requests.filterMap fun r => r.pinned.map fun p => ⟨p.version, .rule p.description⟩

/-! ## Comparing requests -/

/-- The requests that no ancestor covers. -/
def uncovered (requests : List VersionRequest) : List VersionRequest :=
  requests.filter fun r => r.inherited.isNone

/-- The constraints that take part: those of the uncovered requests, or the inherited ones when
every request is covered. -/
def participating (requests : List VersionRequest) : List VersionConstraint :=
  if (uncovered requests).isEmpty then requests.filterMap fun r => r.inherited
  else (uncovered requests).map fun r => r.constraint

/-- The texts of everything that is rejected, in ascending order. -/
def rejected (requests : List VersionRequest) : List String :=
  (OrderedSet.ofElements (requests.flatMap fun r =>
    r.constraint.rejects ++ (r.inherited.map fun c => c.rejects).getD [])).elements

/-- Whether some rejected selector accepts a version. -/
def isRejected (requests : List VersionRequest) (version : String) : Bool :=
  (rejected requests).any fun s => (Selector.parse s).accepts version

/-- The versions that are demanded. -/
def hard (constraints : List VersionConstraint) : List String :=
  constraints.filterMap fun c => c.required <|> c.strict

/-- The versions that are preferred. -/
def soft (constraints : List VersionConstraint) : List String :=
  constraints.filterMap fun c => c.preferred

/-- The texts of the versions to choose from, in ascending order: the demanded ones, or the
preferred ones when nothing is demanded. -/
def requested (constraints : List VersionConstraint) : List String :=
  (OrderedSet.ofElements
    (if (hard constraints).isEmpty then soft constraints else hard constraints)).elements

/-- The candidate that one requested text gives; `none` when the listing is needed. -/
def candidateOf (isRejected : String → Bool) (listing : Option (List String)) (text : String) :
    Option (Option String) :=
  let selector := Selector.parse text
  if !selector.isDynamic then some (if isRejected text then none else some text)
  else listing.map fun versions => selector.bestMatch? versions isRejected

theorem not_rejected_of_candidateOf {isRejected : String → Bool}
    {listing : Option (List String)} {text v : String}
    (h : candidateOf isRejected listing text = some (some v)) : isRejected v = false := by
  simp only [candidateOf] at h
  split at h
  · split at h
    · simp at h
    · next hr =>
      obtain rfl : text = v := by simpa using h
      simpa using hr
  · obtain ⟨versions, _, hv⟩ := Option.map_eq_some_iff.1 h
    exact (Selector.bestMatch?_eq_some hv).2.2

/-- The candidates that some requested texts give; `none` when the listing is needed. -/
def candidates? (isRejected : String → Bool) (listing : Option (List String))
    (texts : List String) : Option (List String) :=
  (texts.mapM (candidateOf isRejected listing)).map List.reduceOption

/-- The uncovered requests that are strict, with their selectors. -/
def strictRequests (requests : List VersionRequest) : List (VersionRequest × Selector) :=
  (uncovered requests).filterMap fun r => r.constraint.strict.map fun s => (r, Selector.parse s)

/-- Chooses by comparing the requests. -/
def compared (m : ModuleId) (requests : List VersionRequest) (listing : Option (List String)) :
    Except VersionError Decision :=
  let texts := requested (participating requests)
  match candidates? (isRejected requests) listing texts with
  | none => .ok .needsListing
  | some candidates =>
    match Version.highest? candidates with
    | none => .error (.unsatisfied m texts (rejected requests))
    | some best =>
      let strict := strictRequests requests
      match Version.highest? (candidates.filter fun v => strict.all fun s => s.2.accepts v) with
      | some v => .ok (.selected ⟨v, .compared⟩)
      | none => .error (.conflict m best (strict.map (·.1)))

theorem not_rejected_of_mem_candidates? {isRejected : String → Bool}
    {listing : Option (List String)} {texts candidates : List String} {v : String}
    (h : candidates? isRejected listing texts = some candidates) (hv : v ∈ candidates) :
    isRejected v = false := by
  induction texts generalizing candidates with
  | nil =>
    obtain rfl : [] = candidates := Option.some.inj h
    simp at hv
  | cons text rest ih =>
    rw [candidates?, List.mapM_cons] at h
    cases hc : candidateOf isRejected listing text with
    | none => simp [hc] at h
    | some c =>
      cases hr : rest.mapM (candidateOf isRejected listing) with
      | none => simp [hc, hr] at h
      | some cs =>
        obtain rfl : (c :: cs).reduceOption = candidates := by simpa [hc, hr] using h
        have hrest : candidates? isRejected listing rest = some cs.reduceOption := by
          simp [candidates?, hr]
        cases c with
        | none => exact ih hrest hv
        | some w =>
          rcases List.mem_cons.1 (show v ∈ w :: cs.reduceOption from hv) with rfl | hv
          · exact not_rejected_of_candidateOf hc
          · exact ih hrest hv

/-- Chooses the version of a module from every request for it. -/
def select (m : ModuleId) (requests : List VersionRequest) (forced : Option String)
    (listing : Option (List String)) : Except VersionError Decision :=
  match forced with
  | some v => settle m v .forced listing
  | none =>
    match settleHighest m listing (forcedByEdges requests) none with
    | .error e => .error e
    | .ok (some d) => .ok d
    | .ok none =>
      match settleHighest m listing (pinnedByRules requests) none with
      | .error e => .error e
      | .ok (some d) => .ok d
      | .ok none => compared m requests listing

/-! ## Satisfied constraints -/

/-- Whether a version satisfies a constraint. -/
def accepts (c : VersionConstraint) (version : String) : Bool :=
  (c.requestedVersion.all fun r => (Selector.parse r).accepts version) &&
    !c.rejects.any fun r => (Selector.parse r).accepts version

end VersionChoice

/-- Why an edge has the version that it leads to. -/
inductive SelectionReason where
  | byRequest
  | byAncestor
  | byConstraint
  | forced
  | selectedByRule (description : String)
deriving DecidableEq, Repr

namespace SelectionReason

/-- How a reason is shown. -/
def text : SelectionReason → String
  | byRequest => "byRequest"
  | byAncestor => "byAncestor"
  | byConstraint => "byConstraint"
  | forced => "forced"
  | selectedByRule d => "selectedByRule(" ++ d ++ ")"

/-- The reason on an edge once the version of its module is chosen. -/
def ofRequest (r : VersionRequest) (s : SelectedVersion) : SelectionReason :=
  match s.cause with
  | .forced => .forced
  | .rule description => .selectedByRule description
  | .compared =>
    if r.isConstraint then .byConstraint
    else if r.inherited.any fun c => VersionChoice.accepts c s.version then .byAncestor
    else .byRequest

end SelectionReason

end VariantGraph
