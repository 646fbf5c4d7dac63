import VariantGraph.Proofs.VersionChoice.Comparison

/-!
# The order of discovery does not matter

A choice depends on which requests there are, and neither on the order in which they were found nor
on how often each of them was. Which of several rules or which failing version is named may change,
the kind of the answer and the version do not. Versions that are forced or pinned have to have one
release marker for that, because the order of versions is not transitive otherwise.

Main statement: `VersionChoice.answer_select_congr`.
-/

namespace VariantGraph

/-- How a version came to be chosen, whatever the rule is called. -/
inductive Cause.Kind where
  | forced
  | rule
  | compared
deriving DecidableEq, Repr

/-- The kind of a cause. -/
def Cause.kind : Cause → Cause.Kind
  | .forced => .forced
  | .rule _ => .rule
  | .compared => .compared

namespace VersionChoice

open Version

/-- What a choice answers, without the details of its failures. -/
inductive Answer where
  | selected (version : String) (cause : Cause.Kind)
  | needsListing
  | conflict
  | unsatisfied
deriving DecidableEq, Repr

/-- The answer of a choice. -/
def answer : Except VersionError Decision → Answer
  | .ok (.selected s) => .selected s.version s.cause.kind
  | .ok .needsListing => .needsListing
  | .error (.conflict _ _ _) => .conflict
  | .error (.unsatisfied _ _ _) => .unsatisfied

variable {m : ModuleId} {requests requests' : List VersionRequest}
  {listing : Option (List String)} {s : SelectedVersion} {outcome outcome' : Except VersionError Decision}

/-- What does not settle gets the same answer, whichever version it is. -/
theorem Stuck.answer_eq {l l' : List SelectedVersion} (h : Stuck m listing l outcome)
    (h' : Stuck m listing l' outcome') : answer outcome = answer outcome' := by
  obtain ⟨-, ⟨hl, rfl⟩ | ⟨hl, text, rfl⟩⟩ := h
  · obtain ⟨-, ⟨-, rfl⟩ | ⟨hl', -⟩⟩ := h'
    · rfl
    · exact absurd hl hl'
  · obtain ⟨-, ⟨hl', -⟩ | ⟨-, text', rfl⟩⟩ := h'
    · exact absurd hl' hl
    · rfl

/-- The versions that decide a choice are forced, or all of them are pinned. -/
theorem kind_of_mem_deciding (h : s ∈ deciding requests) :
    s.cause.kind = if forcedByEdges requests = [] then .rule else .forced := by
  unfold deciding at h
  split at h
  · next hnil =>
    rw [if_pos hnil]
    obtain ⟨r, -, pin, -, rfl⟩ := mem_pinnedByRules_iff.1 h
    rfl
  · next hne =>
    rw [if_neg hne, (mem_forcedByEdges_iff.1 h).1]
    rfl

/-- A comparison is answered from the texts that take part and from what is rejected or refused. -/
theorem answer_compared_of_texts (m : ModuleId) (listing : Option (List String))
    (hrejected : isRejected requests = isRejected requests')
    (htexts : requested (participating requests) = requested (participating requests'))
    (hstrict : ∀ v, ((strictRequests requests).all fun s => s.2.accepts v)
      = (strictRequests requests').all fun s => s.2.accepts v) :
    answer (compared m requests listing) = answer (compared m requests' listing) := by
  unfold compared
  dsimp only
  rw [htexts, hrejected]
  simp only [hstrict]
  cases candidates? (isRejected requests') listing (requested (participating requests')) with
  | none => rfl
  | some candidates =>
    dsimp only
    cases highest? candidates with
    | none => rfl
    | some best =>
      dsimp only
      cases highest? (candidates.filter fun v =>
          (strictRequests requests').all fun s => s.2.accepts v) with
      | none => rfl
      | some v => rfl

section SameRequests

variable (h : ∀ r, r ∈ requests ↔ r ∈ requests')

include h

/-! ## What is forced or pinned -/

theorem forcedByEdges_eq_nil_congr : forcedByEdges requests = [] ↔ forcedByEdges requests' = [] := by
  simp only [List.eq_nil_iff_forall_not_mem, mem_forcedByEdges_iff, h]

theorem mem_deciding_congr : s ∈ deciding requests ↔ s ∈ deciding requests' := by
  unfold deciding
  by_cases hnil : forcedByEdges requests = []
  · rw [if_pos hnil, if_pos ((forcedByEdges_eq_nil_congr h).1 hnil)]
    simp only [mem_pinnedByRules_iff, h]
  · rw [if_neg hnil, if_neg (mt (forcedByEdges_eq_nil_congr h).2 hnil)]
    simp only [mem_forcedByEdges_iff, h]

theorem deciding_eq_nil_congr : deciding requests = [] ↔ deciding requests' = [] := by
  simp only [List.eq_nil_iff_forall_not_mem, mem_deciding_congr h]

theorem setOf_settledVersions_congr : {v | v ∈ settledVersions listing (deciding requests)}
    = {v | v ∈ settledVersions listing (deciding requests')} := by
  ext v
  simp only [Set.mem_ofPred_eq, mem_settledVersions_iff, mem_deciding_congr h]

/-- What is kept of the versions that decide a choice does not depend on the order of requests. -/
theorem Keeps.answer_eq {s s' : SelectedVersion} (hs : Keeps listing (deciding requests) s)
    (hs' : Keeps listing (deciding requests') s')
    (hmarker : OneMarker {v | v ∈ settledVersions listing (deciding requests)}) :
    answer (.ok (.selected s)) = answer (.ok (.selected s')) := by
  have hversion : s.version = s'.version := by
    have hhighest' := hs'.highest (setOf_settledVersions_congr h ▸ hmarker)
    rw [← setOf_settledVersions_congr h] at hhighest'
    exact (hs.highest hmarker).unique hmarker hhighest'
  have hkind : s.cause.kind = s'.cause.kind := by
    obtain ⟨r, hr, -, hcause⟩ := hs.origin
    obtain ⟨r', hr', -, hcause'⟩ := hs'.origin
    rw [hcause, hcause', kind_of_mem_deciding ((mem_deciding_congr h).1 hr), kind_of_mem_deciding hr']
  rw [answer, answer, hversion, hkind]

/-! ## What is compared -/

theorem rejected_congr : rejected requests = rejected requests' := by
  unfold rejected
  refine congrArg OrderedSet.elements (OrderedSet.ext_elements fun text => ?_)
  simp only [OrderedSet.mem_elements_ofElements, List.mem_flatMap, h]

theorem participates_congr {c : VersionConstraint} :
    Participates requests c ↔ Participates requests' c := by
  unfold Participates
  simp only [h]

theorem requested_congr :
    requested (participating requests) = requested (participating requests') := by
  have hmem : ∀ text, text ∈ requested (participating requests)
      ↔ text ∈ requested (participating requests') := by
    intro text
    rw [mem_requested_iff, mem_requested_iff]
    unfold Proposed
    simp only [participates_congr h]
  -- both are the elements of an ordered set
  exact congrArg OrderedSet.elements (OrderedSet.ext_elements hmem)

theorem all_strictRequests_congr (v : String) :
    ((strictRequests requests).all fun s => s.2.accepts v)
      = (strictRequests requests').all fun s => s.2.accepts v := by
  rw [Bool.eq_iff_iff, all_strictRequests_iff, all_strictRequests_iff]
  unfold StrictlyAccepted
  simp only [h]

/-- Comparing goes through sets of texts. -/
theorem answer_compared_congr (m : ModuleId) (listing : Option (List String)) :
    answer (compared m requests listing) = answer (compared m requests' listing) := by
  refine answer_compared_of_texts m listing ?_ (requested_congr h) (all_strictRequests_congr h)
  unfold isRejected
  rw [rejected_congr h]

end SameRequests

/-- Permuting the requests or repeating some of them does not change the answer, if the versions that
decide it without a comparison settle to versions with one marker. -/
theorem answer_select_congr (m : ModuleId) (forced : Option String)
    (listing : Option (List String)) (h : ∀ r, r ∈ requests ↔ r ∈ requests')
    (hmarker : forced = none →
      (∀ s ∈ deciding requests, ∃ v, settled? listing s.version = some v) →
        OneMarker {v | v ∈ settledVersions listing (deciding requests)}) :
    answer (select m requests forced listing) = answer (select m requests' forced listing) := by
  cases forced with
  | some v => rfl
  | none =>
    by_cases hnil : deciding requests = []
    · rw [select_of_deciding_eq_nil m listing hnil,
        select_of_deciding_eq_nil m listing ((deciding_eq_nil_congr h).1 hnil)]
      exact answer_compared_congr h m listing
    · have hnil' := mt (deciding_eq_nil_congr h).2 hnil
      rcases select_cases_of_deciding m listing hnil with ⟨s, hs, hok⟩ | hstuck
      · rcases select_cases_of_deciding m listing hnil' with ⟨s', hs', hok'⟩ | hstuck'
        · rw [hok, hok']
          exact hs.answer_eq h hs' (hmarker rfl hs.settled)
        · -- what settles here cannot be stuck there
          obtain ⟨r, hr, hnone⟩ := hstuck'.1
          obtain ⟨v, hv⟩ := hs.settled r ((mem_deciding_congr h).2 hr)
          rw [hnone] at hv
          cases hv
      · rcases select_cases_of_deciding m listing hnil' with ⟨s', hs', hok'⟩ | hstuck'
        · obtain ⟨r, hr, hnone⟩ := hstuck.1
          obtain ⟨v, hv⟩ := hs'.settled r ((mem_deciding_congr h).1 hr)
          rw [hnone] at hv
          cases hv
        · exact hstuck.answer_eq hstuck'

/-- A dynamic selector and a release of its best match, both forced, and a request for more. -/
def contestedRequests : List VersionRequest :=
  [{ requestedBy := "org:a:1.0", constraint := .require "1.+", forced := true },
   { requestedBy := "org:b:1.0", constraint := .require "1.3-GA", forced := true },
   { requestedBy := "org:c:1.0", constraint := .require "2.0" }]

theorem answer_select_congr_contested :
    let listing := some ["1.2", "1.3", "2.0"]
    let repeated := contestedRequests.reverse ++ contestedRequests
    (∀ r, r ∈ contestedRequests ↔ r ∈ repeated) ∧
      OneMarker {v | v ∈ settledVersions listing (deciding contestedRequests)} ∧
      answer (select ⟨"org", "m"⟩ contestedRequests none listing) = .selected "1.3-GA" .forced ∧
      answer (select ⟨"org", "m"⟩ contestedRequests none listing)
        = answer (select ⟨"org", "m"⟩ repeated none listing) := by
  intro listing repeated
  have hsame : ∀ r, r ∈ contestedRequests ↔ r ∈ repeated := by
    intro r
    rw [List.mem_append, List.mem_reverse, or_self]
  have hmarker : OneMarker {v | v ∈ settledVersions listing (deciding contestedRequests)} := by
    decide +kernel
  have hanswer : answer (select ⟨"org", "m"⟩ contestedRequests none listing)
      = .selected "1.3-GA" .forced := by
    decide +kernel
  exact ⟨hsame, hmarker, hanswer,
    answer_select_congr ⟨"org", "m"⟩ none listing hsame fun _ _ => hmarker⟩

/-- With two markers the order of discovery does matter: the last of three versions that stand in a
circle wins. -/
example :
    let forcing (version : String) : VersionRequest :=
      { requestedBy := "org:a:1.0", constraint := .require version, forced := true }
    answer (select ⟨"org", "m"⟩ (["1", "1-ga", "1-release-x"].map forcing) none none)
        = .selected "1-release-x" .forced ∧
      answer (select ⟨"org", "m"⟩ (["1-ga", "1-release-x", "1"].map forcing) none none)
        = .selected "1" .forced := by
  decide +kernel

end VersionChoice

end VariantGraph
