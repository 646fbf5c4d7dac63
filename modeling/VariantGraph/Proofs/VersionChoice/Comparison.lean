import Mathlib.Data.List.ReduceOption
import VariantGraph.Proofs.Table
import VariantGraph.Proofs.VersionChoice
import VariantGraph.Proofs.VersionChoice.Settling

/-!
# Comparing the requests for a version

When nothing is forced or pinned, the requests that no ancestor covers are compared. The candidates
come from the versions that take part, without those that some request rejects, and the one that is
chosen satisfies every uncovered strict request.

Main statements: `VersionChoice.mem_candidates?_iff` lists the candidates,
`VersionChoice.compared_cases` tells the three answers apart, `VersionChoice.select_sound` says what a
compared version satisfies and when there is none.
-/

namespace VariantGraph

namespace VersionChoice

open Version

variable {m : ModuleId} {requests : List VersionRequest} {forced : Option String}
  {listing : Option (List String)} {versions candidates : List String} {text v : String}

/-! ## What requests say about a version -/

/-- A request, or the constraint that covers it, rejects a version. -/
def Rejects (r : VersionRequest) (v : String) : Prop :=
  ∃ text, (text ∈ r.constraint.rejects ∨ ∃ c, r.inherited = some c ∧ text ∈ c.rejects) ∧
    (Selector.parse text).accepts v = true

/-- Every strict request that no ancestor covers accepts a version. -/
def StrictlyAccepted (requests : List VersionRequest) (v : String) : Prop :=
  ∀ r ∈ requests, r.inherited = none → ∀ text, r.constraint.strict = some text →
    (Selector.parse text).accepts v = true

/-- A constraint takes part in the comparison: that of an uncovered request, or, when all requests
are covered, one that a request inherits. -/
def Participates (requests : List VersionRequest) (c : VersionConstraint) : Prop :=
  (∃ r ∈ requests, r.inherited = none ∧ r.constraint = c) ∨
    (∀ r ∈ requests, r.inherited ≠ none) ∧ ∃ r ∈ requests, r.inherited = some c

/-- A text is the version that a constraint takes part with: the one that it demands, or the one that
it prefers when no constraint that takes part demands any. -/
def Proposed (requests : List VersionRequest) (text : String) : Prop :=
  ∃ c, Participates requests c ∧ ((c.required <|> c.strict) = some text ∨
    (∀ c', Participates requests c' → (c'.required <|> c'.strict) = none) ∧ c.preferred = some text)

theorem isRejected_iff : isRejected requests v = true ↔ ∃ r ∈ requests, Rejects r v := by
  unfold isRejected rejected
  rw [List.any_eq_true]
  constructor
  · rintro ⟨text, htext, hv⟩
    rw [OrderedSet.mem_elements_ofElements, List.mem_flatMap] at htext
    obtain ⟨r, hr, htext⟩ := htext
    refine ⟨r, hr, text, ?_, hv⟩
    rcases List.mem_append.1 htext with h | h
    · exact .inl h
    · cases hc : r.inherited with
      | none => simp [hc] at h
      | some c => exact .inr ⟨c, rfl, by simpa [hc] using h⟩
  · rintro ⟨r, hr, text, htext, hv⟩
    refine ⟨text, ?_, hv⟩
    rw [OrderedSet.mem_elements_ofElements, List.mem_flatMap]
    refine ⟨r, hr, List.mem_append.2 ?_⟩
    rcases htext with h | ⟨c, hc, h⟩
    · exact .inl h
    · exact .inr (by simpa [hc] using h)

theorem isRejected_eq_false_iff :
    isRejected requests v = false ↔ ∀ r ∈ requests, ¬ Rejects r v := by
  rw [Bool.eq_false_iff, ne_eq, isRejected_iff]
  push Not
  rfl

theorem mem_uncovered_iff {r : VersionRequest} :
    r ∈ uncovered requests ↔ r ∈ requests ∧ r.inherited = none := by
  rw [uncovered, List.mem_filter, Option.isNone_iff_eq_none]

theorem mem_participating_iff {c : VersionConstraint} :
    c ∈ participating requests ↔ Participates requests c := by
  unfold participating Participates
  by_cases h : ∃ r ∈ requests, r.inherited = none
  · obtain ⟨r, hr, hnone⟩ := h
    have hmem := mem_uncovered_iff.2 ⟨hr, hnone⟩
    have hall : ¬ ∀ r ∈ requests, r.inherited ≠ none := fun hall => hall r hr hnone
    rw [if_neg (by simpa using List.ne_nil_of_mem hmem), List.mem_map]
    simp only [mem_uncovered_iff, and_assoc, hall, false_and, or_false]
  · push Not at h
    have hnil : uncovered requests = [] := by
      rw [List.eq_nil_iff_forall_not_mem]
      exact fun r hr => h r (mem_uncovered_iff.1 hr).1 (mem_uncovered_iff.1 hr).2
    rw [hnil, if_pos (by rfl), List.mem_filterMap]
    constructor
    · exact fun hc => .inr ⟨h, hc⟩
    · rintro (⟨r, hr, hnone, -⟩ | ⟨-, hc⟩)
      · exact absurd hnone (h r hr)
      · exact hc

theorem mem_hard_iff : text ∈ hard (participating requests) ↔
    ∃ c, Participates requests c ∧ (c.required <|> c.strict) = some text := by
  rw [hard, List.mem_filterMap]
  simp only [mem_participating_iff]

theorem hard_eq_nil_iff : hard (participating requests) = [] ↔
    ∀ c, Participates requests c → (c.required <|> c.strict) = none := by
  rw [hard, List.filterMap_eq_nil_iff]
  simp only [mem_participating_iff]

theorem mem_soft_iff : text ∈ soft (participating requests) ↔
    ∃ c, Participates requests c ∧ c.preferred = some text := by
  rw [soft, List.mem_filterMap]
  simp only [mem_participating_iff]

theorem mem_requested_iff : text ∈ requested (participating requests) ↔ Proposed requests text := by
  unfold requested Proposed
  rw [OrderedSet.mem_elements_ofElements, ← hard_eq_nil_iff]
  by_cases h : hard (participating requests) = []
  · rw [if_pos (List.isEmpty_iff.2 h), mem_soft_iff]
    constructor
    · rintro ⟨c, hc, htext⟩
      exact ⟨c, hc, .inr ⟨h, htext⟩⟩
    · rintro ⟨c, hc, htext | ⟨-, htext⟩⟩
      · rw [hard_eq_nil_iff.1 h c hc] at htext
        cases htext
      · exact ⟨c, hc, htext⟩
  · rw [if_neg (mt List.isEmpty_iff.1 h), mem_hard_iff]
    constructor
    · rintro ⟨c, hc, htext⟩
      exact ⟨c, hc, .inl htext⟩
    · rintro ⟨c, hc, htext | ⟨hnil, -⟩⟩
      · exact ⟨c, hc, htext⟩
      · exact absurd hnil h

/-! ## Candidates -/

/-- Nobody rejects a version, and it is proposed itself or the best listed match of a dynamic selector
that is. -/
inductive Candidate (requests : List VersionRequest) (versions : List String) (v : String) : Prop
  | stated (proposed : Proposed requests v) (static : (Selector.parse v).isDynamic = false)
      (kept : ∀ r ∈ requests, ¬ Rejects r v)
  | matched {text : String} (proposed : Proposed requests text)
      (dynamic : (Selector.parse text).isDynamic = true)
      (best : (Selector.parse text).bestMatch? versions (isRejected requests) = some v)

theorem candidateOf_eq_some_iff {isRejected : String → Bool} :
    candidateOf isRejected listing text = some (some v) ↔
      ((Selector.parse text).isDynamic = false ∧ text = v ∧ isRejected v = false) ∨
        ((Selector.parse text).isDynamic = true ∧ ∃ versions, listing = some versions ∧
          (Selector.parse text).bestMatch? versions isRejected = some v) := by
  unfold candidateOf
  dsimp only
  cases hdynamic : (Selector.parse text).isDynamic with
  | false =>
    cases hrejected : isRejected text with
    | false =>
      constructor
      · intro h
        obtain rfl : text = v := by simpa using h
        exact .inl ⟨rfl, rfl, hrejected⟩
      · rintro (⟨-, rfl, -⟩ | ⟨h, -⟩)
        · rfl
        · cases h
    | true =>
      constructor
      · intro h
        simp at h
      · rintro (⟨-, rfl, h⟩ | ⟨h, -⟩)
        · rw [hrejected] at h
          cases h
        · cases h
  | true => simp [Option.map_eq_some_iff]

theorem mem_candidates?_iff {isRejected : String → Bool} {texts : List String}
    (h : candidates? isRejected listing texts = some candidates) :
    v ∈ candidates ↔ ∃ text ∈ texts, candidateOf isRejected listing text = some (some v) := by
  induction texts generalizing candidates with
  | nil =>
    obtain rfl : [] = candidates := Option.some.inj h
    simp
  | cons text rest ih =>
    rw [candidates?, List.mapM_cons] at h
    cases hc : candidateOf isRejected listing text with
    | none => simp [hc] at h
    | some c =>
      cases hr : rest.mapM (candidateOf isRejected listing) with
      | none => simp [hc, hr] at h
      | some cs =>
        obtain rfl : (c :: cs).reduceOption = candidates := by simpa [hc, hr] using h
        have hrest : candidates? isRejected listing rest = some cs.reduceOption := by
          simp [candidates?, hr]
        rw [List.exists_mem_cons_iff, ← ih hrest, hc, List.reduceOption_mem_iff,
          List.reduceOption_mem_iff, List.mem_cons, Option.some.injEq, eq_comm]

theorem mem_candidates?_iff_candidate
    (h : candidates? (isRejected requests) (some versions) (requested (participating requests))
      = some candidates) : v ∈ candidates ↔ Candidate requests versions v := by
  rw [mem_candidates?_iff h]
  constructor
  · rintro ⟨text, htext, hv⟩
    have htext := mem_requested_iff.1 htext
    rcases candidateOf_eq_some_iff.1 hv with ⟨hstatic, rfl, hv⟩ | ⟨hdynamic, _, hlisting, hv⟩
    · exact .stated htext hstatic (isRejected_eq_false_iff.1 hv)
    · obtain rfl := Option.some.inj hlisting
      exact .matched htext hdynamic hv
  · rintro (⟨hproposed, hstatic, hv⟩ | ⟨hproposed, hdynamic, hbest⟩)
    · exact ⟨v, mem_requested_iff.2 hproposed,
        candidateOf_eq_some_iff.2 (.inl ⟨hstatic, rfl, isRejected_eq_false_iff.2 hv⟩)⟩
    · exact ⟨_, mem_requested_iff.2 hproposed,
        candidateOf_eq_some_iff.2 (.inr ⟨hdynamic, _, rfl, hbest⟩)⟩

/-! ## The answer of a comparison -/

theorem all_strictRequests_iff :
    ((strictRequests requests).all fun s => s.2.accepts v) = true ↔ StrictlyAccepted requests v := by
  unfold strictRequests StrictlyAccepted
  rw [List.all_eq_true]
  constructor
  · intro h r hr hnone text htext
    refine h (r, Selector.parse text) (List.mem_filterMap.2 ⟨r, mem_uncovered_iff.2 ⟨hr, hnone⟩, ?_⟩)
    rw [htext]
    rfl
  · intro h s hs
    obtain ⟨r, hr, hmap⟩ := List.mem_filterMap.1 hs
    obtain ⟨text, htext, rfl⟩ := Option.map_eq_some_iff.1 hmap
    exact h r (mem_uncovered_iff.1 hr).1 (mem_uncovered_iff.1 hr).2 text htext

/-- With the candidates at hand a comparison has one of three answers. -/
theorem compared_cases (m : ModuleId)
    (h : candidates? (isRejected requests) listing (requested (participating requests))
      = some candidates) :
    (candidates = [] ∧
        ∃ texts rejects, compared m requests listing = .error (.unsatisfied m texts rejects)) ∨
      (candidates ≠ [] ∧ (∀ v ∈ candidates, ¬ StrictlyAccepted requests v) ∧
        ∃ best strict, compared m requests listing = .error (.conflict m best strict)) ∨
      ∃ v ∈ candidates, StrictlyAccepted requests v ∧
        compared m requests listing = .ok (.selected ⟨v, .compared⟩) := by
  unfold compared
  dsimp only
  rw [h]
  dsimp only
  cases hbest : highest? candidates with
  | none => exact .inl ⟨highest?_eq_none_iff.1 hbest, _, _, rfl⟩
  | some best =>
    have hne : candidates ≠ [] := List.ne_nil_of_mem (Selector.highest?_mem hbest)
    dsimp only
    cases hchosen : highest? (candidates.filter fun v =>
        (strictRequests requests).all fun s => s.2.accepts v) with
    | none =>
      refine .inr (.inl ⟨hne, ?_, _, _, rfl⟩)
      intro v hv hstrict
      rw [highest?_eq_none_iff, List.filter_eq_nil_iff] at hchosen
      exact hchosen v hv (all_strictRequests_iff.2 hstrict)
    | some v =>
      have hv := List.mem_filter.1 (Selector.highest?_mem hchosen)
      exact .inr (.inr ⟨v, hv.1, all_strictRequests_iff.1 hv.2, rfl⟩)

/-- The version that is chosen is the highest candidate that is accepted. -/
theorem isHighest_of_compared {cause : Cause}
    (hcandidates : candidates? (isRejected requests) listing (requested (participating requests))
      = some candidates)
    (hmarker : OneMarker {w | w ∈ candidates})
    (h : compared m requests listing = .ok (.selected ⟨v, cause⟩)) :
    IsHighest {w | w ∈ candidates ∧ StrictlyAccepted requests w} v := by
  unfold compared at h
  dsimp only at h
  rw [hcandidates] at h
  dsimp only at h
  split at h
  · cases h
  · split at h
    · next u hu =>
      cases h
      have hset : {w | w ∈ candidates.filter fun v =>
            (strictRequests requests).all fun s => s.2.accepts v}
          = {w | w ∈ candidates ∧ StrictlyAccepted requests w} := by
        ext w
        rw [Set.mem_ofPred_eq, List.mem_filter, all_strictRequests_iff]
        rfl
      rw [← hset]
      exact (highest?_eq_some_iff (hmarker.mono fun w hw => List.mem_of_mem_filter hw)).1 hu
    · cases h

/-- What speaks for a version that was chosen by comparing: nobody rejects it, all uncovered strict
requests accept it, and it is proposed or listed and accepted by a dynamic selector that is. -/
structure Justified (requests : List VersionRequest) (listing : Option (List String)) (v : String) :
    Prop where
  kept : ∀ r ∈ requests, ¬ Rejects r v
  strict : StrictlyAccepted requests v
  origin : Proposed requests v ∨ ∃ text, Proposed requests text ∧
    (Selector.parse text).isDynamic = true ∧ (Selector.parse text).accepts v = true ∧
      ∃ versions, listing = some versions ∧ v ∈ versions

theorem justified_of_compared {cause : Cause}
    (h : compared m requests listing = .ok (.selected ⟨v, cause⟩)) :
    Justified requests listing v := by
  cases hc : candidates? (isRejected requests) listing (requested (participating requests)) with
  | none => simp [compared, hc] at h
  | some candidates =>
    rcases compared_cases m hc with ⟨-, _, _, he⟩ | ⟨-, -, _, _, he⟩ | ⟨w, hw, hstrict, hok⟩
    · rw [he] at h
      cases h
    · rw [he] at h
      cases h
    · rw [hok] at h
      cases h
      have hkept := not_rejected_of_mem_candidates? hc hw
      rw [Bool.eq_false_iff, ne_eq, isRejected_iff] at hkept
      refine ⟨fun r hr hrejects => hkept ⟨r, hr, hrejects⟩, hstrict, ?_⟩
      obtain ⟨text, htext, hw⟩ := (mem_candidates?_iff hc).1 hw
      have htext := mem_requested_iff.1 htext
      rcases candidateOf_eq_some_iff.1 hw with ⟨-, rfl, -⟩ | ⟨hdynamic, versions, hlisting, hbest⟩
      · exact .inl htext
      · obtain ⟨hlisted, haccepts, -⟩ := Selector.bestMatch?_eq_some hbest
        exact .inr ⟨text, htext, hdynamic, haccepts, versions, hlisting, hlisted⟩

/-! ## Choices that are compared -/

/-- A version with the cause of a comparison was chosen by comparing. -/
theorem compared_of_select (h : select m requests forced listing = .ok (.selected ⟨v, .compared⟩)) :
    compared m requests listing = .ok (.selected ⟨v, .compared⟩) := by
  -- what is forced or pinned keeps its cause when it is settled
  cases forced with
  | some text => cases (settle_eq_selected_iff.1 h).2
  | none =>
    by_cases hnil : deciding requests = []
    · rwa [select_of_deciding_eq_nil m listing hnil] at h
    · obtain ⟨r, hr, -, hcause⟩ := (keeps_of_select hnil h).origin
      exact absurd hcause.symm (cause_ne_compared_of_mem_deciding hr)

/-- When nothing is forced or pinned, the requests are compared. -/
theorem select_eq_compared (m : ModuleId) (listing : Option (List String))
    (hforced : ∀ r ∈ requests, r.forced = true → r.constraint.requestedVersion = none)
    (hpinned : ∀ r ∈ requests, r.pinned = none) :
    select m requests none listing = compared m requests listing := by
  refine select_of_deciding_eq_nil m listing (List.eq_nil_iff_forall_not_mem.2 fun s hs => ?_)
  unfold deciding at hs
  split at hs
  · obtain ⟨r, hr, pin, hpin, -⟩ := mem_pinnedByRules_iff.1 hs
    rw [hpinned r hr] at hpin
    cases hpin
  · obtain ⟨-, r, hr, hf, hversion⟩ := mem_forcedByEdges_iff.1 hs
    rw [hforced r hr hf] at hversion
    cases hversion

/-- A version that is chosen by comparing is justified. When nothing is forced or pinned and the
listing is known, the choice fails for want of a candidate exactly when there is none, with a conflict
exactly when there are candidates but strict requests refuse each of them, and else succeeds. -/
theorem select_sound (m : ModuleId) (requests : List VersionRequest) (forced : Option String)
    (listing : Option (List String)) :
    (∀ v, select m requests forced listing = .ok (.selected ⟨v, .compared⟩) →
      Justified requests listing v) ∧
    ∀ versions, forced = none → listing = some versions →
      (∀ r ∈ requests, r.forced = true → r.constraint.requestedVersion = none) →
      (∀ r ∈ requests, r.pinned = none) →
      ((∃ texts rejects,
          select m requests forced listing = .error (.unsatisfied m texts rejects)) ↔
        ∀ v, ¬ Candidate requests versions v) ∧
      ((∃ best strict, select m requests forced listing = .error (.conflict m best strict)) ↔
        (∃ v, Candidate requests versions v) ∧
          ∀ v, Candidate requests versions v → ¬ StrictlyAccepted requests v) ∧
      ((∃ v, select m requests forced listing = .ok (.selected ⟨v, .compared⟩)) ↔
        ∃ v, Candidate requests versions v ∧ StrictlyAccepted requests v) := by
  refine ⟨fun v h => justified_of_compared (compared_of_select h), ?_⟩
  rintro versions rfl rfl hforced hpinned
  rw [select_eq_compared m _ hforced hpinned]
  obtain ⟨candidates, hcandidates⟩ := Option.ne_none_iff_exists'.1
    (candidates?_ne_none (isRejected requests) versions (requested (participating requests)))
  simp only [← mem_candidates?_iff_candidate hcandidates]
  -- the answers exclude each other, so each case settles all three equivalences
  rcases compared_cases m hcandidates with
    ⟨rfl, texts, rejects, h⟩ | ⟨hne, hnot, best, strict, h⟩ | ⟨v, hv, hstrict, h⟩
  · simp [h]
  · have hsome : ∃ v, v ∈ candidates := List.exists_mem_of_ne_nil candidates hne
    simpa [h] using And.intro hsome hnot
  · have hgood : ∃ v ∈ candidates, StrictlyAccepted requests v := ⟨v, hv, hstrict⟩
    simpa [h] using And.intro ⟨v, hv⟩ ⟨fun _ _ => hgood, hgood⟩

/-- Requests for one module: a dynamic selector that rejects its best match, the same selector with a
strict version, and a version that an ancestor covers with a constraint of its own. -/
def mixedRequests : List VersionRequest :=
  [{ requestedBy := "org:a:1.0"
     constraint := { required := some "1.+", rejects := ["1.9"] } },
   { requestedBy := "org:b:1.0"
     constraint := { required := some "1.+", strict := some "1.7" } },
   { requestedBy := "org:c:1.0"
     constraint := .require "3.0"
     inherited := some { required := some "1.0", rejects := ["1.8"], forSubgraph := true } }]

theorem select_sound_mixedRequests :
    select ⟨"org", "m"⟩ mixedRequests none (some ["1.7", "1.8", "1.9", "2.1"])
        = .ok (.selected ⟨"1.7", .compared⟩) ∧
      (∀ r ∈ mixedRequests, r.forced = true → r.constraint.requestedVersion = none) ∧
      (∀ r ∈ mixedRequests, r.pinned = none) ∧
      Justified mixedRequests (some ["1.7", "1.8", "1.9", "2.1"]) "1.7" ∧
      ∃ v, Candidate mixedRequests ["1.7", "1.8", "1.9", "2.1"] v ∧
        StrictlyAccepted mixedRequests v := by
  have hselect : select ⟨"org", "m"⟩ mixedRequests none (some ["1.7", "1.8", "1.9", "2.1"])
      = .ok (.selected ⟨"1.7", .compared⟩) := by
    decide +kernel
  have hforced : ∀ r ∈ mixedRequests, r.forced = true → r.constraint.requestedVersion = none := by
    decide
  have hpinned : ∀ r ∈ mixedRequests, r.pinned = none := by
    decide
  have h := select_sound ⟨"org", "m"⟩ mixedRequests none (some ["1.7", "1.8", "1.9", "2.1"])
  have hanswers := h.2 _ rfl rfl hforced hpinned
  exact ⟨hselect, hforced, hpinned, h.1 _ hselect, hanswers.2.2.1 ⟨_, hselect⟩⟩

end VersionChoice

end VariantGraph
