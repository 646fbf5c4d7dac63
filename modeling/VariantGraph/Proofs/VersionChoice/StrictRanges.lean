import VariantGraph.Proofs.Version.BestMatch
import VariantGraph.Proofs.VersionChoice.Comparison

/-!
# Strict ranges are intersected

When every request is strict about a range, only the best match of each range becomes a candidate,
and the candidates that some other range refuses are dropped. Nothing is lost by that: the lowest of
the best matches lies, for each range, between any version that all ranges accept and the best match
of that range, and a range accepts whatever lies between two versions that it accepts.

Main statements: `VersionChoice.strictlyAccepted_of_lowest`, `VersionChoice.select_strict_intervals`.
-/

namespace VariantGraph

namespace VersionChoice

open Std Version

variable {m : ModuleId} {requests : List VersionRequest} {versions candidates : List String}
  {text u v : String}

/-- A constraint demands strictly that a version lies in a range, or any version. -/
def StrictInterval (c : VersionConstraint) : Prop :=
  ∃ text, c.strict = some text ∧ c.required = some text ∧
    (Selector.parse text).isInterval = true

/-- The listed versions that nobody rejects and that every uncovered strict request accepts. -/
def admitted (requests : List VersionRequest) (versions : List String) : Set String :=
  {v | v ∈ versions ∧ (∀ r ∈ requests, ¬ Rejects r v) ∧ StrictlyAccepted requests v}

/-- The listed versions and the bounds of the ranges that uncovered requests are strict about. -/
def inSight (requests : List VersionRequest) (versions : List String) : List String :=
  versions ++ (strictRequests requests).flatMap fun s => s.2.boundVersions

theorem oneMarker_versions (h : OneMarker {w | w ∈ inSight requests versions}) :
    OneMarker {w | w ∈ versions} :=
  h.mono fun _ hw => List.mem_append_left _ hw

theorem mem_inSight_of_boundVersions {r : VersionRequest} (hr : r ∈ requests)
    (hnone : r.inherited = none) (htext : r.constraint.strict = some text)
    (hv : v ∈ (Selector.parse text).boundVersions) : v ∈ inSight requests versions := by
  refine List.mem_append_right _ (List.mem_flatMap.2 ⟨(r, Selector.parse text), ?_, hv⟩)
  refine List.mem_filterMap.2 ⟨r, mem_uncovered_iff.2 ⟨hr, hnone⟩, ?_⟩
  rw [htext]
  rfl

/-! ## Best matches -/

/-- A best match is the highest listed version that its selector accepts and that nobody rejects. -/
theorem bestMatch?_eq_some_iff {s : Selector} (h : OneMarker {w | w ∈ versions}) :
    s.bestMatch? versions (isRejected requests) = some v ↔
      IsHighest {w | w ∈ versions ∧ s.accepts w = true ∧ ∀ r ∈ requests, ¬ Rejects r w} v := by
  have hset : s.eligible versions (isRejected requests)
      = {w | w ∈ versions ∧ s.accepts w = true ∧ ∀ r ∈ requests, ¬ Rejects r w} := by
    ext w
    rw [Selector.eligible, Set.mem_ofPred_eq, Set.mem_ofPred_eq, isRejected_eq_false_iff]
  rw [Selector.bestMatch?_eq_some_iff h, hset]

/-- A version that a selector could match is not above the best match. -/
theorem exists_bestMatch? {s : Selector} (h : OneMarker {w | w ∈ versions}) (hu : u ∈ versions)
    (haccepts : s.accepts u = true) (hkept : ∀ r ∈ requests, ¬ Rejects r u) :
    ∃ v, s.bestMatch? versions (isRejected requests) = some v ∧ (steadyOrder u v).isLE = true := by
  cases hbest : s.bestMatch? versions (isRejected requests) with
  | none =>
    have hrejected := Selector.bestMatch?_eq_none_iff.1 hbest u hu haccepts
    rw [isRejected_eq_false_iff.2 hkept] at hrejected
    cases hrejected
  | some v =>
    have hhighest := (bestMatch?_eq_some_iff h).1 hbest
    exact ⟨v, rfl, ((isHighest_iff (h.mono fun w hw => hw.1)).1 hhighest).2 u ⟨hu, haccepts, hkept⟩⟩

/-! ## Strict intervals -/

section StrictIntervals

variable (huncovered : ∃ r ∈ requests, r.inherited = none)
  (hstrict : ∀ r ∈ requests, r.inherited = none → StrictInterval r.constraint)

include huncovered hstrict

/-- The texts that take part are those that the uncovered requests are strict about. -/
theorem proposed_iff : Proposed requests text ↔
    ∃ r ∈ requests, r.inherited = none ∧ r.constraint.strict = some text := by
  obtain ⟨r₀, hr₀, hnone₀⟩ := huncovered
  have hdemand : ∀ {r}, r ∈ requests → r.inherited = none →
      (r.constraint.required <|> r.constraint.strict) = r.constraint.strict := by
    intro r hr hnone
    obtain ⟨t, hs, hreq, -⟩ := hstrict r hr hnone
    rw [hs, hreq]
    rfl
  constructor
  · rintro ⟨c, hc, htext | ⟨hall, -⟩⟩
    · rcases hc with ⟨r, hr, hnone, rfl⟩ | ⟨hcovered, -⟩
      · exact ⟨r, hr, hnone, by rw [← hdemand hr hnone, htext]⟩
      · exact absurd hnone₀ (hcovered r₀ hr₀)
    · -- an uncovered request demands something
      obtain ⟨t, hs, -⟩ := hstrict r₀ hr₀ hnone₀
      have hnothing := hall r₀.constraint (.inl ⟨r₀, hr₀, hnone₀, rfl⟩)
      rw [hdemand hr₀ hnone₀, hs] at hnothing
      cases hnothing
  · rintro ⟨r, hr, hnone, htext⟩
    exact ⟨r.constraint, .inl ⟨r, hr, hnone, rfl⟩, .inl (by rw [hdemand hr hnone, htext])⟩

/-- The candidates are the best matches of the intervals. -/
theorem candidate_iff : Candidate requests versions v ↔
    ∃ r ∈ requests, r.inherited = none ∧ ∃ text, r.constraint.strict = some text ∧
      (Selector.parse text).bestMatch? versions (isRejected requests) = some v := by
  have hdynamic : ∀ {r text}, r ∈ requests → r.inherited = none →
      r.constraint.strict = some text → (Selector.parse text).isDynamic = true := by
    intro r text hr hnone htext
    obtain ⟨t, hs, -, hinterval⟩ := hstrict r hr hnone
    obtain rfl := Option.some.inj (hs.symm.trans htext)
    revert hinterval
    cases Selector.parse t <;> simp [Selector.isInterval, Selector.isDynamic]
  constructor
  · rintro (⟨hproposed, hstatic, -⟩ | ⟨hproposed, -, hbest⟩)
    · obtain ⟨r, hr, hnone, htext⟩ := (proposed_iff huncovered hstrict).1 hproposed
      rw [hdynamic hr hnone htext] at hstatic
      cases hstatic
    · obtain ⟨r, hr, hnone, htext⟩ := (proposed_iff huncovered hstrict).1 hproposed
      exact ⟨r, hr, hnone, _, htext, hbest⟩
  · rintro ⟨r, hr, hnone, text, htext, hbest⟩
    exact .matched ((proposed_iff huncovered hstrict).2 ⟨r, hr, hnone, htext⟩)
      (hdynamic hr hnone htext) hbest

/-- The candidates are listed. -/
theorem mem_versions_of_candidate (hv : Candidate requests versions v) : v ∈ versions := by
  obtain ⟨r, -, -, text, -, hbest⟩ := (candidate_iff huncovered hstrict).1 hv
  exact (Selector.bestMatch?_eq_some hbest).1

variable (hmarker : OneMarker {w | w ∈ inSight requests versions})

include hmarker

/-- All uncovered requests accept the lowest best match, if they accept any listed version that
nobody rejects, and it is not below that version. -/
theorem strictlyAccepted_of_lowest (hv : Candidate requests versions v)
    (hlow : ∀ w, Candidate requests versions w → (steadyOrder v w).isLE = true)
    (hu : u ∈ admitted requests versions) :
    StrictlyAccepted requests v ∧ (steadyOrder u v).isLE = true := by
  obtain ⟨hlisted, hkept, haccepted⟩ := hu
  have hlist := oneMarker_versions hmarker
  obtain ⟨r₀, hr₀, hnone₀, text₀, htext₀, hbest₀⟩ := (candidate_iff huncovered hstrict).1 hv
  have hvlisted := (Selector.bestMatch?_eq_some hbest₀).1
  have huv : (steadyOrder u v).isLE = true := by
    obtain ⟨v', hbest, hle⟩ :=
      exists_bestMatch? hlist hlisted (haccepted r₀ hr₀ hnone₀ text₀ htext₀) hkept
    obtain rfl := Option.some.inj (hbest₀.symm.trans hbest)
    exact hle
  refine ⟨?_, huv⟩
  intro r hr hnone text htext
  have hu := haccepted r hr hnone text htext
  obtain ⟨w, hbest, -⟩ := exists_bestMatch? hlist hlisted hu hkept
  obtain ⟨hwlisted, hw, -⟩ := Selector.bestMatch?_eq_some hbest
  have hvw := hlow w ((candidate_iff huncovered hstrict).2 ⟨r, hr, hnone, text, htext, hbest⟩)
  obtain ⟨t, hs, -, hinterval⟩ := hstrict r hr hnone
  obtain rfl := Option.some.inj (hs.symm.trans htext)
  -- the lowest best match lies between the version that all accept and the best match of `r`
  refine Selector.accepts_of_between hmarker hinterval ?_ (List.mem_append_left _ hlisted)
    (List.mem_append_left _ hvlisted) (List.mem_append_left _ hwlisted) ?_ ?_ hu hw
  · exact fun b hb => mem_inSight_of_boundVersions hr hnone hs hb
  · rw [order_eq_steadyOrder hlist hlisted hvlisted]
    exact huv
  · rw [order_eq_steadyOrder hlist hvlisted hwlisted]
    exact hvw

/-- If there is a version to choose, all uncovered requests accept a candidate that is not below any
of the versions to choose from. -/
theorem exists_candidate_of_mem_admitted
    (hmem : ∀ {w}, w ∈ candidates ↔ Candidate requests versions w)
    (hu : u ∈ admitted requests versions) :
    ∃ v, Candidate requests versions v ∧ StrictlyAccepted requests v ∧
      ∀ w ∈ admitted requests versions, (steadyOrder w v).isLE = true := by
  have hlist := oneMarker_versions hmarker
  have hne : candidates ≠ [] := by
    obtain ⟨r, hr, hnone⟩ := huncovered
    obtain ⟨text, htext, -⟩ := hstrict r hr hnone
    obtain ⟨v, hbest, -⟩ := exists_bestMatch? hlist hu.1 (hu.2.2 r hr hnone text htext) hu.2.1
    have hv := (candidate_iff ⟨r, hr, hnone⟩ hstrict).2 ⟨r, hr, hnone, text, htext, hbest⟩
    exact List.ne_nil_of_mem (hmem.2 hv)
  obtain ⟨v, hv, hlow⟩ := exists_lowest hne
  have hlowest : ∀ w ∈ admitted requests versions,
      StrictlyAccepted requests v ∧ (steadyOrder w v).isLE = true := fun w hw =>
    strictlyAccepted_of_lowest huncovered hstrict hmarker (hmem.1 hv)
      (fun c hc => hlow c (hmem.2 hc)) hw
  exact ⟨v, hmem.1 hv, (hlowest u hu).1, fun w hw => (hlowest w hw).2⟩

/-- Comparing fails when there is no version to choose, and finds the highest one otherwise. -/
theorem compared_intervals_cases (m : ModuleId) :
    ((∃ e, compared m requests (some versions) = .error e) ∧
        ∀ v, v ∉ admitted requests versions) ∨
      ∃ v, IsHighest (admitted requests versions) v ∧
        compared m requests (some versions) = .ok (.selected ⟨v, .compared⟩) := by
  have hlist := oneMarker_versions hmarker
  obtain ⟨candidates, hcandidates⟩ := Option.ne_none_iff_exists'.1
    (candidates?_ne_none (isRejected requests) versions (requested (participating requests)))
  have hmem : ∀ {w}, w ∈ candidates ↔ Candidate requests versions w :=
    mem_candidates?_iff_candidate hcandidates
  have hexists : ∀ {u}, u ∈ admitted requests versions → ∃ v ∈ candidates,
      StrictlyAccepted requests v ∧
        ∀ w ∈ admitted requests versions, (steadyOrder w v).isLE = true := by
    intro u hu
    obtain ⟨v, hv, hrest⟩ := exists_candidate_of_mem_admitted huncovered hstrict hmarker hmem hu
    exact ⟨v, hmem.2 hv, hrest⟩
  rcases compared_cases m hcandidates with
    ⟨rfl, _, _, he⟩ | ⟨-, hnot, _, _, he⟩ | ⟨v, hv, haccepted, hok⟩
  · refine .inl ⟨⟨_, he⟩, fun u hu => ?_⟩
    obtain ⟨v, hv, -⟩ := hexists hu
    cases hv
  · refine .inl ⟨⟨_, he⟩, fun u hu => ?_⟩
    obtain ⟨v, hv, haccepted, -⟩ := hexists hu
    exact hnot v hv haccepted
  · have hlisted : ∀ w ∈ candidates, w ∈ versions := fun w hw =>
      mem_versions_of_candidate huncovered hstrict (hmem.1 hw)
    have hkept := isRejected_eq_false_iff.1 (not_rejected_of_mem_candidates? hcandidates hv)
    have hadmitted : v ∈ admitted requests versions := ⟨hlisted v hv, hkept, haccepted⟩
    refine .inr ⟨v, (isHighest_iff (hlist.mono fun w hw => hw.1)).2 ⟨hadmitted, ?_⟩, hok⟩
    -- the chosen candidate is not below the one that is not below any version to choose from
    obtain ⟨c, hc, hcaccepted, hle⟩ := hexists hadmitted
    have hhighest := isHighest_of_compared hcandidates (hlist.mono hlisted) hok
    have hcv := ((isHighest_iff (hlist.mono fun w hw => hlisted w hw.1)).1 hhighest).2 c
      ⟨hc, hcaccepted⟩
    exact fun w hw => TransCmp.isLE_trans (hle w hw) hcv

end StrictIntervals

/-- When nothing is forced or pinned and the uncovered requests are strict about ranges, the choice
is the highest listed version that nobody rejects and that all those ranges accept, and it fails
exactly when there is no such version. -/
theorem select_strict_intervals (m : ModuleId)
    (hforced : ∀ r ∈ requests, r.forced = true → r.constraint.requestedVersion = none)
    (hpinned : ∀ r ∈ requests, r.pinned = none)
    (huncovered : ∃ r ∈ requests, r.inherited = none)
    (hstrict : ∀ r ∈ requests, r.inherited = none → StrictInterval r.constraint)
    (hmarker : OneMarker {w | w ∈ inSight requests versions}) :
    (∀ d, select m requests none (some versions) = .ok d ↔
      ∃ v, IsHighest (admitted requests versions) v ∧ d = .selected ⟨v, .compared⟩) ∧
    ((∃ e, select m requests none (some versions) = .error e) ↔
      ∀ v, v ∉ admitted requests versions) := by
  rw [select_eq_compared m _ hforced hpinned]
  rcases compared_intervals_cases huncovered hstrict hmarker m with
    ⟨⟨e, he⟩, hempty⟩ | ⟨v, hv, hok⟩
  · rw [he]
    refine ⟨fun d => ⟨?_, ?_⟩, fun _ => hempty, fun _ => ⟨e, rfl⟩⟩
    · intro h
      cases h
    · rintro ⟨v, hv, -⟩
      exact absurd hv.mem (hempty v)
  · have hadmitted : OneMarker (admitted requests versions) :=
      hmarker.mono fun w hw => List.mem_append_left _ hw.1
    rw [hok]
    refine ⟨fun d => ⟨?_, ?_⟩, ?_, ?_⟩
    · intro h
      cases h
      exact ⟨v, hv, rfl⟩
    · rintro ⟨w, hw, rfl⟩
      rw [hv.unique hadmitted hw]
    · rintro ⟨e, he⟩
      cases he
    · intro hempty
      exact absurd hv.mem (hempty v)

/-- Requests that are strict about overlapping ranges, each of which matches another version best, and
a version that an ancestor covers with a constraint that rejects the best match of one of them. -/
def overlappingRequests : List VersionRequest :=
  [{ requestedBy := "org:a:1.0", constraint := .strictly "[1.0,3.0)" },
   { requestedBy := "org:b:1.0", constraint := .strictly "(,2.5[" },
   { requestedBy := "org:c:1.0", constraint := .strictly "latest" },
   { requestedBy := "org:d:1.0"
     constraint := .require "9.9"
     inherited := some { required := some "1.0", rejects := ["[2.4]"], forSubgraph := true } }]

theorem select_strict_intervals_overlapping :
    let versions := ["1.0", "2.5", "2.2-GA", "2.4", "3.1", "2.2-rc"]
    (∀ r ∈ overlappingRequests, r.forced = true → r.constraint.requestedVersion = none) ∧
      (∀ r ∈ overlappingRequests, r.pinned = none) ∧
      (∃ r ∈ overlappingRequests, r.inherited = none) ∧
      (∀ r ∈ overlappingRequests, r.inherited = none → StrictInterval r.constraint) ∧
      OneMarker {w | w ∈ inSight overlappingRequests versions} ∧
      select ⟨"org", "m"⟩ overlappingRequests none (some versions)
        = .ok (.selected ⟨"2.2-GA", .compared⟩) ∧
      IsHighest (admitted overlappingRequests versions) "2.2-GA" := by
  intro versions
  have hforced : ∀ r ∈ overlappingRequests, r.forced = true →
      r.constraint.requestedVersion = none := by
    decide
  have hpinned : ∀ r ∈ overlappingRequests, r.pinned = none := by
    decide
  have huncovered : ∃ r ∈ overlappingRequests, r.inherited = none := by
    decide
  have hstrict : ∀ r ∈ overlappingRequests, r.inherited = none → StrictInterval r.constraint := by
    have hall : ∀ r ∈ overlappingRequests, r.inherited = none → ∃ text ∈ r.constraint.strict,
        r.constraint.required = some text ∧ (Selector.parse text).isInterval = true := by
      decide +kernel
    intro r hr hnone
    obtain ⟨text, htext, hrest⟩ := hall r hr hnone
    exact ⟨text, htext, hrest⟩
  have hmarker : OneMarker {w | w ∈ inSight overlappingRequests versions} := by
    decide +kernel
  have hselect : select ⟨"org", "m"⟩ overlappingRequests none (some versions)
      = .ok (.selected ⟨"2.2-GA", .compared⟩) := by
    decide +kernel
  obtain ⟨v, hv, hd⟩ :=
    ((select_strict_intervals ⟨"org", "m"⟩ hforced hpinned huncovered hstrict hmarker).1 _).1 hselect
  cases hd
  exact ⟨hforced, hpinned, huncovered, hstrict, hmarker, hselect, hv⟩

end VersionChoice

end VariantGraph
