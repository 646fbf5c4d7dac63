import VariantGraph.Proofs.Version.Selector
import VariantGraph.Proofs.VersionChoice.Discovery

/-!
# Blanks around the texts of requests

A selector is read without the blanks around its text, and so is everything that strict requests and
rejections say. But a version that is stated as it is, without a dynamic selector, is taken with its
blanks: as a candidate, and when it is forced or pinned. Trimming all texts of a choice changes
nothing as long as none of the versions that decide it is stated with blanks.

Main statement: `VersionChoice.answer_select_trimmed`.
-/

namespace VariantGraph

open VariantGraph.Text

/-- A text that selects the same as it is and as a selector: one that is dynamic or has no blanks
around it. -/
def Selector.Plain (text : String) : Prop := (parse text).isDynamic = true ∨ trim text = text

/-! ## Trimmed requests -/

/-- The constraint without blanks around its texts. -/
def VersionConstraint.trimmed (c : VersionConstraint) : VersionConstraint :=
  { c with
    preferred := c.preferred.map trim
    required := c.required.map trim
    strict := c.strict.map trim
    rejects := c.rejects.map trim }

/-- The pin without blanks around its version. -/
def Pin.trimmed (p : Pin) : Pin := { p with version := trim p.version }

/-- The request without blanks around the texts of its constraints and of its pin. -/
def VersionRequest.trimmed (r : VersionRequest) : VersionRequest :=
  { r with
    constraint := r.constraint.trimmed
    pinned := r.pinned.map Pin.trimmed
    inherited := r.inherited.map VersionConstraint.trimmed }

/-- The chosen version without blanks around it. -/
def SelectedVersion.trimmed (s : SelectedVersion) : SelectedVersion :=
  { s with version := trim s.version }

@[simp] theorem VersionConstraint.requestedVersion_trimmed (c : VersionConstraint) :
    c.trimmed.requestedVersion = c.requestedVersion.map trim := by
  obtain ⟨preferred, required, strict, rejects, forSubgraph⟩ := c
  cases strict <;> cases required <;> rfl

/-- What a trimmed constraint demands. -/
theorem VersionConstraint.demanded_trimmed (c : VersionConstraint) :
    (c.trimmed.required <|> c.trimmed.strict) = (c.required <|> c.strict).map trim := by
  obtain ⟨preferred, required, strict, rejects, forSubgraph⟩ := c
  cases required <;> rfl

namespace VersionChoice

open Version Selector

variable {m : ModuleId} {requests : List VersionRequest} {listing : Option (List String)}
  {text v : String}

/-! ## What is forced or pinned -/

theorem forcedByEdges_map_trimmed : forcedByEdges (requests.map VersionRequest.trimmed)
    = (forcedByEdges requests).map SelectedVersion.trimmed := by
  unfold forcedByEdges
  rw [List.filterMap_map, List.map_filterMap]
  refine List.filterMap_congr fun r _ => ?_
  simp only [Function.comp, VersionRequest.trimmed, VersionConstraint.requestedVersion_trimmed]
  split
  · rw [Option.map_map, Option.map_map]
    rfl
  · rfl

theorem pinnedByRules_map_trimmed : pinnedByRules (requests.map VersionRequest.trimmed)
    = (pinnedByRules requests).map SelectedVersion.trimmed := by
  unfold pinnedByRules
  rw [List.filterMap_map, List.map_filterMap]
  refine List.filterMap_congr fun r _ => ?_
  simp only [Function.comp, VersionRequest.trimmed, Option.map_map]
  rfl

theorem deciding_map_trimmed : deciding (requests.map VersionRequest.trimmed)
    = (deciding requests).map SelectedVersion.trimmed := by
  unfold deciding
  rw [forcedByEdges_map_trimmed, pinnedByRules_map_trimmed, apply_ite (List.map _)]
  simp only [List.map_eq_nil_iff]

theorem settled?_trim (h : Plain text) : settled? listing (trim text) = settled? listing text := by
  unfold settled?
  rw [parse_trim]
  rcases h with hdynamic | htrim
  · rw [if_pos hdynamic, if_pos hdynamic]
  · rw [htrim]

/-- Trimming plain versions changes at most the text that a failure to settle them names. -/
theorem settleHighest_map_trimmed (m : ModuleId) (listing : Option (List String))
    {l : List SelectedVersion} (h : ∀ s ∈ l, Plain s.version) (best : Option SelectedVersion) :
    settleHighest m listing (l.map SelectedVersion.trimmed) best = settleHighest m listing l best ∨
      ∃ a b, settleHighest m listing l best = .error (.unsatisfied m [a] []) ∧
        settleHighest m listing (l.map SelectedVersion.trimmed) best
          = .error (.unsatisfied m [b] []) := by
  induction l generalizing best with
  | nil => exact .inl rfl
  | cons s rest ih =>
    -- the first version settles alike, so the same one is the best before the rest
    obtain ⟨hs, hrest⟩ := List.forall_mem_cons.1 h
    have hsame : settled? listing s.trimmed.version = settled? listing s.version := settled?_trim hs
    rw [List.map_cons, settleHighest, settleHighest]
    cases hv : settled? listing s.version with
    | some v =>
      rw [settle_of_settled? m s.cause hv, settle_of_settled? m s.trimmed.cause (hsame.trans hv)]
      exact ih hrest _
    | none =>
      rcases settle_of_settled?_eq_none m s.cause hv with ⟨hl, hsettle⟩ | ⟨hl, hsettle⟩
      · rcases settle_of_settled?_eq_none m s.trimmed.cause (hsame.trans hv) with
          ⟨-, hsettle'⟩ | ⟨hl', -⟩
        · rw [hsettle, hsettle']
          exact .inl rfl
        · exact absurd hl hl'
      · rcases settle_of_settled?_eq_none m s.trimmed.cause (hsame.trans hv) with
          ⟨hl', -⟩ | ⟨-, hsettle'⟩
        · exact absurd hl' hl
        · rw [hsettle, hsettle']
          exact .inr ⟨s.version, s.trimmed.version, rfl, rfl⟩

/-- Where plain versions decide a choice, trimming does not change the answer. -/
theorem answer_select_trimmed_of_deciding (hne : deciding requests ≠ [])
    (h : ∀ s ∈ deciding requests, Plain s.version) :
    answer (select m (requests.map VersionRequest.trimmed) none listing)
      = answer (select m requests none listing) := by
  obtain ⟨outcome, houtcome⟩ : ∃ outcome : Except VersionError Decision,
      settleHighest m listing (deciding requests) none = outcome.map some := by
    have hstart : Kept listing [] none := rfl
    rcases settleHighest_cases m (l := deciding requests) hstart with
      ⟨best, hbest, hok⟩ | ⟨outcome, -, hout⟩
    · cases best with
      | none => exact absurd hbest hne
      | some s => exact ⟨.ok (.selected s), hok⟩
    · exact ⟨outcome, hout⟩
  rw [select_of_settleHighest houtcome]
  rcases settleHighest_map_trimmed m listing h none with hsame | ⟨a, b, ha, hb⟩
  · rw [← deciding_map_trimmed] at hsame
    rw [select_of_settleHighest (hsame.trans houtcome)]
  · rw [← deciding_map_trimmed] at hb
    have hb : select m (requests.map VersionRequest.trimmed) none listing
        = .error (.unsatisfied m [b] []) := select_of_settleHighest hb
    rw [hb]
    cases outcome with
    | error e =>
      obtain rfl := Except.error.inj (houtcome.symm.trans ha)
      rfl
    | ok d => cases houtcome.symm.trans ha

/-- The version that a rule forces is trimmed without a change of the answer only if it is plain. -/
theorem answer_select_forced_trimmed_iff (requests requests' : List VersionRequest) :
    answer (select m requests' (some (trim text)) listing)
      = answer (select m requests (some text) listing) ↔ Plain text := by
  unfold select
  dsimp only
  unfold settle
  dsimp only
  rw [parse_trim]
  cases hdynamic : (parse text).isDynamic with
  | true =>
    refine ⟨fun _ => .inl hdynamic, fun _ => ?_⟩
    cases listing with
    | none => rfl
    | some versions =>
      dsimp only
      cases (parse text).bestMatch? versions fun _ => false <;> rfl
  | false =>
    have hplain : Plain text ↔ trim text = text := by
      unfold Plain
      rw [hdynamic]
      simp
    rw [hplain]
    exact ⟨fun h => (Answer.selected.inj h).1, fun h => by rw [h]⟩

/-! ## What is compared -/

theorem rejects_trimmed_iff {r : VersionRequest} : Rejects r.trimmed v ↔ Rejects r v := by
  unfold Rejects
  constructor
  · rintro ⟨text, htext | ⟨c, hc, htext⟩, haccepts⟩
    · obtain ⟨raw, hraw, rfl⟩ := List.mem_map.1 htext
      exact ⟨raw, .inl hraw, parse_trim raw ▸ haccepts⟩
    · obtain ⟨d, hd, rfl⟩ := Option.map_eq_some_iff.1 hc
      obtain ⟨raw, hraw, rfl⟩ := List.mem_map.1 htext
      exact ⟨raw, .inr ⟨d, hd, hraw⟩, parse_trim raw ▸ haccepts⟩
  · rintro ⟨text, htext | ⟨c, hc, htext⟩, haccepts⟩
    · exact ⟨trim text, .inl (List.mem_map_of_mem htext), (parse_trim text).symm ▸ haccepts⟩
    · exact ⟨trim text, .inr ⟨c.trimmed, Option.map_eq_some_iff.2 ⟨c, hc, rfl⟩,
        List.mem_map_of_mem htext⟩, (parse_trim text).symm ▸ haccepts⟩

theorem isRejected_map_trimmed :
    isRejected (requests.map VersionRequest.trimmed) = isRejected requests := by
  funext v
  rw [Bool.eq_iff_iff, isRejected_iff, isRejected_iff]
  simp only [List.mem_map, exists_exists_and_eq_and, rejects_trimmed_iff]

theorem strictlyAccepted_map_trimmed_iff :
    StrictlyAccepted (requests.map VersionRequest.trimmed) v ↔ StrictlyAccepted requests v := by
  unfold StrictlyAccepted
  rw [List.forall_mem_map]
  simp only [VersionRequest.trimmed, VersionConstraint.trimmed, Option.map_eq_none_iff,
    Option.map_eq_some_iff, forall_exists_index, and_imp, forall_apply_eq_imp_iff₂, parse_trim]

theorem participates_map_trimmed_iff {c : VersionConstraint} :
    Participates (requests.map VersionRequest.trimmed) c ↔
      ∃ d, Participates requests d ∧ d.trimmed = c := by
  unfold Participates
  rw [List.forall_mem_map]
  simp only [List.mem_map, exists_exists_and_eq_and, VersionRequest.trimmed, ne_eq,
    Option.map_eq_none_iff, Option.map_eq_some_iff]
  constructor
  · rintro (⟨r, hr, hnone, rfl⟩ | ⟨hall, r, hr, d, hd, rfl⟩)
    · exact ⟨_, .inl ⟨r, hr, hnone, rfl⟩, rfl⟩
    · exact ⟨d, .inr ⟨hall, r, hr, hd⟩, rfl⟩
  · rintro ⟨d, ⟨r, hr, hnone, rfl⟩ | ⟨hall, r, hr, hd⟩, rfl⟩
    · exact .inl ⟨r, hr, hnone, rfl⟩
    · exact .inr ⟨hall, r, hr, d, hd, rfl⟩

theorem proposed_map_trimmed_iff : Proposed (requests.map VersionRequest.trimmed) text ↔
    ∃ raw, Proposed requests raw ∧ trim raw = text := by
  unfold Proposed
  simp only [participates_map_trimmed_iff, forall_exists_index, and_imp, forall_apply_eq_imp_iff₂,
    VersionConstraint.demanded_trimmed, Option.map_eq_none_iff]
  constructor
  · rintro ⟨-, ⟨c, hc, rfl⟩, hdemanded | ⟨hall, hpreferred⟩⟩
    · rw [VersionConstraint.demanded_trimmed, Option.map_eq_some_iff] at hdemanded
      obtain ⟨raw, hraw, rfl⟩ := hdemanded
      exact ⟨raw, ⟨c, hc, .inl hraw⟩, rfl⟩
    · obtain ⟨raw, hraw, rfl⟩ := Option.map_eq_some_iff.1 hpreferred
      exact ⟨raw, ⟨c, hc, .inr ⟨hall, hraw⟩⟩, rfl⟩
  · rintro ⟨raw, ⟨c, hc, hdemanded | ⟨hall, hpreferred⟩⟩, rfl⟩
    · refine ⟨c.trimmed, ⟨c, hc, rfl⟩, .inl ?_⟩
      rw [VersionConstraint.demanded_trimmed, hdemanded]
      rfl
    · exact ⟨c.trimmed, ⟨c, hc, rfl⟩, .inr ⟨hall, Option.map_eq_some_iff.2 ⟨raw, hpreferred, rfl⟩⟩⟩

theorem candidateOf_trim {isRejected : String → Bool} (h : Plain text) :
    candidateOf isRejected listing (trim text) = candidateOf isRejected listing text := by
  unfold candidateOf
  rw [parse_trim]
  rcases h with hdynamic | htrim
  · dsimp only
    rw [hdynamic]
    rfl
  · rw [htrim]

theorem candidateOf_eq_none_iff {isRejected : String → Bool} :
    candidateOf isRejected listing text = none ↔
      listing = none ∧ (parse text).isDynamic = true := by
  unfold candidateOf
  dsimp only
  cases (parse text).isDynamic <;> simp

/-- The candidates are unknown exactly if a dynamic selector waits for the listing. -/
theorem candidates?_eq_none_iff {isRejected : String → Bool} {texts : List String} :
    candidates? isRejected listing texts = none ↔
      listing = none ∧ ∃ text ∈ texts, (parse text).isDynamic = true := by
  unfold candidates?
  rw [Option.map_eq_none_iff]
  induction texts with
  | nil => simp
  | cons text rest ih =>
    have hfirst : candidateOf isRejected listing text = none ↔
        listing = none ∧ (parse text).isDynamic = true := candidateOf_eq_none_iff
    rw [List.exists_mem_cons_iff, and_or_left, ← ih, ← hfirst, List.mapM_cons]
    cases candidateOf isRejected listing text with
    | none => simp
    | some c => cases rest.mapM (candidateOf isRejected listing) <;> simp

theorem compared_of_candidates?_eq_none (m : ModuleId)
    (h : candidates? (isRejected requests) listing (requested (participating requests)) = none) :
    compared m requests listing = .ok .needsListing := by
  unfold compared
  dsimp only
  rw [h]

/-- A comparison is answered from the candidates as a set, if they have one marker. -/
theorem answer_compared_of_candidates {requests' : List VersionRequest}
    {candidates candidates' : List String} (m : ModuleId)
    (h : candidates? (isRejected requests) listing (requested (participating requests))
      = some candidates)
    (h' : candidates? (isRejected requests') listing (requested (participating requests'))
      = some candidates')
    (hmem : ∀ v, v ∈ candidates ↔ v ∈ candidates')
    (hstrict : ∀ v, StrictlyAccepted requests v ↔ StrictlyAccepted requests' v)
    (hmarker : OneMarker {v | v ∈ candidates'}) :
    answer (compared m requests listing) = answer (compared m requests' listing) := by
  have hnil : candidates = [] ↔ candidates' = [] := by
    simp only [List.eq_nil_iff_forall_not_mem, hmem]
  -- answers of two kinds contradict the sets being the same
  rcases compared_cases m h with
    ⟨hcandidates, _, _, he⟩ | ⟨hne, hnot, _, _, he⟩ | ⟨v, hv, haccepted, hok⟩
  · rcases compared_cases m h' with ⟨-, _, _, he'⟩ | ⟨hne', -⟩ | ⟨w, hw, -⟩
    · rw [he, he']
      rfl
    · exact absurd (hnil.1 hcandidates) hne'
    · exact absurd (hnil.1 hcandidates) (List.ne_nil_of_mem hw)
  · rcases compared_cases m h' with ⟨hcandidates', -⟩ | ⟨-, -, _, _, he'⟩ | ⟨w, hw, haccepted, -⟩
    · exact absurd (hnil.2 hcandidates') hne
    · rw [he, he']
      rfl
    · exact absurd ((hstrict w).2 haccepted) (hnot w ((hmem w).2 hw))
  · rcases compared_cases m h' with ⟨hcandidates', -⟩ | ⟨-, hnot', -⟩ | ⟨w, hw, -, hok'⟩
    · exact absurd (hnil.2 hcandidates') (List.ne_nil_of_mem hv)
    · exact absurd ((hstrict v).1 haccepted) (hnot' v ((hmem v).1 hv))
    · -- both versions are the highest of one set
      have hsame : {u | u ∈ candidates ∧ StrictlyAccepted requests u}
          = {u | u ∈ candidates' ∧ StrictlyAccepted requests' u} := by
        ext u
        exact and_congr (hmem u) (hstrict u)
      have hhighest := isHighest_of_compared h (hmarker.mono fun u hu => (hmem u).1 hu) hok
      rw [hsame] at hhighest
      have hhighest' := isHighest_of_compared h' hmarker hok'
      rw [hok, hok', hhighest.unique (hmarker.mono fun u hu => hu.1) hhighest']

/-- Texts without blanks take part with trimming as they do without. -/
theorem requested_map_trimmed (h : ∀ text, Proposed requests text → trim text = text) :
    requested (participating (requests.map VersionRequest.trimmed))
      = requested (participating requests) := by
  refine congrArg OrderedSet.elements (OrderedSet.ext_elements fun text => ?_)
  refine (mem_requested_iff.trans ?_).trans mem_requested_iff.symm
  rw [proposed_map_trimmed_iff]
  constructor
  · rintro ⟨raw, hraw, rfl⟩
    rwa [h raw hraw]
  · exact fun htext => ⟨text, htext, h text htext⟩

theorem mem_candidates?_map_trimmed_iff {candidates candidates' : List String}
    (hplain : ∀ text, Proposed requests text → Plain text)
    (h : candidates? (isRejected requests) listing (requested (participating requests))
      = some candidates)
    (h' : candidates? (isRejected (requests.map VersionRequest.trimmed)) listing
        (requested (participating (requests.map VersionRequest.trimmed))) = some candidates') :
    v ∈ candidates' ↔ v ∈ candidates := by
  rw [mem_candidates?_iff h, mem_candidates?_iff h', isRejected_map_trimmed]
  simp only [mem_requested_iff, proposed_map_trimmed_iff]
  constructor
  · rintro ⟨-, ⟨raw, hraw, rfl⟩, hv⟩
    exact ⟨raw, hraw, (candidateOf_trim (hplain raw hraw)).symm.trans hv⟩
  · rintro ⟨raw, hraw, hv⟩
    exact ⟨trim raw, ⟨raw, hraw, rfl⟩, (candidateOf_trim (hplain raw hraw)).trans hv⟩

/-- Where plain texts are compared, trimming does not change the answer, if no text that takes part
has blanks around it or the candidates have one marker. -/
theorem answer_compared_trimmed (m : ModuleId) (listing : Option (List String))
    (hplain : ∀ text, Proposed requests text → Plain text)
    (hmarker : (∀ text, Proposed requests text → trim text = text) ∨
      ∀ versions, listing = some versions → OneMarker {v | Candidate requests versions v}) :
    answer (compared m (requests.map VersionRequest.trimmed) listing)
      = answer (compared m requests listing) := by
  by_cases htrim : ∀ text, Proposed requests text → trim text = text
  · refine answer_compared_of_texts m listing isRejected_map_trimmed (requested_map_trimmed htrim)
      fun v => ?_
    rw [Bool.eq_iff_iff, all_strictRequests_iff, all_strictRequests_iff,
      strictlyAccepted_map_trimmed_iff]
  · have hmarker := hmarker.resolve_left htrim
    push Not at htrim
    obtain ⟨text, hproposed, hblanks⟩ := htrim
    have hdynamic := (hplain text hproposed).resolve_right hblanks
    cases listing with
    | none =>
      -- the text with blanks waits for the listing
      have hwaits : candidates? (isRejected requests) none (requested (participating requests))
          = none :=
        candidates?_eq_none_iff.2 ⟨rfl, text, mem_requested_iff.2 hproposed, hdynamic⟩
      have hwaits' : candidates? (isRejected (requests.map VersionRequest.trimmed)) none
          (requested (participating (requests.map VersionRequest.trimmed))) = none :=
        candidates?_eq_none_iff.2 ⟨rfl, trim text,
          mem_requested_iff.2 (proposed_map_trimmed_iff.2 ⟨text, hproposed, rfl⟩),
          (parse_trim text).symm ▸ hdynamic⟩
      rw [compared_of_candidates?_eq_none m hwaits, compared_of_candidates?_eq_none m hwaits']
    | some versions =>
      obtain ⟨candidates, hcandidates⟩ := Option.ne_none_iff_exists'.1
        (candidates?_ne_none (isRejected requests) versions (requested (participating requests)))
      obtain ⟨candidates', hcandidates'⟩ := Option.ne_none_iff_exists'.1
        (candidates?_ne_none (isRejected (requests.map VersionRequest.trimmed)) versions
          (requested (participating (requests.map VersionRequest.trimmed))))
      refine answer_compared_of_candidates m hcandidates' hcandidates ?_ ?_ ?_
      · exact fun v => mem_candidates?_map_trimmed_iff hplain hcandidates hcandidates'
      · exact fun v => strictlyAccepted_map_trimmed_iff
      · exact (hmarker versions rfl).mono fun v hv =>
          (mem_candidates?_iff_candidate hcandidates).1 hv

/-! ## A single strict request -/

/-- A request is strict about a version that is not dynamic, and nothing covers, pins or rejects
that version. -/
structure StrictlyStates (r : VersionRequest) (text : String) : Prop where
  strict : r.constraint.strict = some text
  demanded : (r.constraint.required <|> r.constraint.strict) = some text
  static : (parse text).isDynamic = false
  uncovered : r.inherited = none
  unpinned : r.pinned = none
  kept : ¬ Rejects r (trim text)

section StrictlyStates

variable {r : VersionRequest} (h : StrictlyStates r text)

include h

theorem StrictlyStates.proposed_iff {raw : String} : Proposed [r] raw ↔ raw = text := by
  have hparticipates : ∀ {c}, Participates [r] c ↔ c = r.constraint := by
    intro c
    simp [Participates, h.uncovered, eq_comm]
  simp only [Proposed, hparticipates, forall_eq, exists_eq_left, h.demanded]
  simp [eq_comm]

theorem StrictlyStates.strictlyAccepted_iff :
    StrictlyAccepted [r] v ↔ (parse text).accepts v = true := by
  simp [StrictlyAccepted, h.uncovered, h.strict]

theorem StrictlyStates.select_of_forced (m : ModuleId) (listing : Option (List String))
    (hforced : r.forced = true) :
    select m [r] none listing = .ok (.selected ⟨text, .forced⟩) := by
  have hversion : r.constraint.requestedVersion = some text := by
    rw [VersionConstraint.requestedVersion, h.strict]
    rfl
  have hdeciding : deciding [r] = [⟨text, .forced⟩] := by
    simp [deciding, forcedByEdges, hforced, hversion]
  have hsettled : settled? listing text = some text := by
    rw [settled?, h.static]
    rfl
  refine select_of_settleHighest ?_
  rw [hdeciding, settleHighest, settle_of_settled? m .forced hsettled]
  rfl

theorem StrictlyStates.mem_candidates_iff {candidates : List String}
    (hcandidates : candidates? (isRejected [r]) listing (requested (participating [r]))
      = some candidates) : v ∈ candidates ↔ text = v ∧ ¬ Rejects r v := by
  have hrejected : isRejected [r] v = false ↔ ¬ Rejects r v := by
    rw [isRejected_eq_false_iff, List.forall_mem_singleton]
  rw [mem_candidates?_iff hcandidates, ← hrejected]
  simp only [mem_requested_iff, h.proposed_iff, exists_eq_left, candidateOf_eq_some_iff, h.static,
    Bool.false_eq_true, false_and, or_false, true_and]

/-- The choice resolves to a version that the selector of the request accepts exactly if the request
states its version without blanks around it. -/
theorem StrictlyStates.select_accepted_iff (m : ModuleId) (listing : Option (List String)) :
    (∃ v cause, select m [r] none listing = .ok (.selected ⟨v, cause⟩) ∧
      (parse text).accepts v = true) ↔ trim text = text := by
  simp only [accepts_iff_of_static h.static]
  cases hforced : r.forced with
  | true =>
    rw [h.select_of_forced m listing hforced]
    constructor
    · rintro ⟨v, cause, heq, htrim⟩
      cases heq
      exact htrim
    · exact fun htrim => ⟨text, .forced, rfl, htrim⟩
  | false =>
    rw [select_eq_compared m listing (by simp [hforced]) (by simp [h.unpinned])]
    have hknown : candidates? (isRejected [r]) listing (requested (participating [r])) ≠ none := by
      rw [ne_eq, candidates?_eq_none_iff]
      rintro ⟨-, raw, hraw, hdynamic⟩
      obtain rfl := h.proposed_iff.1 (mem_requested_iff.1 hraw)
      rw [h.static] at hdynamic
      cases hdynamic
    obtain ⟨candidates, hcandidates⟩ := Option.ne_none_iff_exists'.1 hknown
    have hmem : trim text = text → text ∈ candidates := fun htrim =>
      (h.mem_candidates_iff hcandidates).2 ⟨rfl, htrim ▸ h.kept⟩
    rcases compared_cases m hcandidates with
      ⟨rfl, _, _, he⟩ | ⟨-, hnot, _, _, he⟩ | ⟨v, hv, haccepted, hok⟩
    · rw [he]
      refine ⟨fun ⟨_, _, heq, _⟩ => (nomatch heq), fun htrim => ?_⟩
      exact absurd (hmem htrim) List.not_mem_nil
    · rw [he]
      refine ⟨fun ⟨_, _, heq, _⟩ => (nomatch heq), fun htrim => ?_⟩
      refine absurd (h.strictlyAccepted_iff.2 ?_) (hnot text (hmem htrim))
      exact (accepts_iff_of_static h.static).2 htrim
    · obtain ⟨rfl, -⟩ := (h.mem_candidates_iff hcandidates).1 hv
      rw [hok]
      have htrim := (accepts_iff_of_static h.static).1 (h.strictlyAccepted_iff.1 haccepted)
      exact ⟨fun _ => htrim, fun _ => ⟨text, .compared, rfl, htrim⟩⟩

end StrictlyStates

/-! ## All choices -/

/-- The versions that decide a choice are plain: the one that a rule forces, or else those that are
forced or pinned by requests, or else those that are compared. When blanks go from a text that is
compared, the candidates come in another order, which does not matter if they have one marker. -/
inductive PlainlyDecided (requests : List VersionRequest) (forced : Option String)
    (listing : Option (List String)) : Prop
  | forced {text : String} (hforced : forced = some text) (hplain : Plain text)
  | settled (hforced : forced = none) (hne : deciding requests ≠ [])
      (hplain : ∀ s ∈ deciding requests, Plain s.version)
  | compared (hforced : forced = none) (hnil : deciding requests = [])
      (hplain : ∀ text, Proposed requests text → Plain text)
      (hmarker : (∀ text, Proposed requests text → trim text = text) ∨
        ∀ versions, listing = some versions → OneMarker {v | Candidate requests versions v})

/-- Trimming every text of a choice does not change its answer if plain versions decide it. That is
all if a rule forces the version, and a request that is alone and strict about a version gets one
that it accepts exactly if the version is stated without blanks. -/
theorem answer_select_trimmed (m : ModuleId) (requests : List VersionRequest)
    (listing : Option (List String)) :
    (∀ forced, PlainlyDecided requests forced listing →
      answer (select m (requests.map VersionRequest.trimmed) (forced.map trim) listing)
        = answer (select m requests forced listing)) ∧
    (∀ text, answer (select m (requests.map VersionRequest.trimmed) (some (trim text)) listing)
        = answer (select m requests (some text) listing) ↔ Plain text) ∧
    ∀ r text, StrictlyStates r text →
      ((∃ v cause, select m [r] none listing = .ok (.selected ⟨v, cause⟩) ∧
        (parse text).accepts v = true) ↔ trim text = text) := by
  refine ⟨fun forced h => ?_, fun text => answer_select_forced_trimmed_iff _ _,
    fun r text h => h.select_accepted_iff m listing⟩
  cases h with
  | forced hforced hplain =>
    rw [hforced]
    exact (answer_select_forced_trimmed_iff _ _).2 hplain
  | settled hforced hne hplain =>
    rw [hforced]
    exact answer_select_trimmed_of_deciding hne hplain
  | compared hforced hnil hplain hmarker =>
    have hnil' : deciding (requests.map VersionRequest.trimmed) = [] := by
      rw [deciding_map_trimmed, hnil, List.map_nil]
    rw [hforced, Option.map_none, select_of_deciding_eq_nil m listing hnil,
      select_of_deciding_eq_nil m listing hnil']
    exact answer_compared_trimmed m listing hplain hmarker

/-- Requests with blanks around everything but the one version that is stated. -/
def paddedRequests : List VersionRequest :=
  [{ requestedBy := "org:a:1.0"
     constraint := { required := some " 1.+", rejects := ["1.9 "] } },
   { requestedBy := "org:b:1.0"
     constraint := { required := some "1.2", strict := some " [1.0,2.0) " } },
   { requestedBy := "org:c:1.0"
     constraint := .require " 3.0"
     inherited := some { required := some " 1.0", forSubgraph := true } }]

/-- A request that is strict about a version with a blank before it. -/
def paddedRequest : VersionRequest := { requestedBy := "org:a:1.0", constraint := .strictly " 1.0" }

theorem answer_select_trimmed_padded :
    let listing := some ["1.7", "1.9", "2.1"]
    PlainlyDecided paddedRequests none listing ∧
      answer (select ⟨"org", "m"⟩ (paddedRequests.map VersionRequest.trimmed) none listing)
        = .selected "1.7" .compared ∧
      answer (select ⟨"org", "m"⟩ (paddedRequests.map VersionRequest.trimmed) (some (trim " 1.0"))
          listing)
        ≠ answer (select ⟨"org", "m"⟩ paddedRequests (some " 1.0") listing) ∧
      StrictlyStates paddedRequest " 1.0" ∧
      ¬ ∃ v cause, select ⟨"org", "m"⟩ [paddedRequest] none listing
        = .ok (.selected ⟨v, cause⟩) ∧ (parse " 1.0").accepts v = true := by
  intro listing
  have hcandidates : candidates? (isRejected paddedRequests) listing
      (requested (participating paddedRequests)) = some ["1.7", "1.2"] := by
    decide +kernel
  have hplain : ∀ text ∈ requested (participating paddedRequests),
      (parse text).isDynamic = true ∨ trim text = text := by
    decide +kernel
  have hmarker : OneMarker {v | v ∈ ["1.7", "1.2"]} := by decide +kernel
  have hdecided : PlainlyDecided paddedRequests none listing := by
    refine .compared rfl (by decide) (fun text h => hplain text (mem_requested_iff.2 h)) (.inr ?_)
    intro versions hlisting
    obtain rfl := Option.some.inj hlisting
    exact hmarker.mono fun v hv => (mem_candidates?_iff_candidate hcandidates).2 hv
  have hstates : StrictlyStates paddedRequest " 1.0" :=
    ⟨rfl, rfl, by decide +kernel, rfl, rfl,
      by simp [Rejects, paddedRequest, VersionConstraint.strictly]⟩
  have hblank : trim " 1.0" ≠ " 1.0" := by decide +kernel
  obtain ⟨hsame, hforced, hstrict⟩ := answer_select_trimmed ⟨"org", "m"⟩ paddedRequests listing
  refine ⟨hdecided, ?_, ?_, hstates, ?_⟩
  · have hanswer : answer (select ⟨"org", "m"⟩ paddedRequests none listing)
        = .selected "1.7" .compared := by
      decide +kernel
    exact (hsame none hdecided).trans hanswer
  · rw [ne_eq, hforced]
    rintro (hdynamic | htrim)
    · exact absurd hdynamic (by decide +kernel)
    · exact hblank htrim
  · rw [hstrict _ _ hstates]
    exact hblank

end VersionChoice

end VariantGraph
