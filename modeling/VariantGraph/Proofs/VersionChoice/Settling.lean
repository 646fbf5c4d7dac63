import VariantGraph.Proofs.Version.Order
import VariantGraph.VersionChoice

/-!
# Versions that are settled

A version that an edge forces or a rule pins settles to itself, a dynamic selector to its best match
in the listing. Of the versions that edges force, or else of those that rules pin, the highest is
kept, and requests are compared only if there are none.

Main statements: `VersionChoice.Keeps.higherOf` is one step of settling several versions and
`VersionChoice.settleHighest_cases` all steps, `VersionChoice.select_cases_of_deciding` the choice.
-/

namespace VariantGraph

namespace VersionChoice

open Std Version

variable {m : ModuleId} {requests : List VersionRequest} {listing : Option (List String)}
  {text v : String} {cause : Cause}

/-! ## One version -/

/-- The version that a forced or pinned text settles to. -/
def settled? (listing : Option (List String)) (text : String) : Option String :=
  if (Selector.parse text).isDynamic then
    listing.bind fun versions => (Selector.parse text).bestMatch? versions fun _ => false
  else some text

theorem settle_of_settled? (m : ModuleId) (cause : Cause) (h : settled? listing text = some v) :
    settle m text cause listing = .ok (.selected ⟨v, cause⟩) := by
  unfold settled? at h
  unfold settle
  dsimp only
  cases hdynamic : (Selector.parse text).isDynamic with
  | false =>
    obtain rfl : text = v := by simpa [hdynamic] using h
    rfl
  | true =>
    obtain ⟨versions, rfl, hbest⟩ : ∃ versions, listing = some versions ∧
        (Selector.parse text).bestMatch? versions (fun _ => false) = some v := by
      simpa [hdynamic, Option.bind_eq_some_iff] using h
    simp [hbest]

/-- What does not settle waits for the listing or fails. -/
theorem settle_of_settled?_eq_none (m : ModuleId) (cause : Cause)
    (h : settled? listing text = none) :
    (listing = none ∧ settle m text cause listing = .ok .needsListing) ∨
      (listing ≠ none ∧ settle m text cause listing = .error (.unsatisfied m [text] [])) := by
  unfold settled? at h
  unfold settle
  dsimp only
  cases hdynamic : (Selector.parse text).isDynamic with
  | false => simp [hdynamic] at h
  | true =>
    cases listing with
    | none => exact .inl ⟨rfl, rfl⟩
    | some versions =>
      have hbest : (Selector.parse text).bestMatch? versions (fun _ => false) = none := by
        simpa [hdynamic] using h
      exact .inr ⟨by simp, by simp [hbest]⟩

theorem settle_eq_selected_iff {s : SelectedVersion} :
    settle m text cause listing = .ok (.selected s) ↔
      settled? listing text = some s.version ∧ s.cause = cause := by
  constructor
  · intro h
    cases hs : settled? listing text with
    | some v =>
      rw [settle_of_settled? m cause hs] at h
      cases h
      exact ⟨rfl, rfl⟩
    | none =>
      rcases settle_of_settled?_eq_none m cause hs with ⟨-, hsettle⟩ | ⟨-, hsettle⟩
      · rw [hsettle] at h
        cases h
      · rw [hsettle] at h
        cases h
  · rintro ⟨hs, rfl⟩
    exact settle_of_settled? m s.cause hs

/-! ## Several versions -/

/-- The versions that some forced or pinned ones settle to. -/
def settledVersions (listing : Option (List String)) (l : List SelectedVersion) : List String :=
  l.filterMap fun r => settled? listing r.version

variable {l done : List SelectedVersion} {s b r : SelectedVersion}

theorem mem_settledVersions_iff :
    v ∈ settledVersions listing l ↔ ∃ r ∈ l, settled? listing r.version = some v :=
  List.mem_filterMap

/-- The versions that forced or pinned texts settle to. -/
def settlements (listing : Option (List String)) (texts : Set String) : Set String :=
  {v | ∃ text ∈ texts, settled? listing text = some v}

theorem setOf_mem_settledVersions (listing : Option (List String)) (l : List SelectedVersion) :
    {v | v ∈ settledVersions listing l} = settlements listing {text | ∃ r ∈ l, r.version = text} := by
  ext v
  constructor
  · intro hv
    obtain ⟨r, hr, hv⟩ := mem_settledVersions_iff.1 hv
    exact ⟨r.version, ⟨r, hr, rfl⟩, hv⟩
  · rintro ⟨text, ⟨r, hr, rfl⟩, hv⟩
    exact mem_settledVersions_iff.2 ⟨r, hr, hv⟩

/-- Some versions have all settled, and one of those that they settle to is kept. It is the highest,
if they have one marker. -/
structure Keeps (listing : Option (List String)) (l : List SelectedVersion) (s : SelectedVersion) :
    Prop where
  origin : ∃ r ∈ l, settled? listing r.version = some s.version ∧ s.cause = r.cause
  settled : ∀ r ∈ l, ∃ v, settled? listing r.version = some v
  highest : OneMarker {v | v ∈ settledVersions listing l} →
    IsHighest {v | v ∈ settledVersions listing l} s.version

/-- A single version that settles is kept. -/
theorem keeps_singleton (hv : settled? listing r.version = some v) :
    Keeps listing [r] ⟨v, r.cause⟩ := by
  refine ⟨⟨r, List.mem_singleton_self r, hv, rfl⟩, ?_, fun _ => ⟨?_, ?_⟩⟩
  · intro t ht
    obtain rfl := List.mem_singleton.1 ht
    exact ⟨v, hv⟩
  · exact mem_settledVersions_iff.2 ⟨r, List.mem_singleton_self r, hv⟩
  · intro w hw hne
    obtain ⟨t, ht, htw⟩ := mem_settledVersions_iff.1 hw
    obtain rfl := List.mem_singleton.1 ht
    exact absurd (Option.some.inj (htw.symm.trans hv)) hne

theorem higherOf_cases (best : Option SelectedVersion) (s : SelectedVersion) :
    higherOf best s = s ∨ best = some (higherOf best s) := by
  unfold higherOf
  cases best with
  | none => exact .inl rfl
  | some b =>
    dsimp only
    split
    · exact .inl rfl
    · exact .inr rfl

theorem version_higherOf (b s : SelectedVersion) :
    (higherOf (some b) s).version = later s.version b.version := by
  unfold higherOf later
  dsimp only
  split <;> rfl

/-- When one more version settles, the higher one is kept. -/
theorem Keeps.higherOf (h : Keeps listing done b) (hv : settled? listing r.version = some v) :
    Keeps listing (done ++ [r]) (higherOf (some b) ⟨v, r.cause⟩) := by
  have hr : r ∈ done ++ [r] := List.mem_append_right _ (List.mem_singleton_self r)
  refine ⟨?_, ?_, fun hmarker => ?_⟩
  · rcases higherOf_cases (some b) ⟨v, r.cause⟩ with hnew | hold
    · rw [hnew]
      exact ⟨r, hr, hv, rfl⟩
    · rw [← Option.some.inj hold]
      obtain ⟨t, ht, htv, hcause⟩ := h.origin
      exact ⟨t, List.mem_append_left _ ht, htv, hcause⟩
  · intro t ht
    rcases List.mem_append.1 ht with ht | ht
    · exact h.settled t ht
    · obtain rfl := List.mem_singleton.1 ht
      exact ⟨v, hv⟩
  · have hold : ∀ w ∈ settledVersions listing done, w ∈ settledVersions listing (done ++ [r]) := by
      intro w hw
      obtain ⟨t, ht, hw⟩ := mem_settledVersions_iff.1 hw
      exact mem_settledVersions_iff.2 ⟨t, List.mem_append_left _ ht, hw⟩
    have hdone := hmarker.mono hold
    obtain ⟨hb, hle⟩ := (isHighest_iff hdone).1 (h.highest hdone)
    have hb := hold _ hb
    have hnew : v ∈ settledVersions listing (done ++ [r]) := mem_settledVersions_iff.2 ⟨r, hr, hv⟩
    obtain ⟨hvle, hble⟩ := isLE_later hmarker hnew hb
    rw [isHighest_iff hmarker, version_higherOf]
    refine ⟨later_mem hnew hb, fun w hw => ?_⟩
    obtain ⟨t, ht, htw⟩ := mem_settledVersions_iff.1 hw
    rcases List.mem_append.1 ht with ht | ht
    · exact TransCmp.isLE_trans (hle w (mem_settledVersions_iff.2 ⟨t, ht, htw⟩)) hble
    · obtain rfl := List.mem_singleton.1 ht
      obtain rfl := Option.some.inj (htw.symm.trans hv)
      exact hvle

/-- What is kept of some versions: nothing if there are none. -/
def Kept (listing : Option (List String)) (l : List SelectedVersion) :
    Option SelectedVersion → Prop
  | none => l = []
  | some s => Keeps listing l s

theorem Kept.higherOf {best : Option SelectedVersion} (h : Kept listing done best)
    (hv : settled? listing r.version = some v) :
    Keeps listing (done ++ [r]) (higherOf best ⟨v, r.cause⟩) := by
  cases best with
  | none =>
    obtain rfl : done = [] := h
    exact keeps_singleton hv
  | some b => exact Keeps.higherOf h hv

/-- Some version does not settle, and the outcome says so: the listing is needed, or a version matches
nothing that is listed. -/
def Stuck (m : ModuleId) (listing : Option (List String)) (l : List SelectedVersion)
    (outcome : Except VersionError Decision) : Prop :=
  (∃ r ∈ l, settled? listing r.version = none) ∧
    ((listing = none ∧ outcome = .ok .needsListing) ∨
      (listing ≠ none ∧ ∃ text, outcome = .error (.unsatisfied m [text] [])))

/-- Of several versions the highest is kept, unless one of them does not settle. -/
theorem settleHighest_cases (m : ModuleId) {best : Option SelectedVersion}
    (h : Kept listing done best) :
    (∃ best', Kept listing (done ++ l) best' ∧
        settleHighest m listing l best = .ok (best'.map .selected)) ∨
      ∃ outcome, Stuck m listing l outcome ∧ settleHighest m listing l best = outcome.map some := by
  induction l generalizing done best with
  | nil => exact .inl ⟨best, by rwa [List.append_nil], rfl⟩
  | cons r rest ih =>
    rw [settleHighest]
    cases hr : settled? listing r.version with
    | some v =>
      rw [settle_of_settled? m r.cause hr]
      dsimp only
      have hkept : Kept listing (done ++ [r]) (some (higherOf best ⟨v, r.cause⟩)) := h.higherOf hr
      rcases ih hkept with ⟨best', hbest', hok⟩ | ⟨outcome, ⟨⟨t, ht, hnone⟩, hout⟩, heq⟩
      · rw [List.append_assoc] at hbest'
        exact .inl ⟨best', hbest', hok⟩
      · exact .inr ⟨outcome, ⟨⟨t, List.mem_cons_of_mem r ht, hnone⟩, hout⟩, heq⟩
    | none =>
      have hmem : ∃ t ∈ r :: rest, settled? listing t.version = none := ⟨r, List.mem_cons_self, hr⟩
      rcases settle_of_settled?_eq_none m r.cause hr with ⟨hl, hsettle⟩ | ⟨hl, hsettle⟩
      · rw [hsettle]
        exact .inr ⟨_, ⟨hmem, .inl ⟨hl, rfl⟩⟩, rfl⟩
      · rw [hsettle]
        exact .inr ⟨_, ⟨hmem, .inr ⟨hl, r.version, rfl⟩⟩, rfl⟩

/-! ## What decides before requests are compared -/

/-- The versions that decide a choice without a comparison: those that edges force, or else those
that rules pin. -/
def deciding (requests : List VersionRequest) : List SelectedVersion :=
  if forcedByEdges requests = [] then pinnedByRules requests else forcedByEdges requests

theorem mem_forcedByEdges_iff : s ∈ forcedByEdges requests ↔ s.cause = .forced ∧
    ∃ r ∈ requests, r.forced = true ∧ r.constraint.requestedVersion = some s.version := by
  unfold forcedByEdges
  rw [List.mem_filterMap]
  constructor
  · rintro ⟨r, hr, hs⟩
    split at hs
    · next hforced =>
      obtain ⟨version, hversion, rfl⟩ := Option.map_eq_some_iff.1 hs
      exact ⟨rfl, r, hr, hforced, hversion⟩
    · cases hs
  · rintro ⟨hcause, r, hr, hforced, hversion⟩
    refine ⟨r, hr, ?_⟩
    rw [if_pos hforced, hversion, ← hcause]
    rfl

theorem mem_pinnedByRules_iff : s ∈ pinnedByRules requests ↔
    ∃ r ∈ requests, ∃ pin, r.pinned = some pin ∧ s = ⟨pin.version, .rule pin.description⟩ := by
  unfold pinnedByRules
  rw [List.mem_filterMap]
  refine exists_congr fun r => and_congr_right fun _ => ?_
  rw [Option.map_eq_some_iff]
  exact exists_congr fun pin => and_congr_right fun _ => eq_comm

theorem cause_ne_compared_of_mem_deciding (h : s ∈ deciding requests) : s.cause ≠ .compared := by
  unfold deciding at h
  split at h
  · obtain ⟨r, -, pin, -, rfl⟩ := mem_pinnedByRules_iff.1 h
    exact Cause.noConfusion
  · rw [(mem_forcedByEdges_iff.1 h).1]
    exact Cause.noConfusion

/-- Where something is forced or pinned, a choice settles what decides it. -/
theorem select_of_settleHighest {outcome : Except VersionError Decision}
    (h : settleHighest m listing (deciding requests) none = outcome.map some) :
    select m requests none listing = outcome := by
  unfold deciding at h
  unfold select
  dsimp only
  split at h
  · next hnil =>
    rw [hnil, h]
    cases outcome <;> rfl
  · rw [h]
    cases outcome <;> rfl

/-- If something is forced or pinned, the choice keeps one of the versions that decide it, unless one
of them does not settle. -/
theorem select_cases_of_deciding (m : ModuleId) (listing : Option (List String))
    (hne : deciding requests ≠ []) :
    (∃ s, Keeps listing (deciding requests) s ∧
        select m requests none listing = .ok (.selected s)) ∨
      Stuck m listing (deciding requests) (select m requests none listing) := by
  have hstart : Kept listing [] none := rfl
  rcases settleHighest_cases m (l := deciding requests) hstart with
    ⟨best, hbest, hok⟩ | ⟨outcome, hstuck, hout⟩
  · cases best with
    | none => exact absurd hbest hne
    | some s => exact .inl ⟨s, hbest, select_of_settleHighest hok⟩
  · rw [select_of_settleHighest hout]
    exact .inr hstuck

/-- A version that is chosen although something is forced or pinned is kept of what decides. -/
theorem keeps_of_select (hne : deciding requests ≠ [])
    (h : select m requests none listing = .ok (.selected s)) :
    Keeps listing (deciding requests) s := by
  rcases select_cases_of_deciding m listing hne with
    ⟨s', hkeeps, hok⟩ | ⟨-, ⟨-, hout⟩ | ⟨-, text, hout⟩⟩
  · rw [h] at hok
    cases hok
    exact hkeeps
  · rw [h] at hout
    cases hout
  · rw [h] at hout
    cases hout

/-- If nothing is forced or pinned, requests are compared. -/
theorem select_of_deciding_eq_nil (m : ModuleId) (listing : Option (List String))
    (h : deciding requests = []) :
    select m requests none listing = compared m requests listing := by
  unfold deciding at h
  split at h
  · next hnil =>
    unfold select
    dsimp only
    rw [hnil, h]
    rfl
  · next hne => exact absurd h hne

end VersionChoice

end VariantGraph
