import VariantGraph.Proofs.Version.Order

/-!
# The best match of a selector

A selector is matched against a listing from left to right. Where at most one release marker occurs
in the listing, what is found is the highest version that the selector accepts and that is not
rejected; the order of the listing and its repetitions do not matter.

Main statements: `Selector.bestMatch?_eq_none_iff` and `Selector.bestMatch?_of_oneMarker`.
-/

namespace VariantGraph.Selector

open Std Version

variable {s : Selector} {listing listing' : List String} {rejected : String → Bool} {v w : String}

/-- The listed versions that a selector accepts and that are not rejected. -/
def eligible (s : Selector) (listing : List String) (rejected : String → Bool) : Set String :=
  {v | v ∈ listing ∧ s.accepts v = true ∧ rejected v = false}

theorem setOf_mem_filter_eq_eligible :
    {v | v ∈ listing.filter fun v => s.accepts v && !rejected v} = s.eligible listing rejected := by
  ext v
  rw [Set.mem_ofPred_eq, List.mem_filter, Bool.and_eq_true, Bool.not_eq_true']
  rfl

/-- Nothing is found only where nothing could be. -/
theorem bestMatch?_eq_none_iff : s.bestMatch? listing rejected = none ↔
    ∀ v ∈ listing, s.accepts v = true → rejected v = true := by
  rw [bestMatch?, highest?_eq_none_iff, List.filter_eq_nil_iff]
  refine forall₂_congr fun v _ => ?_
  cases s.accepts v <;> simp

theorem oneMarker_eligible (h : OneMarker {w | w ∈ listing}) :
    OneMarker (s.eligible listing rejected) :=
  h.mono fun _ hw => hw.1

/-- What is found is the highest of the versions that could be. -/
theorem bestMatch?_eq_some_iff (h : OneMarker {w | w ∈ listing}) :
    s.bestMatch? listing rejected = some v ↔ IsHighest (s.eligible listing rejected) v := by
  have hset : {v | v ∈ listing.filter fun v => s.accepts v && !rejected v}
      = s.eligible listing rejected := setOf_mem_filter_eq_eligible
  have hmarker : OneMarker {w | w ∈ listing.filter fun v => s.accepts v && !rejected v} := by
    rw [hset]
    exact oneMarker_eligible h
  rw [bestMatch?, highest?_eq_some_iff hmarker, hset]

/-- The highest version is the one that no other is above. -/
theorem isHighest_iff_ne_gt {versions : Set String} (h : OneMarker versions) :
    IsHighest versions v ↔ v ∈ versions ∧ ∀ w ∈ versions, order w v ≠ .gt := by
  rw [isHighest_iff h]
  refine and_congr_right fun hv => forall₂_congr fun w hw => ?_
  rw [← order_eq_steadyOrder h hw hv, Ordering.isLE_iff_ne_gt]

/-- What is found depends on which versions are listed, and not on their order. -/
theorem bestMatch?_congr (h : OneMarker {w | w ∈ listing})
    (hmem : ∀ w, w ∈ listing' ↔ w ∈ listing) :
    s.bestMatch? listing' rejected = s.bestMatch? listing rejected := by
  have hmarker : OneMarker {w | w ∈ listing'} := h.mono fun w hw => (hmem w).1 hw
  have heligible : s.eligible listing' rejected = s.eligible listing rejected := by
    ext w
    exact and_congr_left fun _ => hmem w
  refine Option.ext fun v => ?_
  rw [bestMatch?_eq_some_iff hmarker, bestMatch?_eq_some_iff h, heligible]

/-- In a listing with at most one release marker the best match is the highest version that is
accepted and not rejected, if there is one, whatever the order of the listing and its
repetitions. -/
theorem bestMatch?_of_oneMarker (s : Selector) (rejected : String → Bool)
    (h : OneMarker {w | w ∈ listing}) :
    (s.bestMatch? listing rejected = none ↔
        ∀ v ∈ listing, s.accepts v = true → rejected v = true) ∧
      (∀ m, s.bestMatch? listing rejected = some m ↔
        m ∈ listing ∧ s.accepts m = true ∧ rejected m = false ∧
          ∀ v ∈ listing, s.accepts v = true → rejected v = false → order v m ≠ .gt) ∧
      ∀ listing', (∀ v, v ∈ listing' ↔ v ∈ listing) →
        s.bestMatch? listing' rejected = s.bestMatch? listing rejected := by
  refine ⟨bestMatch?_eq_none_iff, fun m => ?_, fun listing' hmem => bestMatch?_congr h hmem⟩
  rw [bestMatch?_eq_some_iff h, isHighest_iff_ne_gt (oneMarker_eligible h)]
  constructor
  · rintro ⟨⟨hlisted, haccepts, hkept⟩, habove⟩
    exact ⟨hlisted, haccepts, hkept, fun v hv hva hvk => habove v ⟨hv, hva, hvk⟩⟩
  · rintro ⟨hlisted, haccepts, hkept, habove⟩
    exact ⟨⟨hlisted, haccepts, hkept⟩, fun v hv => habove v hv.1 hv.2.1 hv.2.2⟩

/-- Of a listing with final versions, a rejected one and one outside the range among them. -/
theorem bestMatch?_of_oneMarker_range :
    let listing := ["1.0", "1.10-Final", "2.0", "1.9", "1.10-rc1", "1.10", "1.11"]
    let listing' := ["1.11", "1.10-rc1", "1.9", "1.10", "1.10", "2.0", "1.0", "1.10-Final", "1.9"]
    let range := Selector.parse "[1.0,2.0)"
    OneMarker {w | w ∈ listing} ∧ (∀ v, v ∈ listing' ↔ v ∈ listing) ∧
      range.bestMatch? listing (· == "1.11") = some "1.10-Final" ∧
      order "1.10" "1.10-Final" ≠ .gt ∧
      range.bestMatch? listing' (· == "1.11") = some "1.10-Final" := by
  intro listing listing' range
  have hmarker : OneMarker {w | w ∈ listing} := by
    decide +kernel
  have hmem : ∀ v, v ∈ listing' ↔ v ∈ listing := by
    intro v
    simp only [listing, listing', List.mem_cons, List.not_mem_nil]
    grind
  have hbest : range.bestMatch? listing (· == "1.11") = some "1.10-Final" := by
    decide +kernel
  obtain ⟨-, hhighest, hcongr⟩ := bestMatch?_of_oneMarker range (· == "1.11") hmarker
  obtain ⟨-, -, -, habove⟩ := (hhighest _).1 hbest
  have haccepts : range.accepts "1.10" = true := by decide +kernel
  exact ⟨hmarker, hmem, hbest, habove "1.10" (by simp [listing]) haccepts (by decide),
    (hcongr listing' hmem).trans hbest⟩

end VariantGraph.Selector
