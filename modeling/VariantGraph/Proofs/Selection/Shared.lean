import VariantGraph.Proofs.Selection

/-!
# One selection for several requests

Whether several requests are served together, and by what, depends on which requests there are, and
not on their order or repetitions. Only what one of them selects by itself comes into question: a
variant that all of them accept is passed over if none selects it by itself.

Main statements: `Selection.selectShared_eq_ok_iff` says when a selection is made,
`Selection.selectShared_serves_congr` that it serves every request, in whatever order they come, and
`Selection.selectShared_noneFits_iff` when nothing is found to fit them all.
-/

namespace VariantGraph.Selection

variable {schema : Schema} {module : ModuleData} {requests requests' : List VariantRequest}
  {s : Selection}

/-! ## Success -/

/-- Several requests are served by the only selection that unites them, if each selects something
by itself. -/
theorem selectShared_eq_ok_iff : selectShared schema module requests = .ok s ↔
    (∀ r ∈ requests, ∃ t, select schema module r = .ok t) ∧ Unites schema module requests s ∧
      ∀ t, Unites schema module requests t → t = s := by
  constructor
  · intro h
    cases shares_of_selectShared h with
    | united hselect hs hunique => exact ⟨hselect, hs, hunique⟩
  · rintro ⟨hselect, hs, hunique⟩
    generalize ho : selectShared schema module requests = o
    cases shares_of_selectShared ho with
    | failed hr he =>
      obtain ⟨t, ht⟩ := hselect _ hr
      simp [ht] at he
    | united _ ht _ => rw [hunique _ ht]
    | divided _ hnone => exact absurd hs (hnone s)
    | @undecided tied _ hmany hnodup htied =>
      match tied, hmany with
      | v :: w :: rest, _ =>
        have hv : Selection.variant v = s := hunique _ (htied v (by simp))
        have hw : Selection.variant w = s := hunique _ (htied w (by simp))
        obtain rfl : v = w := by simpa using hv.trans hw.symm
        simp at hnodup

theorem unites_congr (h : ∀ r, r ∈ requests' ↔ r ∈ requests) :
    Unites schema module requests' s ↔ Unites schema module requests s := by
  constructor
  · rintro ⟨⟨r, hr, hrs⟩, hserves⟩
    exact ⟨⟨r, (h r).1 hr, hrs⟩, fun r hr => hserves r ((h r).2 hr)⟩
  · rintro ⟨⟨r, hr, hrs⟩, hserves⟩
    exact ⟨⟨r, (h r).2 hr, hrs⟩, fun r hr => hserves r ((h r).1 hr)⟩

/-- A variant selected for several requests serves each of them, and it is selected whatever the
order and the repetitions of the requests. -/
theorem selectShared_serves_congr (schema : Schema) (module : ModuleData)
    (requests : List VariantRequest) :
    (∀ v, selectShared schema module requests = .ok (.variant v) →
        ∀ r ∈ requests, Serves schema module r (.variant v)) ∧
      ∀ requests', (∀ r, r ∈ requests' ↔ r ∈ requests) → ∀ s,
        selectShared schema module requests' = .ok s ↔
          selectShared schema module requests = .ok s := by
  refine ⟨fun v hv r hr => serves_of_selectShared hv hr, fun requests' h s => ?_⟩
  rw [selectShared_eq_ok_iff, selectShared_eq_ok_iff]
  simp only [unites_congr h, h]

def usageApi : Variant := attributesOnly "api" [("usage", .string "api")]

def usageRuntime : Variant :=
  attributesOnly "runtime" [("usage", .string "runtime"), ("extra", .string "x")]

def usageModule : ModuleData where
  id := ⟨"org", "lib", "1.0"⟩
  variants := [usageApi, usageRuntime]

/-- One request prefers the first variant and accepts both, one accepts only the second, and one
asks for the second by its name. -/
def usageRequests : List VariantRequest :=
  [{}, { attributes := Table.ofList [("usage", .string "runtime")] },
    { targetVariant := some "runtime" }]

theorem selectShared_serves_congr_usage :
    let schema := Schema.withDisambiguation Table.empty "usage" (.prefer (.string "api"))
    let repeated := usageRequests.reverse ++ usageRequests
    selectShared schema usageModule usageRequests = .ok (.variant usageRuntime) ∧
      (∀ r ∈ usageRequests, Serves schema usageModule r (.variant usageRuntime)) ∧
      (∀ r, r ∈ repeated ↔ r ∈ usageRequests) ∧
      selectShared schema usageModule repeated = .ok (.variant usageRuntime) := by
  intro schema repeated
  have hshared : selectShared schema usageModule usageRequests = .ok (.variant usageRuntime) := by
    decide +kernel
  have hmem : ∀ r, r ∈ repeated ↔ r ∈ usageRequests := by simp [repeated]
  obtain ⟨hserves, hcongr⟩ := selectShared_serves_congr schema usageModule usageRequests
  exact ⟨hshared, hserves usageRuntime hshared, hmem, (hcongr repeated hmem _).2 hshared⟩

/-! ## Failure -/

/-- Of requests that each select a variant by themselves, nothing is found to fit them all exactly
if no variant that they all accept is selected by one of them by itself. -/
theorem selectShared_noneFits_iff
    (hown : ∀ r ∈ requests, ∃ v, select schema module r = .ok (.variant v)) :
    (∃ e, selectShared schema module requests = .error e ∧ e.NoneFits) ↔
      ∀ v ∈ module.variants, (∀ r ∈ requests, Serves schema module r (.variant v)) →
        ∀ r ∈ requests, select schema module r ≠ .ok (.variant v) := by
  generalize ho : selectShared schema module requests = o
  constructor
  · rintro ⟨e, rfl, hnone⟩ v - hserves r hr hv
    cases shares_of_selectShared ho with
    | failed hr' he =>
      obtain ⟨w, hw⟩ := hown _ hr'
      simp [hw] at he
    | divided _ hdivided => exact hdivided _ ⟨⟨r, hr, hv⟩, hserves⟩
    | undecided _ _ _ _ => exact hnone
  · intro hnone
    -- a variant that unites the requests would be one that is accepted by all and selected by one
    have hdivided : ∀ v, ¬ Unites schema module requests (.variant v) := by
      rintro v ⟨⟨r, hr, hv⟩, hserves⟩
      exact hnone v (mem_variants_of_select hv) hserves r hr hv
    cases shares_of_selectShared ho with
    | failed hr he =>
      obtain ⟨w, hw⟩ := hown _ hr
      simp [hw] at he
    | @united s _ hs _ =>
      obtain ⟨r, hr, hrs⟩ := hs.chosen
      obtain ⟨v, hv⟩ := hown r hr
      obtain rfl : s = .variant v := Except.ok.inj (hrs.symm.trans hv)
      exact absurd hs (hdivided v)
    | divided _ _ => exact ⟨_, rfl, trivial⟩
    | @undecided tied _ hmany _ htied =>
      match tied, hmany with
      | v :: w :: rest, _ => exact absurd (htied v (by simp)) (hdivided v)

/-- Two variants fit one request each, and the third, without attributes, fits both. -/
def crossedModule : ModuleData where
  id := ⟨"org", "foo", "1.0"⟩
  variants :=
    [attributesOnly "left" [("a", .string "1"), ("b", .string "2")],
      attributesOnly "right" [("a", .string "2"), ("b", .string "1")], attributesOnly "plain" []]

def crossedRequests : List VariantRequest :=
  [{ attributes := Table.ofList [("a", .string "1")] },
    { attributes := Table.ofList [("b", .string "1")] }]

/-- Nothing is found to fit both requests, though they both accept the last variant. -/
theorem selectShared_noneFits_iff_crossed :
    (∀ r ∈ crossedRequests, ∃ v, select Table.empty crossedModule r = .ok (.variant v)) ∧
      (∃ e, selectShared Table.empty crossedModule crossedRequests = .error e ∧ e.NoneFits) ∧
      ∃ v ∈ crossedModule.variants,
        ∀ r ∈ crossedRequests, Serves Table.empty crossedModule r (.variant v) := by
  have hown : ∀ r ∈ crossedRequests,
      ∃ v ∈ crossedModule.variants, select Table.empty crossedModule r = .ok (.variant v) := by
    decide +kernel
  have hown' : ∀ r ∈ crossedRequests,
      ∃ v, select Table.empty crossedModule r = .ok (.variant v) := fun r hr =>
    (hown r hr).imp fun _ hv => hv.2
  exact ⟨hown', (selectShared_noneFits_iff hown').2 (by decide +kernel), by decide +kernel⟩

end VariantGraph.Selection
