import VariantGraph.Proofs.Selection.Acceptance

/-!
# What is selected belongs to the module and serves every request

Each request selects by itself, and the choices of several requests are joined. One that serves all
of them is selected for them if it is the only such choice, so that a selected variant is one that
the module publishes, and one that each of the requests accepts.

Main statements: `Selection.shares_selectShared` says what is selected for several requests,
`Selection.mem_variants_of_selectShared` and `Selection.serves_of_selectShared` what follows for a
selection, `Selection.module_of_selectShared` for a failure.
-/

namespace VariantGraph

/-- The module version of which no variant could be selected. -/
def SelectionError.module : SelectionError → Coordinates
  | .noMatch m _ _ => m
  | .noSuchVariant m _ _ => m
  | .ambiguous m _ _ => m

namespace Selection

variable {schema : Schema} {module : ModuleData} {r : VariantRequest}
  {requests : List VariantRequest} {s : Selection} {v : Variant} {e : SelectionError}

/-! ## What one request selects -/

theorem mem_variants_of_select (h : select schema module r = .ok (.variant v)) :
    v ∈ module.variants := by
  cases select_eq_iff.1 h with
  | named _ hv => exact (ModuleData.name_of_variant? hv).2
  | single _ hv => exact (acceptable_of_mem_finalists (hv ▸ List.mem_singleton_self v)).1

/-- A selection serves a request: a variant of the wanted name, or one that is acceptable when no
name is given. A module without variants serves every request that names none. -/
def Serves (schema : Schema) (module : ModuleData) (r : VariantRequest) : Selection → Prop
  | .variant v =>
    match r.targetVariant with
    | some name => v.name = name
    | none => Acceptable schema module r v
  | .artifacts _ => r.targetVariant = none ∧ module.variants = []

theorem serves_of_select (h : select schema module r = .ok s) : Serves schema module r s := by
  cases select_eq_iff.1 h with
  | named htarget hv =>
    simp only [Serves, htarget]
    exact (ModuleData.name_of_variant? hv).1
  | unpublished htarget hempty => exact ⟨htarget, hempty⟩
  | single htarget hv =>
    simp only [Serves, htarget]
    exact (acceptable_of_mem_finalists (hv ▸ List.mem_singleton_self _)).2

theorem refusal?_eq_none_iff :
    refusal? schema module v r = none ↔ Serves schema module r (.variant v) := by
  unfold refusal? Serves
  cases r.targetVariant with
  | none => exact rejection?_eq_none_iff
  | some name =>
    by_cases hname : name = v.name
    · simp [hname]
    · simp [hname, Ne.symm hname]

instance : Decidable (Serves schema module r s) :=
  match s with
  | .variant v => decidable_of_iff (refusal? schema module v r = none) refusal?_eq_none_iff
  | .artifacts _ => inferInstanceAs (Decidable (_ ∧ _))

theorem module_of_select (h : select schema module r = .error e) : e.module = module.id := by
  cases select_eq_iff.1 h with
  | unknown _ _ => rfl
  | unaccepted _ _ _ => rfl
  | several _ _ => rfl

/-- A module of which artifacts are selected has nothing else to select. -/
theorem eq_of_select_artifacts {r' : VariantRequest} {files : List FileRef}
    (h : select schema module r = .ok (.artifacts files)) (h' : select schema module r' = .ok s) :
    s = .artifacts files := by
  cases select_eq_iff.1 h with
  | unpublished _ hempty =>
    cases s with
    | variant v => exact absurd (hempty ▸ mem_variants_of_select h') List.not_mem_nil
    | artifacts files' =>
      cases select_eq_iff.1 h' with
      | unpublished _ _ => rfl

/-! ## Joining the choices of several requests -/

/-- A list of selections joins those that some requests make to others made before. -/
structure Joins (schema : Schema) (module : ModuleData) (requests : List VariantRequest)
    (chosen l : List Selection) : Prop where
  selects : ∀ r ∈ requests, ∃ s, select schema module r = .ok s
  mem_iff : ∀ s, s ∈ l ↔ s ∈ chosen ∨ ∃ r ∈ requests, select schema module r = .ok s
  nodup : chosen.Nodup → l.Nodup

theorem joins_choices {chosen l : List Selection}
    (h : choices schema module requests chosen = .ok l) :
    Joins schema module requests chosen l := by
  induction requests generalizing chosen with
  | nil =>
    obtain rfl : chosen = l := by simpa [choices] using h
    exact ⟨by simp, by simp, id⟩
  | cons r rest ih =>
    rw [choices] at h
    split at h
    · cases h
    · next t ht =>
      have hrest := ih h
      have hnext : ∀ s, s ∈ (if chosen.contains t then chosen else chosen ++ [t]) ↔
          s ∈ chosen ∨ s = t := by
        intro s
        split
        · next hc =>
          refine ⟨.inl, ?_⟩
          rintro (hs | rfl)
          · exact hs
          · exact List.contains_iff_mem.1 hc
        · simp
      refine ⟨?_, fun s => ?_, fun hnodup => hrest.nodup ?_⟩
      · simpa using ⟨⟨t, ht⟩, hrest.selects⟩
      · rw [hrest.mem_iff, hnext, or_assoc]
        simp [ht, eq_comm]
      · split
        · exact hnodup
        · next hc =>
          have hnew : t ∉ chosen := fun hmem => hc (List.contains_iff_mem.2 hmem)
          rw [← List.concat_eq_append, List.nodup_concat]
          exact ⟨hnew, hnodup⟩

theorem Joins.mem_iff_of_nil {l : List Selection} (h : Joins schema module requests [] l) :
    s ∈ l ↔ ∃ r ∈ requests, select schema module r = .ok s := by
  simpa using h.mem_iff s

theorem exists_of_choices_eq_error {chosen : List Selection}
    (h : choices schema module requests chosen = .error e) :
    ∃ r ∈ requests, select schema module r = .error e := by
  induction requests generalizing chosen with
  | nil => simp [choices] at h
  | cons r rest ih =>
    rw [choices] at h
    split at h
    · next hr =>
      obtain rfl := Except.error.inj h
      exact ⟨r, List.mem_cons_self, hr⟩
    · obtain ⟨r', hr', he⟩ := ih h
      exact ⟨r', List.mem_cons_of_mem r hr', he⟩

/-! ## What several requests select together -/

/-- A selection unites some requests: one of them makes it by itself, and it serves all. -/
structure Unites (schema : Schema) (module : ModuleData) (requests : List VariantRequest)
    (s : Selection) : Prop where
  chosen : ∃ r ∈ requests, select schema module r = .ok s
  serves : ∀ r ∈ requests, Serves schema module r s

/-- How several requests are answered: none may fail by itself, and then what unites them is
selected if it is one selection only. -/
inductive Shares (schema : Schema) (module : ModuleData) (requests : List VariantRequest) :
    Except SelectionError Selection → Prop
  | failed {r : VariantRequest} {e : SelectionError} (hr : r ∈ requests)
      (he : select schema module r = .error e) : Shares schema module requests (.error e)
  | united {s : Selection} (hselect : ∀ r ∈ requests, ∃ t, select schema module r = .ok t)
      (hs : Unites schema module requests s)
      (hunique : ∀ t, Unites schema module requests t → t = s) :
      Shares schema module requests (.ok s)
  | divided {eliminated : List (Variant × Rejection)}
      (hselect : ∀ r ∈ requests, ∃ t, select schema module r = .ok t)
      (hnone : ∀ t, ¬ Unites schema module requests t) :
      Shares schema module requests (.error (.noMatch module.id requests eliminated))
  | undecided {tied : List Variant}
      (hselect : ∀ r ∈ requests, ∃ t, select schema module r = .ok t)
      (hmany : 2 ≤ tied.length) (hnodup : tied.Nodup)
      (htied : ∀ v ∈ tied, Unites schema module requests (.variant v)) :
      Shares schema module requests (.error (.ambiguous module.id requests tied))

/-- The variants among some selections that no request refuses. -/
def unrefused (schema : Schema) (module : ModuleData) (requests : List VariantRequest)
    (chosen : List Selection) : List Variant :=
  (variantsOf chosen).filter fun v => (requests.findSome? (refusal? schema module v)).isNone

theorem mem_variantsOf_iff {chosen : List Selection} :
    v ∈ variantsOf chosen ↔ .variant v ∈ chosen := by
  rw [variantsOf, List.mem_filterMap]
  constructor
  · rintro ⟨s, hs, hv⟩
    split at hv
    · exact Option.some.inj hv ▸ hs
    · cases hv
  · exact fun h => ⟨.variant v, h, rfl⟩

theorem mem_unrefused_iff {chosen : List Selection} (h : Joins schema module requests [] chosen) :
    v ∈ unrefused schema module requests chosen ↔ Unites schema module requests (.variant v) := by
  rw [unrefused, List.mem_filter, mem_variantsOf_iff, h.mem_iff_of_nil, Option.isNone_iff_eq_none,
    List.findSome?_eq_none_iff]
  simp only [refusal?_eq_none_iff]
  exact ⟨fun ⟨hc, hs⟩ => ⟨hc, hs⟩, fun ⟨hc, hs⟩ => ⟨hc, hs⟩⟩

theorem nodup_unrefused {chosen : List Selection} (h : chosen.Nodup) :
    (unrefused schema module requests chosen).Nodup := by
  refine (h.filterMap fun s t v hs ht => ?_).filter _
  cases s <;> cases t <;> simp_all

/-- Where some choices differ, each of them is a variant. -/
theorem exists_variant_of_unites {chosen : List Selection}
    (h : Joins schema module requests [] chosen) (hdiffer : ∀ t, chosen ≠ [t])
    (hs : Unites schema module requests s) : ∃ v, s = .variant v := by
  cases s with
  | variant v => exact ⟨v, rfl⟩
  | artifacts files =>
    obtain ⟨r, hr, hrs⟩ := hs.chosen
    have hsame : ∀ t ∈ chosen, t = .artifacts files := by
      intro t ht
      obtain ⟨r', -, ht'⟩ := h.mem_iff_of_nil.1 ht
      exact eq_of_select_artifacts hrs ht'
    have hmem : .artifacts files ∈ chosen := h.mem_iff_of_nil.2 ⟨r, hr, hrs⟩
    have hnodup : chosen.Nodup := h.nodup .nil
    match chosen with
    | [] => exact absurd hmem List.not_mem_nil
    | [t] => exact absurd rfl (hdiffer t)
    | t :: u :: rest =>
      have htu : t = u := (hsame t (by simp)).trans (hsame u (by simp)).symm
      simp [htu] at hnodup

theorem Joins.requests_eq_nil (h : Joins schema module requests [] []) : requests = [] := by
  refine List.eq_nil_iff_forall_not_mem.2 fun r hr => ?_
  obtain ⟨t, ht⟩ := h.selects r hr
  exact List.not_mem_nil (h.mem_iff_of_nil.2 ⟨r, hr, ht⟩)

/-- What all requests select by themselves unites them, and nothing else does. -/
theorem Joins.unites_of_singleton (h : Joins schema module requests [] [s]) :
    Unites schema module requests s ∧ ∀ t, Unites schema module requests t → t = s := by
  have hsame : ∀ r ∈ requests, ∀ t, select schema module r = .ok t → t = s :=
    fun r hr t ht => List.mem_singleton.1 (h.mem_iff_of_nil.2 ⟨r, hr, ht⟩)
  refine ⟨⟨h.mem_iff_of_nil.1 (List.mem_singleton_self s), fun r hr => ?_⟩, fun t ht => ?_⟩
  · obtain ⟨t, ht⟩ := h.selects r hr
    exact hsame r hr t ht ▸ serves_of_select ht
  · obtain ⟨r, hr, hrt⟩ := ht.chosen
    exact hsame r hr t hrt

/-- What unites requests of which the choices differ is among the variants that none refuses. -/
theorem Joins.mem_unrefused_of_unites {chosen : List Selection}
    (h : Joins schema module requests [] chosen) (hdiffer : ∀ t, chosen ≠ [t])
    (hs : Unites schema module requests s) :
    ∃ v ∈ unrefused schema module requests chosen, s = .variant v := by
  obtain ⟨v, rfl⟩ := exists_variant_of_unites h hdiffer hs
  exact ⟨v, (mem_unrefused_iff h).2 hs, rfl⟩

theorem filterMap_refusals_eq_unrefused (chosen : List Selection) :
    ((variantsOf chosen).map fun v => (v, requests.findSome? (refusal? schema module v))).filterMap
        (fun e => if e.2.isNone then some e.1 else none)
      = unrefused schema module requests chosen := by
  rw [List.filterMap_map, unrefused, ← List.filterMap_eq_filter]
  rfl

/-- What is selected for several requests. -/
theorem shares_selectShared (schema : Schema) (module : ModuleData)
    (requests : List VariantRequest) :
    Shares schema module requests (selectShared schema module requests) := by
  unfold selectShared
  split
  · next e he =>
    obtain ⟨r, hr, hfail⟩ := exists_of_choices_eq_error he
    exact .failed hr hfail
  · next hnil =>
    have hjoins := joins_choices hnil
    obtain rfl := hjoins.requests_eq_nil
    refine .divided hjoins.selects fun t ht => ?_
    obtain ⟨r, hr, -⟩ := ht.chosen
    exact List.not_mem_nil hr
  · next single hsingle =>
    have hjoins := joins_choices hsingle
    obtain ⟨hs, hunique⟩ := hjoins.unites_of_singleton
    exact .united hjoins.selects hs hunique
  · next chosen hne hdiffer hchosen =>
    have hjoins := joins_choices hchosen
    dsimp only
    rw [filterMap_refusals_eq_unrefused]
    split
    · next v hv =>
      refine .united hjoins.selects ((mem_unrefused_iff hjoins).1 (by simp [hv])) fun t ht => ?_
      obtain ⟨w, hw, rfl⟩ := hjoins.mem_unrefused_of_unites hdiffer ht
      rw [hv, List.mem_singleton] at hw
      rw [hw]
    · next hnil =>
      refine .divided hjoins.selects fun t ht => ?_
      obtain ⟨w, hw, -⟩ := hjoins.mem_unrefused_of_unites hdiffer ht
      rw [hnil] at hw
      exact List.not_mem_nil hw
    · next hnot hnil =>
      have hmany : 2 ≤ (unrefused schema module requests chosen).length := by
        match hleft : unrefused schema module requests chosen with
        | [] => exact absurd hleft hnil
        | [v] => exact absurd hleft (hnot v)
        | v :: w :: rest => simp
      exact .undecided hjoins.selects hmany (nodup_unrefused (hjoins.nodup .nil)) fun v hv =>
        (mem_unrefused_iff hjoins).1 hv

theorem shares_of_selectShared {o : Except SelectionError Selection}
    (h : selectShared schema module requests = o) : Shares schema module requests o :=
  h ▸ shares_selectShared schema module requests

/-! ## What follows for a selection and for a failure -/

/-- The variant selected for all requests is one that the module publishes. -/
theorem mem_variants_of_selectShared (h : selectShared schema module requests = .ok (.variant v)) :
    v ∈ module.variants := by
  cases shares_of_selectShared h with
  | united _ hs _ =>
    obtain ⟨r, -, hr⟩ := hs.chosen
    exact mem_variants_of_select hr

/-- What is selected for all requests serves each of them. -/
theorem serves_of_selectShared (h : selectShared schema module requests = .ok s)
    (hr : r ∈ requests) : Serves schema module r s := by
  cases shares_of_selectShared h with
  | united _ hs _ => exact hs.serves r hr

/-- The error of a selection names the module version in question. -/
theorem module_of_selectShared (h : selectShared schema module requests = .error e) :
    e.module = module.id := by
  cases shares_of_selectShared h with
  | failed _ he => exact module_of_select he
  | divided _ _ => rfl
  | undecided _ _ _ _ => rfl

end Selection

end VariantGraph
