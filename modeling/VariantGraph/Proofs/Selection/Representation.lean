import VariantGraph.Proofs.Publication.Reading
import VariantGraph.Proofs.Schema.Representation
import VariantGraph.Proofs.Selection.Acceptance

/-!
# Selection does not see representations

Attribute values may come in several representations; reading what was written replaces names by
texts, for one. Every test that selection makes of a variant gives the same result when values are
replaced by ones that are the same. So of two modules that only differ in this way the tests keep
variants at the same places, and a request selects the variant at the same place of both.

Main statements: `Selection.Parallel` says that tests keep variants at the same places,
`Selection.parallel_finalists` that disambiguation does, and
`Selection.matching_respects_representation` what this means for a request.
-/

namespace VariantGraph

open Document Publication

/-- Variants that differ only in the representation of attribute values. -/
structure Variant.Same (v w : Variant) : Prop where
  name : v.name = w.name
  attributes : v.attributes.Same w.attributes
  capabilities : v.capabilities = w.capabilities
  source : v.source = w.source

/-- Modules that differ only in the representation of attribute values. -/
structure ModuleData.Same (d e : ModuleData) : Prop where
  id : d.id = e.id
  attributes : d.attributes.Same e.attributes
  variants : List.Forall₂ Variant.Same d.variants e.variants
  artifacts : d.artifacts = e.artifacts

/-- Requests that differ only in the representation of attribute values. -/
structure VariantRequest.Same (r r' : VariantRequest) : Prop where
  attributes : r.attributes.Same r'.attributes
  capabilities : r.capabilities = r'.capabilities
  targetVariant : r.targetVariant = r'.targetVariant

/-! ## Writing and reading -/

theorem Value.same_published (v : Value) : v.same v.published = true := by
  rw [same_iff]
  cases v <;> rfl

theorem Attributes.same_published (a : Attributes) : a.Same a.published :=
  List.forall₂_map_right_iff.2 (List.forall₂_same.2 fun e _ => ⟨rfl, e.2.same_published⟩)

/-- Attributes that are written and read again differ only in representation. -/
theorem same_toAttributes {a : Attributes} {s : Scalars} (h : ofAttributes a = .ok s) :
    a.Same (toAttributes s) := by
  have hscalars : scalarsOf a = .ok s := by rw [scalarsOf, h]; rfl
  rw [toAttributes_of_scalarsOf hscalars]
  exact a.same_published

namespace Selection

variable {schema : Schema} {d d' : ModuleData} {r r' : VariantRequest} {v w : Variant}
  {l l' left left' : List Variant} {keep keep' : Variant → Bool}

/-! ## Tests that do not see representations -/

/-- Of two lists of variants, what tests keep that agree on variants that are the same. -/
def Parallel (l l' left left' : List Variant) : Prop :=
  ∃ keep keep' : Variant → Bool, (∀ v w, v.Same w → keep v = keep' w) ∧
    left = l.filter keep ∧ left' = l'.filter keep'

theorem Parallel.refl (l l' : List Variant) : Parallel l l' l l' :=
  ⟨fun _ => true, fun _ => true, fun _ _ _ => rfl, by simp, by simp⟩

theorem Parallel.trans {middle middle' : List Variant} (h : Parallel l l' middle middle')
    (h' : Parallel middle middle' left left') : Parallel l l' left left' := by
  obtain ⟨keep, keep', hkeep, rfl, rfl⟩ := h
  obtain ⟨retain, retain', hretain, rfl, rfl⟩ := h'
  refine ⟨fun v => retain v && keep v, fun v => retain' v && keep' v, fun v w hvw => ?_,
    List.filter_filter, List.filter_filter⟩
  simp only [hretain v w hvw, hkeep v w hvw]

theorem parallel_filter (hkeep : ∀ v w, v.Same w → keep v = keep' w) :
    Parallel l l' (l.filter keep) (l'.filter keep') :=
  ⟨keep, keep', hkeep, rfl, rfl⟩

theorem Parallel.same (h : Parallel l l' left left') (hl : List.Forall₂ Variant.Same l l') :
    List.Forall₂ Variant.Same left left' := by
  obtain ⟨keep, keep', hkeep, rfl, rfl⟩ := h
  exact List.rel_filter (fun v w hvw => by simp only [hkeep v w hvw]) hl

/-- If a test keeps one variant only, it is passed at one place only. -/
theorem exists_place_of_filter (h : l.filter keep = [v]) :
    ∃ i : Nat, l[i]? = some v ∧ ∀ j x, l[j]? = some x → (keep x = true ↔ j = i) := by
  obtain ⟨before, after, rfl, hbefore, hv, hafter⟩ := List.filter_eq_cons_iff.1 h
  -- what comes before the variant and what comes after it fails the test
  refine ⟨before.length, by simp, fun j x hx => ?_⟩
  rcases lt_trichotomy j before.length with hlt | rfl | hgt
  · rw [List.getElem?_append_left hlt] at hx
    simp [hbefore x (List.mem_of_getElem? hx), Nat.ne_of_lt hlt]
  · obtain rfl : v = x := by simpa using hx
    simp [hv]
  · rw [List.getElem?_append_right (Nat.le_of_lt hgt), List.getElem?_cons,
      if_neg (Nat.sub_ne_zero_of_lt hgt)] at hx
    simp [List.filter_eq_nil_iff.1 hafter x (List.mem_of_getElem? hx), Nat.ne_of_gt hgt]

/-- If one variant is left of each list, they are at the same place and nowhere else. -/
theorem Parallel.exists_place (h : Parallel l l' [v] [w]) (hl : List.Forall₂ Variant.Same l l') :
    ∃ i : Nat, (∀ j : Nat, l[j]? = some v ↔ j = i) ∧ ∀ j : Nat, l'[j]? = some w ↔ j = i := by
  obtain ⟨keep, keep', hkeep, hv, hw⟩ := h
  obtain ⟨i, hi, hplace⟩ := exists_place_of_filter hv.symm
  obtain ⟨i', hi', hplace'⟩ := exists_place_of_filter hw.symm
  have hpass : keep v = true := (hplace i v hi).2 rfl
  have hpass' : keep' w = true := (hplace' i' w hi').2 rfl
  -- the lists agree place by place, and at the place of `v` only `w` passes
  have hlt : i < l.length := (List.getElem?_eq_some_iff.1 hi).1
  have hlt' : i < l'.length := hl.length_eq ▸ hlt
  have hsame : l[i].Same l'[i] := hl.get hlt hlt'
  obtain rfl : i = i' := by
    refine (hplace' i l'[i] (List.getElem?_eq_getElem hlt')).1 ?_
    rw [← hkeep _ _ hsame, (List.getElem?_eq_some_iff.1 hi).2]
    exact hpass
  exact ⟨i, fun j => ⟨fun hj => (hplace j v hj).1 hpass, fun hj => hj ▸ hi⟩,
    fun j => ⟨fun hj => (hplace' j w hj).1 hpass', fun hj => hj ▸ hi'⟩⟩

theorem parallel_prefer (hl : List.Forall₂ Variant.Same l l')
    (hkeep : ∀ v w, v.Same w → keep v = keep' w) :
    Parallel l l' (prefer keep l) (prefer keep' l') := by
  have hany : l.any keep = l'.any keep' := by
    induction hl with
    | nil => rfl
    | cons hvw _ ih => rw [List.any_cons, List.any_cons, hkeep _ _ hvw, ih]
  unfold prefer
  rw [hany]
  split
  · exact parallel_filter hkeep
  · exact .refl l l'

/-! ## Narrowing -/

theorem isBestOn_congr (rule : Disambiguation) (name : String)
    (hl : List.Forall₂ Variant.Same l l') (hvw : v.Same w) :
    isBestOn rule l name v = isBestOn rule l' name w := by
  have hvalues : List.Forall₂ (Option.Rel fun v w : Value => v.same w = true)
      (l.map fun v => v.attributes.get? name) (l'.map fun v => v.attributes.get? name) :=
    List.rel_map (fun _ _ hvw => hvw.attributes.get? name) hl
  exact rule.isBest_congr hvalues (hvw.attributes.get? name)

theorem carries_congr (name : String) {a b : Value} (hab : a.same b = true) (hvw : v.Same w) :
    carries name a v = carries name b w := by
  have hprovided := hvw.attributes.get? name
  unfold carries
  generalize v.attributes.get? name = p, w.attributes.get? name = q at hprovided
  cases hprovided with
  | none => rfl
  | some hsame => exact Value.same_congr hsame hab

theorem parallel_narrowRequested (hl : List.Forall₂ Variant.Same l l') {e e' : String × Value}
    (he : e.1 = e'.1 ∧ e.2.same e'.2 = true) :
    Parallel l l' (narrowRequested schema l e) (narrowRequested schema l' e') := by
  rw [narrowRequested_eq_prefer, narrowRequested_eq_prefer]
  refine parallel_prefer hl fun v w hvw => ?_
  unfold requestedPreference
  rw [he.1]
  cases schema.disambiguation? e'.1 with
  | some rule => exact isBestOn_congr rule e'.1 hl hvw
  | none => exact carries_congr e'.1 he.2 hvw

theorem parallel_narrowExtra (hl : List.Forall₂ Variant.Same l l') (name : String) :
    Parallel l l' (narrowExtra schema l name) (narrowExtra schema l' name) := by
  rw [narrowExtra_eq_prefer, narrowExtra_eq_prefer]
  refine parallel_prefer hl fun v w hvw => ?_
  unfold extraPreference
  cases schema.disambiguation? name with
  | some rule => exact isBestOn_congr rule name hl hvw
  | none => rfl

/-- What corresponding steps of two loops keep, the loops keep. -/
theorem parallel_foldl {α β : Type} {R : α → β → Prop} {narrowBy : List Variant → α → List Variant}
    {narrowBy' : List Variant → β → List Variant}
    (hstep : ∀ l l' a b, List.Forall₂ Variant.Same l l' → R a b →
      Parallel l l' (narrowBy l a) (narrowBy' l' b))
    {steps : List α} {steps' : List β} (hsteps : List.Forall₂ R steps steps')
    (hl : List.Forall₂ Variant.Same l l') :
    Parallel l l' (steps.foldl narrowBy l) (steps'.foldl narrowBy' l') := by
  induction hsteps generalizing l l' with
  | nil => exact .refl l l'
  | cons hab _ ih =>
    have hfirst := hstep l l' _ _ hl hab
    exact hfirst.trans (ih (hfirst.same hl))

theorem extraNames_congr (hl : List.Forall₂ Variant.Same l l')
    {requested requested' : Attributes} (hrequested : requested.Same requested') :
    extraNames l requested = extraNames l' requested' := by
  have hkeys : (l.flatMap fun v => v.attributes.keys) = l'.flatMap fun v => v.attributes.keys := by
    induction hl with
    | nil => rfl
    | cons hvw _ ih => rw [List.flatMap_cons, List.flatMap_cons, hvw.attributes.keys_eq, ih]
  have hcontains : (fun name => !requested.contains name) = fun name => !requested'.contains name :=
    funext fun name => congrArg _ (hrequested.contains_eq name)
  rw [extraNames, extraNames, hkeys, hcontains]

theorem parallel_disambiguate (hl : List.Forall₂ Variant.Same l l')
    {requested requested' : Attributes} (hrequested : requested.Same requested') :
    Parallel l l' (disambiguate schema requested l) (disambiguate schema requested' l') := by
  have hstep : ∀ (l l' : List Variant) (e e' : String × Value), List.Forall₂ Variant.Same l l' →
      e.1 = e'.1 ∧ e.2.same e'.2 = true →
      Parallel l l' (narrowRequested schema l e) (narrowRequested schema l' e') :=
    fun _ _ _ _ hl he => parallel_narrowRequested hl he
  have hextra : ∀ (l l' : List Variant) (name name' : String), List.Forall₂ Variant.Same l l' →
      name = name' → Parallel l l' (narrowExtra schema l name) (narrowExtra schema l' name') :=
    fun _ _ name _ hl hname => hname ▸ parallel_narrowExtra hl name
  have hfirst := parallel_foldl hstep hrequested.toList hl
  unfold disambiguate
  rw [extraNames_congr hl hrequested]
  exact hfirst.trans (parallel_foldl hextra (List.forall₂_refl _) (hfirst.same hl))

/-! ## Accepting -/

theorem accepts_iff_of_same (hvw : v.Same w) {e e' : String × Value}
    (he : e.1 = e'.1 ∧ e.2.same e'.2 = true) :
    (∀ p ∈ v.attributes.get? e.1, schema.accepts e.1 e.2 p = true) ↔
      ∀ p ∈ w.attributes.get? e'.1, schema.accepts e'.1 e'.2 p = true := by
  have hprovided := hvw.attributes.get? e'.1
  rw [he.1]
  generalize v.attributes.get? e'.1 = p, w.attributes.get? e'.1 = q at hprovided
  cases hprovided with
  | none => simp
  | some hsame => simp [Schema.accepts, Compatibility.accepts_congr _ he.2 hsame]

theorem providedIds_of_same (hd : d.Same d') (hvw : v.Same w) :
    providedIds d v = providedIds d' w := by
  rw [providedIds, providedIds, ModuleData.provided, ModuleData.provided, Variant.provided,
    Variant.provided, hd.id, hvw.capabilities]

/-- Variants that are the same are acceptable for the same requests. -/
theorem acceptable_iff_of_same (hd : d.Same d') (hr : r.Same r') (hvw : v.Same w) :
    Acceptable schema d r v ↔ Acceptable schema d' r' w := by
  unfold Acceptable
  rw [forall_mem_iff_of_forall₂ hr.attributes.toList fun _ _ he => accepts_iff_of_same hvw he,
    providedIds_of_same hd hvw, hr.capabilities, hd.id]

/-- The variants among which the attributes do not choose further are at the same places. -/
theorem parallel_finalists (schema : Schema) (hd : d.Same d') (hr : r.Same r') :
    Parallel d.variants d'.variants (finalists schema d r) (finalists schema d' r') := by
  have haccepted : Parallel d.variants d'.variants (accepted schema d r) (accepted schema d' r') :=
    parallel_filter fun v w hvw => by
      rw [Bool.eq_iff_iff, decide_eq_true_iff, decide_eq_true_iff]
      exact acceptable_iff_of_same hd hr hvw
  exact haccepted.trans (parallel_disambiguate (haccepted.same hd.variants) hr.attributes)

/-! ## Selecting -/

/-- Answers for two modules that agree: the same files, the variants at one place, or errors of the
same kind. -/
inductive Agrees (d d' : ModuleData) :
    Except SelectionError Selection → Except SelectionError Selection → Prop
  | artifacts (files : List FileRef) : Agrees d d' (.ok (.artifacts files)) (.ok (.artifacts files))
  | variant {v w : Variant} (i : Nat) (hv : ∀ j, d.variants[j]? = some v ↔ j = i)
      (hw : ∀ j, d'.variants[j]? = some w ↔ j = i) :
      Agrees d d' (.ok (.variant v)) (.ok (.variant w))
  | noMatch {r r' : VariantRequest} {eliminated eliminated' : List (Variant × Rejection)} :
      Agrees d d' (.error (.noMatch d.id [r] eliminated))
        (.error (.noMatch d'.id [r'] eliminated'))
  | ambiguous {r r' : VariantRequest} {tied tied' : List Variant}
      (htied : List.Forall₂ Variant.Same tied tied') :
      Agrees d d' (.error (.ambiguous d.id [r] tied)) (.error (.ambiguous d'.id [r'] tied'))

theorem agrees_select (schema : Schema) (hd : d.Same d') (hr : r.Same r')
    (htarget : r.targetVariant = none) :
    Agrees d d' (select schema d r) (select schema d' r') := by
  have htarget' : r'.targetVariant = none := hr.targetVariant ▸ htarget
  have hparallel := parallel_finalists schema hd hr
  have hsame := hparallel.same hd.variants
  obtain ⟨o, ho⟩ := exists_answers schema d r
  rw [select_of_answers ho]
  cases ho with
  | named hname _ => simp [htarget] at hname
  | unknown hname _ => simp [htarget] at hname
  | unpublished _ hempty =>
    have hempty' : d'.variants = [] := List.forall₂_nil_left_iff.1 (hempty ▸ hd.variants)
    rw [select_of_answers (.unpublished htarget' hempty'), hd.artifacts]
    exact .artifacts _
  | unaccepted _ hpublished hnil =>
    have hpublished' : d'.variants ≠ [] := fun hempty =>
      hpublished (List.forall₂_nil_right_iff.1 (hempty ▸ hd.variants))
    have hnil' : finalists schema d' r' = [] :=
      List.forall₂_nil_left_iff.1 (finalists_eq_nil_iff.2 hnil ▸ hsame)
    rw [select_of_answers (.unaccepted htarget' hpublished' (finalists_eq_nil_iff.1 hnil'))]
    exact .noMatch
  | @single v _ hv =>
    rw [hv] at hsame hparallel
    obtain ⟨w, _, -, hnil, hw⟩ := List.forall₂_cons_left_iff.1 hsame
    rw [List.forall₂_nil_left_iff.1 hnil] at hw
    rw [hw] at hparallel
    obtain ⟨i, hi, hi'⟩ := hparallel.exists_place hd.variants
    rw [select_of_answers (.single htarget' hw)]
    exact .variant i hi hi'
  | several _ hmany =>
    rw [select_of_answers (.several htarget' (hsame.length_eq ▸ hmany))]
    exact .ambiguous hsame

/-- Matching does not see representations: being the same value is an equivalence, the rules accept
and prefer alike what is the same, acceptance goes on from an accepted value, and requests select
the variant at the same place, or fail in the same way, when values of the request or of the
variants are replaced by ones that are the same. Writing and reading attributes replaces values in
this way. -/
theorem matching_respects_representation :
    (Equivalence fun a b : Value => a.same b = true) ∧
    (∀ rule : Compatibility, (∀ a, rule.accepts a a = true) ∧
      (∀ a b c, rule.accepts a b = true → rule.accepts b c = true → rule.accepts a c = true) ∧
      ∀ a a' b b', a.same a' = true → b.same b' = true → rule.accepts a b = rule.accepts a' b') ∧
    (∀ (rule : Disambiguation) (values values' : List (Option Value)),
      List.Forall₂ (Option.Rel fun v w : Value => v.same w = true) values values' →
        rule.preferred values = rule.preferred values') ∧
    (∀ (a : Attributes) (s : Scalars), ofAttributes a = .ok s → a.Same (toAttributes s)) ∧
    ∀ (schema : Schema) (d d' : ModuleData) (r r' : VariantRequest), d.Same d' → r.Same r' →
      r.targetVariant = none → Agrees d d' (select schema d r) (select schema d' r') :=
  ⟨Value.same_equivalence,
    fun rule => ⟨rule.accepts_refl, fun _ _ _ => rule.accepts_trans,
      fun _ _ _ _ => rule.accepts_congr⟩,
    fun rule _ _ => rule.preferred_congr, fun _ _ => same_toAttributes,
    fun schema _ _ _ _ => agrees_select schema⟩

/-- The variants of `platformModule`, most of them with a text as the version. -/
def textualModule : ModuleData where
  id := platformModule.id
  variants :=
    [attributesOnly "jdk8" [("org.gradle.jvm.version", .string "8")],
      attributesOnly "jdk11" [("org.gradle.jvm.version", .named "+11")],
      attributesOnly "jdk11-extra" [("org.gradle.jvm.version", .string "011")],
      platformVariant "jdk21" 21]

def textualRequest (version : String) : VariantRequest where
  attributes := Table.ofList [("org.gradle.jvm.version", .string version)]

/-- Versions given as texts lead to the variant that the integers lead to. -/
theorem matching_respects_representation_platform :
    platformModule.Same textualModule ∧ (platformRequest 21).Same (textualRequest "21") ∧
      (platformRequest 21).targetVariant = none ∧
      select .standard platformModule (platformRequest 21)
        = .ok (.variant (platformVariant "jdk21" 21)) ∧
      Agrees platformModule textualModule (select .standard platformModule (platformRequest 21))
        (select .standard textualModule (textualRequest "21")) := by
  have hsame : ∀ (name : String) (a b : Value), a.same b = true →
      (attributesOnly name [("org.gradle.jvm.version", a)]).Same
        (attributesOnly name [("org.gradle.jvm.version", b)]) := fun name a b hab =>
    ⟨rfl, .cons ⟨rfl, hab⟩ .nil, rfl, rfl⟩
  have h8 := hsame "jdk8" (.integer 8) (.string "8") (by decide +kernel)
  have h11 := hsame "jdk11" (.integer 11) (.named "+11") (by decide +kernel)
  have h11' := hsame "jdk11-extra" (.integer 11) (.string "011") (by decide +kernel)
  have h21 := hsame "jdk21" (.integer 21) (.integer 21) (Value.same_refl _)
  have hmodule : platformModule.Same textualModule :=
    ⟨rfl, .refl _, .cons h8 (.cons h11 (.cons h11' (.cons h21 .nil))), rfl⟩
  have hrequest : (platformRequest 21).Same (textualRequest "21") :=
    ⟨.cons ⟨rfl, by decide +kernel⟩ .nil, rfl, rfl⟩
  exact ⟨hmodule, hrequest, rfl, by decide +kernel,
    matching_respects_representation.2.2.2.2 .standard _ _ _ _ hmodule hrequest rfl⟩

end Selection

end VariantGraph
