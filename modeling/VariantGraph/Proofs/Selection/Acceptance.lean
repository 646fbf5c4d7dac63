import VariantGraph.Proofs.Selection.Narrowing

/-!
# Selecting by acceptability

A request that names no variant is answered by the acceptable variants alone. If there is none,
nothing fits; of one or more, the attributes choose some, and one that is chosen alone is selected.
In which order the variants are published, and which unacceptable ones besides, changes nothing.

Main statements: `Selection.select_eq_iff` says what a request selects by itself,
`Selection.select_by_acceptability` when it fails and what it can select, `Selection.select_alike`
that the acceptable variants decide.
-/

namespace VariantGraph

/-- Nothing fits: no variant is acceptable, or none has the wanted name. -/
def SelectionError.NoneFits : SelectionError → Prop
  | .noMatch _ _ _ => True
  | .noSuchVariant _ _ _ => True
  | .ambiguous _ _ _ => False

namespace Selection

variable {schema : Schema} {module module' : ModuleData} {r : VariantRequest} {v : Variant}

/-! ## The acceptable variants -/

instance : Decidable (Acceptable schema module r v) :=
  decidable_of_iff (rejection? schema module r v = none) rejection?_eq_none_iff

/-- The variants that are acceptable for a request, in the order in which they are published. -/
def accepted (schema : Schema) (module : ModuleData) (r : VariantRequest) : List Variant :=
  module.variants.filter fun v => decide (Acceptable schema module r v)

/-- The acceptable variants among which the attributes do not choose any further. -/
def finalists (schema : Schema) (module : ModuleData) (r : VariantRequest) : List Variant :=
  disambiguate schema r.attributes (accepted schema module r)

/-- The variants that are not acceptable, with the reasons. -/
def rejected (schema : Schema) (module : ModuleData) (r : VariantRequest) :
    List (Variant × Rejection) :=
  module.variants.filterMap fun v => (rejection? schema module r v).map fun why => (v, why)

theorem partition_eq : partition schema module r
    = (accepted schema module r, rejected schema module r) := by
  refine Prod.ext (List.filter_congr fun v _ => ?_) rfl
  rw [Bool.eq_iff_iff, Option.isNone_iff_eq_none, rejection?_eq_none_iff, decide_eq_true_iff]

theorem mem_accepted_iff :
    v ∈ accepted schema module r ↔ v ∈ module.variants ∧ Acceptable schema module r v := by
  rw [accepted, List.mem_filter, decide_eq_true_iff]

theorem accepted_eq_nil_iff : accepted schema module r = [] ↔
    ∀ v ∈ module.variants, ¬ Acceptable schema module r v := by
  simp only [accepted, List.filter_eq_nil_iff, decide_eq_true_iff]

theorem narrows_finalists : Narrows (accepted schema module r) (finalists schema module r) :=
  narrows_disambiguate schema r.attributes (accepted schema module r)

theorem finalists_eq_nil_iff : finalists schema module r = [] ↔ accepted schema module r = [] := by
  constructor
  · exact fun h => by_contra fun hne => narrows_finalists.ne_nil hne h
  · exact fun h => List.sublist_nil.1 (h ▸ narrows_finalists.sublist)

theorem acceptable_of_mem_finalists (h : v ∈ finalists schema module r) :
    v ∈ module.variants ∧ Acceptable schema module r v :=
  mem_accepted_iff.1 (narrows_finalists.sublist.subset h)

/-! ## What a request selects by itself -/

/-- How a request is answered: by name if it gives one, else by the acceptable variants, of which
the attributes choose. -/
inductive Answers (schema : Schema) (module : ModuleData) (r : VariantRequest) :
    Except SelectionError Selection → Prop
  | named {name : String} {v : Variant} (htarget : r.targetVariant = some name)
      (hv : module.variant? name = some v) : Answers schema module r (.ok (.variant v))
  | unknown {name : String} (htarget : r.targetVariant = some name)
      (hv : module.variant? name = none) :
      Answers schema module r (.error (.noSuchVariant module.id name module.variants))
  | unpublished (htarget : r.targetVariant = none) (hempty : module.variants = []) :
      Answers schema module r (.ok (.artifacts module.artifacts))
  | unaccepted (htarget : r.targetVariant = none) (hpublished : module.variants ≠ [])
      (hnil : accepted schema module r = []) :
      Answers schema module r (.error (.noMatch module.id [r] (rejected schema module r)))
  | single {v : Variant} (htarget : r.targetVariant = none)
      (hv : finalists schema module r = [v]) : Answers schema module r (.ok (.variant v))
  | several (htarget : r.targetVariant = none) (hmany : 2 ≤ (finalists schema module r).length) :
      Answers schema module r (.error (.ambiguous module.id [r] (finalists schema module r)))

theorem select_of_finalists_ne_nil (htarget : r.targetVariant = none)
    (hsome : finalists schema module r ≠ []) : select schema module r =
      match finalists schema module r with
      | [v] => .ok (.variant v)
      | left => .error (.ambiguous module.id [r] left) := by
  have haccepted : accepted schema module r ≠ [] := mt finalists_eq_nil_iff.2 hsome
  have hpublished : module.variants ≠ [] := by
    intro hnil
    exact haccepted (by rw [accepted, hnil, List.filter_nil])
  unfold select
  rw [partition_eq]
  simp only [htarget, List.isEmpty_iff, if_neg hpublished, if_neg haccepted]
  rfl

theorem select_of_answers {o : Except SelectionError Selection} (h : Answers schema module r o) :
    select schema module r = o := by
  cases h with
  | named htarget hv => simp only [select, htarget, hv]
  | unknown htarget hv => simp only [select, htarget, hv]
  | unpublished htarget hempty => simp [select, htarget, hempty]
  | unaccepted htarget hpublished hnil => simp [select, partition_eq, htarget, hpublished, hnil]
  | single htarget hv =>
    have hsome : finalists schema module r ≠ [] := by simp [hv]
    rw [select_of_finalists_ne_nil htarget hsome, hv]
  | several htarget hmany =>
    match hleft : finalists schema module r, hmany with
    | v :: w :: rest, _ =>
      have hsome : finalists schema module r ≠ [] := by simp [hleft]
      rw [select_of_finalists_ne_nil htarget hsome, hleft]

theorem exists_answers (schema : Schema) (module : ModuleData) (r : VariantRequest) :
    ∃ o, Answers schema module r o := by
  cases htarget : r.targetVariant with
  | some name =>
    cases hv : module.variant? name with
    | some v => exact ⟨_, .named htarget hv⟩
    | none => exact ⟨_, .unknown htarget hv⟩
  | none =>
    by_cases hempty : module.variants = []
    · exact ⟨_, .unpublished htarget hempty⟩
    · match hleft : finalists schema module r with
      | [] => exact ⟨_, .unaccepted htarget hempty (finalists_eq_nil_iff.1 hleft)⟩
      | [v] => exact ⟨_, .single htarget hleft⟩
      | v :: w :: rest => exact ⟨_, .several htarget (by simp [hleft])⟩

/-- What a request selects by itself. -/
theorem select_eq_iff {o : Except SelectionError Selection} :
    select schema module r = o ↔ Answers schema module r o := by
  refine ⟨fun h => ?_, select_of_answers⟩
  obtain ⟨o', ho'⟩ := exists_answers schema module r
  exact (select_of_answers ho').symm.trans h ▸ ho'

/-! ## Which variants are selected -/

theorem finalists_eq_singleton (h : accepted schema module r = [v]) :
    finalists schema module r = [v] :=
  Narrows.eq_singleton (h ▸ narrows_finalists)

theorem accepted_eq_singleton {before after : List Variant}
    (hv : module.variants = before ++ v :: after) (haccepted : Acceptable schema module r v)
    (hothers : ∀ w ∈ before ++ after, ¬ Acceptable schema module r w) :
    accepted schema module r = [v] := by
  have hbefore : before.filter (fun w => decide (Acceptable schema module r w)) = [] := by
    simpa using fun w hw => hothers w (List.mem_append_left after hw)
  have hafter : after.filter (fun w => decide (Acceptable schema module r w)) = [] := by
    simpa using fun w hw => hothers w (List.mem_append_right before hw)
  rw [accepted, hv, List.filter_append, hbefore, List.filter_cons,
    if_pos (decide_eq_true haccepted), hafter, List.nil_append]

/-- Of a module with variants, a request that names none selects an acceptable variant. It fails for
want of one exactly if there is none, it does not fail if there is just one, and else it can only
fail by naming several of them. -/
theorem select_by_acceptability (schema : Schema) (hpublished : module.variants ≠ [])
    (htarget : r.targetVariant = none) :
    ((∃ e, select schema module r = .error e ∧ e.NoneFits) ↔
        ∀ v ∈ module.variants, ¬ Acceptable schema module r v) ∧
      (∀ s, select schema module r = .ok s →
        ∃ v ∈ module.variants, s = .variant v ∧ Acceptable schema module r v) ∧
      (∀ before v after, module.variants = before ++ v :: after → Acceptable schema module r v →
        (∀ w ∈ before ++ after, ¬ Acceptable schema module r w) →
          select schema module r = .ok (.variant v)) ∧
      ∀ e, select schema module r = .error e → ¬ e.NoneFits →
        ∃ tied, e = .ambiguous module.id [r] tied ∧ 2 ≤ tied.length ∧
          tied.Sublist module.variants ∧ ∀ v ∈ tied, Acceptable schema module r v := by
  refine ⟨?_, ?_, ?_, ?_⟩
  · rw [← accepted_eq_nil_iff]
    constructor
    · rintro ⟨e, he, hnone⟩
      cases select_eq_iff.1 he with
      | unknown hname _ => simp [htarget] at hname
      | unaccepted _ _ hnil => exact hnil
      | several _ _ => exact hnone.elim
    · exact fun hnil => ⟨_, select_of_answers (.unaccepted htarget hpublished hnil), trivial⟩
  · intro s hs
    cases select_eq_iff.1 hs with
    | named hname _ => simp [htarget] at hname
    | unpublished _ hempty => exact absurd hempty hpublished
    | single _ hv =>
      obtain ⟨hmem, hacceptable⟩ := acceptable_of_mem_finalists (hv ▸ List.mem_singleton_self _)
      exact ⟨_, hmem, rfl, hacceptable⟩
  · intro before v after hv haccepted hothers
    exact select_of_answers
      (.single htarget (finalists_eq_singleton (accepted_eq_singleton hv haccepted hothers)))
  · intro e he hfits
    cases select_eq_iff.1 he with
    | unknown hname _ => simp [htarget] at hname
    | unaccepted _ _ _ => exact absurd trivial hfits
    | several _ hmany =>
      exact ⟨_, rfl, hmany, narrows_finalists.sublist.trans List.filter_sublist,
        fun v hv => (acceptable_of_mem_finalists hv).2⟩

/-- A variant of which only the attributes matter. -/
def attributesOnly (name : String) (attributes : List (String × Value)) : Variant where
  name := name
  attributes := Table.ofList attributes
  capabilities := []
  source := .here {}

/-- A variant that says which version of the platform it needs. -/
def platformVariant (name : String) (version : Int64) : Variant :=
  attributesOnly name [("org.gradle.jvm.version", .integer version)]

/-- Two of the variants need the same version of the platform. -/
def platformModule : ModuleData where
  id := ⟨"org", "lib", "1.0"⟩
  variants :=
    [platformVariant "jdk8" 8, platformVariant "jdk11" 11, platformVariant "jdk11-extra" 11,
      platformVariant "jdk21" 21]

def platformRequest (version : Int64) : VariantRequest where
  attributes := Table.ofList [("org.gradle.jvm.version", .integer version)]

/-- No variant serves version 7, one serves version 8, and version 17 leaves two of three. -/
theorem select_by_acceptability_platform :
    platformModule.variants ≠ [] ∧
      (∃ e, select .standard platformModule (platformRequest 7) = .error e ∧ e.NoneFits) ∧
      select .standard platformModule (platformRequest 8)
        = .ok (.variant (platformVariant "jdk8" 8)) ∧
      ∃ tied, select .standard platformModule (platformRequest 17)
          = .error (.ambiguous platformModule.id [platformRequest 17] tied) ∧
        2 ≤ tied.length ∧
        ∀ v ∈ tied, Acceptable .standard platformModule (platformRequest 17) v := by
  have hpublished : platformModule.variants ≠ [] := List.cons_ne_nil _ _
  have hnone : ∀ v ∈ platformModule.variants,
      ¬ Acceptable .standard platformModule (platformRequest 7) v := by decide +kernel
  have hothers : ∀ w ∈ [] ++ platformModule.variants.tail,
      ¬ Acceptable .standard platformModule (platformRequest 8) w := by decide +kernel
  have htied : select .standard platformModule (platformRequest 17)
      = .error (.ambiguous platformModule.id [platformRequest 17]
          [platformVariant "jdk11" 11, platformVariant "jdk11-extra" 11]) := by decide +kernel
  obtain ⟨tied, heq, hmany, -, hacceptable⟩ :=
    (select_by_acceptability .standard hpublished rfl).2.2.2 _ htied id
  exact ⟨hpublished, (select_by_acceptability .standard hpublished rfl).1.2 hnone,
    (select_by_acceptability .standard hpublished rfl).2.2.1 [] _ _ rfl (by decide +kernel) hothers,
    tied, htied.trans (congrArg _ heq), hmany, hacceptable⟩

/-! ## What does not matter -/

/-- Two answers agree but for the order in which variants are listed. -/
inductive Alike : Except SelectionError Selection → Except SelectionError Selection → Prop
  | selected (s : Selection) : Alike (.ok s) (.ok s)
  | noMatch {m : Coordinates} {requests : List VariantRequest}
      {eliminated eliminated' : List (Variant × Rejection)} (h : eliminated.Perm eliminated') :
      Alike (.error (.noMatch m requests eliminated)) (.error (.noMatch m requests eliminated'))
  | ambiguous {m : Coordinates} {requests : List VariantRequest} {tied tied' : List Variant}
      (h : tied.Perm tied') :
      Alike (.error (.ambiguous m requests tied)) (.error (.ambiguous m requests tied'))

/-- Where something is acceptable, the acceptable variants decide. -/
theorem alike_of_perm_accepted (htarget : r.targetVariant = none) (hid : module'.id = module.id)
    (hsome : accepted schema module r ≠ [])
    (h : (accepted schema module r).Perm (accepted schema module' r)) :
    Alike (select schema module r) (select schema module' r) := by
  have hperm : (finalists schema module r).Perm (finalists schema module' r) :=
    perm_disambiguate schema r.attributes h
  match hleft : finalists schema module r with
  | [] => exact absurd (finalists_eq_nil_iff.1 hleft) hsome
  | [v] =>
    have hleft' : finalists schema module' r = [v] :=
      List.perm_singleton.1 (hleft ▸ hperm).symm
    rw [select_of_answers (.single htarget hleft), select_of_answers (.single htarget hleft')]
    exact .selected _
  | v :: w :: rest =>
    have hmany : 2 ≤ (finalists schema module r).length := by simp [hleft]
    rw [select_of_answers (.several htarget hmany),
      select_of_answers (.several htarget (hperm.length_eq ▸ hmany)), hid]
    exact .ambiguous hperm

/-- Where nothing is acceptable, the order of the variants only shows in the reasons listed. -/
theorem alike_of_accepted_eq_nil {variants : List Variant} (htarget : r.targetVariant = none)
    (hnil : accepted schema module r = []) (h : module.variants.Perm variants) :
    Alike (select schema module r) (select schema { module with variants := variants } r) := by
  have hperm : (accepted schema module r).Perm
      (accepted schema { module with variants := variants } r) := h.filter _
  have hnil' : accepted schema { module with variants := variants } r = [] :=
    (hnil ▸ hperm).nil_eq.symm
  by_cases hempty : module.variants = []
  · have hempty' : variants = [] := (hempty ▸ h).nil_eq.symm
    rw [select_of_answers (.unpublished htarget hempty),
      select_of_answers (.unpublished htarget hempty')]
    exact .selected _
  · have hpublished : variants ≠ [] := fun hempty' => hempty (hempty' ▸ h).eq_nil
    rw [select_of_answers (.unaccepted htarget hempty hnil),
      select_of_answers (.unaccepted htarget hpublished hnil')]
    exact .noMatch (h.filterMap _)

theorem count_accepted (schema : Schema) (module : ModuleData) (r : VariantRequest) (v : Variant) :
    (accepted schema module r).count v
      = if Acceptable schema module r v then module.variants.count v else 0 := by
  split
  · next hv =>
    rw [accepted, List.count_filter]
    exact decide_eq_true hv
  · next hv => exact List.count_eq_zero_of_not_mem fun hmem => hv (mem_accepted_iff.1 hmem).2

theorem perm_accepted {variants : List Variant}
    (h : ∀ v, Acceptable schema module r v → variants.count v = module.variants.count v) :
    (accepted schema module r).Perm (accepted schema { module with variants := variants } r) := by
  refine List.perm_iff_count.2 fun v => ?_
  have hsame : Acceptable schema { module with variants := variants } r v ↔
      Acceptable schema module r v := Iff.rfl
  simp only [count_accepted, hsame]
  split
  · next hv => exact (h v hv).symm
  · rfl

/-- A request that names no variant is answered alike if the variants are published in another
order, and, where one of them is acceptable, if each acceptable one is published as often as
before, whatever else is. -/
theorem select_alike (schema : Schema) (module : ModuleData) (htarget : r.targetVariant = none) :
    (∀ variants, variants.Perm module.variants →
        Alike (select schema module r) (select schema { module with variants := variants } r)) ∧
      ∀ variants, (∃ v ∈ module.variants, Acceptable schema module r v) →
        (∀ v, Acceptable schema module r v → variants.count v = module.variants.count v) →
          Alike (select schema module r)
            (select schema { module with variants := variants } r) := by
  constructor
  · intro variants h
    by_cases hnil : accepted schema module r = []
    · exact alike_of_accepted_eq_nil htarget hnil h.symm
    · exact alike_of_perm_accepted htarget rfl hnil (h.symm.filter _)
  · rintro variants ⟨v, hv, hacceptable⟩ hcount
    have hsome : accepted schema module r ≠ [] :=
      List.ne_nil_of_mem (mem_accepted_iff.2 ⟨hv, hacceptable⟩)
    exact alike_of_perm_accepted htarget rfl hsome (perm_accepted hcount)

/-- Version 11 is asked for. In another order, the answer lists the two variants that are left in
that order; without the variant for version 21 and with one for version 17 instead, nothing
changes. -/
theorem select_alike_platform :
    let reordered := platformModule.variants.reverse
    let replaced := platformVariant "jdk17" 17 :: platformModule.variants.dropLast
    (platformRequest 11).targetVariant = none ∧
      Alike (select .standard platformModule (platformRequest 11))
        (select .standard { platformModule with variants := reordered } (platformRequest 11)) ∧
      (∀ v, Acceptable .standard platformModule (platformRequest 11) v →
        replaced.count v = platformModule.variants.count v) ∧
      Alike (select .standard platformModule (platformRequest 11))
        (select .standard { platformModule with variants := replaced } (platformRequest 11)) := by
  intro reordered replaced
  have hcount : ∀ v, Acceptable .standard platformModule (platformRequest 11) v →
      replaced.count v = platformModule.variants.count v := by
    intro v hv
    have h17 : platformVariant "jdk17" 17 ≠ v := by
      rintro rfl
      exact absurd hv (by decide +kernel)
    have h21 : platformVariant "jdk21" 21 ≠ v := by
      rintro rfl
      exact absurd hv (by decide +kernel)
    simp [replaced, platformModule, List.count_cons, h17, h21]
  have hacceptable : ∃ v ∈ platformModule.variants,
      Acceptable .standard platformModule (platformRequest 11) v := by decide +kernel
  have htarget : (platformRequest 11).targetVariant = none := rfl
  obtain ⟨hperm, haccepted⟩ := select_alike .standard platformModule htarget
  exact ⟨htarget, hperm reordered (List.reverse_perm _), hcount,
    haccepted replaced hacceptable hcount⟩

end Selection

end VariantGraph
