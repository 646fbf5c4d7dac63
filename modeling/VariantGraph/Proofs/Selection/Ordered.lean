import VariantGraph.Proofs.Schema.Representation
import VariantGraph.Proofs.Selection.Acceptance

/-!
# Selecting the best of ordered values

Versions of a platform are a typical attribute: a variant serves every consumer of its version or a
later one, and the latest of those that serve is the best. For such an attribute a schema has two
rules that compare by one order, the one says what is accepted and the other what is preferred. If
the variants differ in this attribute only, a request then selects the greatest value that is not
above the one asked for.

Main statements: `Selection.AsksByRank.finalists_eq_singleton_of_greatest` says that the attributes
choose the greatest value, `Selection.select_greatest_not_above` what a request selects, and
`Selection.select_unpublished_platform` why there have to be variants.
-/

namespace VariantGraph

/-- A schema compares the values of an attribute by the order of a rule, of which it accepts what is
not above the value asked for and prefers what is greatest. -/
inductive Schema.Orders (s : Schema) (t : String) : Compatibility → Prop
  | integers (h : s.rulesOf t = ⟨.atMost, some .highest⟩) : Orders s t .atMost
  | listed {order : List Value} (h : s.rulesOf t = ⟨.ordered order, some (.ordered order)⟩) :
    Orders s t (.ordered order)

namespace Schema

variable {s : Schema} {t : String} {rule : Compatibility}

theorem Orders.accepts_eq (h : s.Orders t rule) (consumer producer : Value) :
    s.accepts t consumer producer = rule.accepts consumer producer := by
  cases h with
  | integers h => rw [accepts, h]
  | listed h => rw [accepts, h]

theorem score_ordered (order : List Value) (v : Value) :
    (Disambiguation.ordered order).score v = (Compatibility.ordered order).rank? v := by
  rw [Disambiguation.score, Compatibility.rank?]
  cases positionIn order v <;> rfl

/-- The scores of the values are their ranks. -/
theorem Orders.exists_score_eq (h : s.Orders t rule) :
    ∃ choice, s.disambiguation? t = some choice ∧ choice.score = rule.rank? := by
  cases h with
  | integers h => exact ⟨.highest, by rw [disambiguation?, h], rfl⟩
  | listed h => exact ⟨_, by rw [disambiguation?, h], funext (score_ordered _)⟩

end Schema

namespace Variant

/-- The rank of the value that a variant carries of an attribute. -/
def rank? (rule : Compatibility) (t : String) (v : Variant) : Option Int :=
  (v.attributes.get? t).bind rule.rank?

/-- A variant carries the greatest value of an attribute that is not above a bound. -/
structure GreatestNotAbove (rule : Compatibility) (t : String) (bound : Int)
    (variants : List Variant) (v : Variant) : Prop where
  mem : v ∈ variants
  greatest : ∃ k, v.rank? rule t = some k ∧ k ≤ bound ∧
    ∀ w ∈ variants, ∀ j, w.rank? rule t = some j → j ≤ bound → j ≤ k

/-- Variants differ in an attribute: each has a value in the order of a rule, no two of them have
the same, and they have neither capabilities nor any of the other requested attributes. -/
structure Differ (rule : Compatibility) (t : String) (requested : Attributes)
    (variants : List Variant) : Prop where
  capabilities : ∀ v ∈ variants, v.capabilities = []
  ranked : ∀ v ∈ variants, ∃ k, v.rank? rule t = some k
  others : ∀ v ∈ variants, ∀ name ∈ requested.keys, name ≠ t → v.attributes.get? name = none
  distinct : variants.Pairwise fun v w =>
    ∀ p ∈ v.attributes.get? t, ∀ q ∈ w.attributes.get? t, p.same q = false

theorem Differ.nodup {rule : Compatibility} {t : String} {requested : Attributes}
    {variants : List Variant} (h : Differ rule t requested variants) : variants.Nodup := by
  refine h.distinct.imp_of_mem fun {v w} hv _ hvw heq => ?_
  subst heq
  obtain ⟨k, hk⟩ := h.ranked v hv
  obtain ⟨p, hp, -⟩ := Option.bind_eq_some_iff.1 hk
  exact absurd p.same_refl (by simp [hvw p hp p hp])

/-- Variants that differ have different ranks. -/
theorem Differ.eq_of_rank? {rule : Compatibility} {t : String} {requested : Attributes}
    {variants : List Variant} {v w : Variant} {k : Int} (h : Differ rule t requested variants)
    (hv : v ∈ variants) (hw : w ∈ variants) (hvk : v.rank? rule t = some k)
    (hwk : w.rank? rule t = some k) : v = w := by
  by_contra hne
  obtain ⟨p, hp, hpk⟩ := Option.bind_eq_some_iff.1 hvk
  obtain ⟨q, hq, hqk⟩ := Option.bind_eq_some_iff.1 hwk
  have hsymm : Std.Symm fun v w : Variant =>
      ∀ p ∈ v.attributes.get? t, ∀ q ∈ w.attributes.get? t, p.same q = false :=
    ⟨fun _ _ h p hp q hq => (p.same_symm q).trans (h q hq p hp)⟩
  have hdifferent := h.distinct.forall hv hw hne p hp q hq
  rw [Compatibility.same_of_rank? hpk hqk] at hdifferent
  cases hdifferent

end Variant

namespace Selection

variable {schema : Schema} {module : ModuleData} {r : VariantRequest} {rule : Compatibility}
  {t : String} {bound k : Int} {l : List Variant} {v : Variant}

/-! ## Requests for other attributes -/

theorem narrowRequested_of_absent {e : String × Value}
    (h : ∀ v ∈ l, v.attributes.get? e.1 = none) : narrowRequested schema l e = l := by
  have hnone : l.any (requestedPreference schema l e) = false := by
    refine List.any_eq_false.2 fun v hv => ?_
    unfold requestedPreference
    cases schema.disambiguation? e.1 with
    | some choice => simp [isBestOn, Disambiguation.isBest, h v hv]
    | none => simp [carries, h v hv]
  rw [narrowRequested_eq_prefer, prefer, hnone]
  rfl

theorem foldl_narrowRequested_of_absent {steps : List (String × Value)}
    (h : ∀ e ∈ steps, ∀ v ∈ l, v.attributes.get? e.1 = none) :
    steps.foldl (narrowRequested schema) l = l := by
  induction steps with
  | nil => rfl
  | cons e rest ih =>
    rw [List.foldl_cons, narrowRequested_of_absent (h e List.mem_cons_self)]
    exact ih fun e' he' => h e' (List.mem_cons_of_mem e he')

/-! ## Requests for an ordered attribute -/

/-- A request without target and capabilities asks for a value of an ordered attribute, in which the
variants of the module differ. -/
structure AsksByRank (schema : Schema) (module : ModuleData) (r : VariantRequest) (t : String)
    (rule : Compatibility) (bound : Int) : Prop where
  orders : schema.Orders t rule
  targetVariant : r.targetVariant = none
  capabilities : r.capabilities = []
  wanted : ∃ c, r.attributes.get? t = some c ∧ rule.rank? c = some bound
  differ : Variant.Differ rule t r.attributes module.variants

theorem implicit_mem_providedIds (module : ModuleData) (h : v.capabilities = []) :
    CapabilityId.ofModule module.id.module ∈ providedIds module v := by
  rw [providedIds, ModuleData.provided, Variant.provided, h]
  exact List.mem_singleton_self _

namespace AsksByRank

/-- The variants that do not rank above the value asked for are accepted. -/
theorem acceptable_iff (h : AsksByRank schema module r t rule bound) (hv : v ∈ module.variants)
    (hk : v.rank? rule t = some k) : Acceptable schema module r v ↔ k ≤ bound := by
  obtain ⟨c, hc, hbound⟩ := h.wanted
  obtain ⟨p, hp, hrank⟩ := Option.bind_eq_some_iff.1 hk
  have hvalue : schema.accepts t c p = true ↔ k ≤ bound := by
    rw [h.orders.accepts_eq, Compatibility.accepts_iff]
    constructor
    · rintro (hsame | ⟨i, j, hi, hj, hji⟩)
      · rw [← rule.rank?_congr hsame, hbound] at hrank
        exact Int.le_of_eq (Option.some.inj hrank).symm
      · rw [hbound] at hi
        rw [hrank] at hj
        exact Option.some.inj hi ▸ Option.some.inj hj ▸ hji
    · exact fun hle => .inr ⟨bound, k, hbound, hrank, hle⟩
  have himplicit := implicit_mem_providedIds module (h.differ.capabilities v hv)
  rw [Acceptable, if_pos h.capabilities, and_iff_left himplicit, ← hvalue]
  constructor
  · exact fun haccepts => haccepts (t, c) (Table.mem_toList_iff.2 hc) p hp
  · rintro haccepts ⟨name, wanted⟩ he q hq
    by_cases hname : name = t
    · subst hname
      obtain rfl : c = wanted := Option.some.inj (hc.symm.trans (Table.mem_toList_iff.1 he))
      obtain rfl : p = q := Option.some.inj (hp.symm.trans hq)
      exact haccepts
    · have hkey : name ∈ r.attributes.keys := List.mem_map_of_mem he
      rw [h.differ.others v hv name hkey hname] at hq
      cases hq

theorem mem_accepted_iff (h : AsksByRank schema module r t rule bound) :
    v ∈ accepted schema module r ↔
      v ∈ module.variants ∧ ∃ k, v.rank? rule t = some k ∧ k ≤ bound := by
  rw [Selection.mem_accepted_iff]
  refine and_congr_right fun hv => ?_
  obtain ⟨k, hk⟩ := h.differ.ranked v hv
  rw [h.acceptable_iff hv hk]
  simp [hk]

theorem rank_le_of_mem_accepted (h : AsksByRank schema module r t rule bound)
    (hv : v ∈ accepted schema module r) (hk : v.rank? rule t = some k) : k ≤ bound := by
  obtain ⟨-, j, hj, hle⟩ := h.mem_accepted_iff.1 hv
  obtain rfl : k = j := Option.some.inj (hk.symm.trans hj)
  exact hle

theorem accepted_eq_nil_iff (h : AsksByRank schema module r t rule bound) :
    accepted schema module r = [] ↔
      ∀ v ∈ module.variants, ∀ k, v.rank? rule t = some k → bound < k := by
  rw [List.eq_nil_iff_forall_not_mem]
  simp only [h.mem_accepted_iff, not_and, not_exists, Int.not_le]

end AsksByRank

/-! ## What is preferred -/

section Choice

variable {choice : Disambiguation}

theorem scores_eq_map_rank? (hscore : choice.score = rule.rank?) (l : List Variant) :
    choice.scores (l.map fun v => v.attributes.get? t) = l.map (Variant.rank? rule t) := by
  rw [Disambiguation.scores, List.map_map, hscore]
  rfl

theorem isBestOn_iff (hscore : choice.score = rule.rank?) (hv : v ∈ l) :
    isBestOn choice l t v = true ↔
      ∃ k, v.rank? rule t = some k ∧ ∀ w ∈ l, ∀ j, w.rank? rule t = some j → j ≤ k := by
  rw [isBestOn, Disambiguation.isBest_iff (List.mem_map_of_mem hv), scores_eq_map_rank? hscore,
    hscore]
  simp only [List.mem_map, forall_exists_index, and_imp]
  exact exists_congr fun k => and_congr_right fun _ =>
    ⟨fun hmax w hw j hj => hmax j w hw hj, fun hmax j w hw hj => hmax w hw j hj⟩

/-- Of some ranked variants one has the greatest rank. -/
theorem exists_greatest_rank (hscore : choice.score = rule.rank?) (hv : v ∈ l)
    (hk : v.rank? rule t = some k) :
    ∃ w ∈ l, ∃ j, w.rank? rule t = some j ∧ ∀ u ∈ l, ∀ i, u.rank? rule t = some i → i ≤ j := by
  have hscores := scores_eq_map_rank? (t := t) hscore l
  have hmem : some k ∈ choice.scores (l.map fun v => v.attributes.get? t) := by
    rw [hscores]
    exact List.mem_map.2 ⟨v, hv, hk⟩
  obtain ⟨j, hj, -⟩ := Disambiguation.covers_best? hmem
  have hbest := Disambiguation.mem_scores_of_best? hj
  obtain ⟨w, hw, hwj⟩ := List.mem_map.1 (hscores ▸ hbest)
  refine ⟨w, hw, j, hwj, fun u hu i hi => ?_⟩
  refine (Disambiguation.best?_eq_some_iff hbest).1 hj i ?_
  rw [hscores]
  exact List.mem_map.2 ⟨u, hu, hi⟩

end Choice

/-! ## The greatest value is chosen -/

namespace AsksByRank

theorem exists_greatest (h : AsksByRank schema module r t rule bound)
    (hsome : accepted schema module r ≠ []) :
    ∃ v : Variant, v.GreatestNotAbove rule t bound module.variants := by
  obtain ⟨choice, -, hscore⟩ := h.orders.exists_score_eq
  obtain ⟨v, hv⟩ := List.exists_mem_of_ne_nil _ hsome
  obtain ⟨-, k, hk, -⟩ := h.mem_accepted_iff.1 hv
  obtain ⟨w, hw, j, hj, hmax⟩ := exists_greatest_rank hscore hv hk
  have hmem : w ∈ module.variants := (h.mem_accepted_iff.1 hw).1
  exact ⟨w, hmem, j, hj, h.rank_le_of_mem_accepted hw hj, fun u hu i hi hle =>
    hmax u (h.mem_accepted_iff.2 ⟨hu, i, hi, hle⟩) i hi⟩

theorem mem_accepted_of_greatest (h : AsksByRank schema module r t rule bound)
    (hv : v.GreatestNotAbove rule t bound module.variants) : v ∈ accepted schema module r := by
  obtain ⟨k, hk, hle, -⟩ := hv.greatest
  exact h.mem_accepted_iff.2 ⟨hv.mem, k, hk, hle⟩

/-- Narrowing the accepted variants on the ordered attribute leaves the greatest value. -/
theorem narrowRequested_eq (h : AsksByRank schema module r t rule bound) (c : Value)
    (hv : v.GreatestNotAbove rule t bound module.variants) :
    narrowRequested schema (accepted schema module r) (t, c) = [v] := by
  obtain ⟨choice, hchoice, hscore⟩ := h.orders.exists_score_eq
  have hmem := h.mem_accepted_of_greatest hv
  obtain ⟨k, hk, -, hmax⟩ := hv.greatest
  -- among the accepted variants only one has the greatest rank, as no two have the same
  have hbest : ∀ w ∈ accepted schema module r,
      isBestOn choice (accepted schema module r) t w = (w == v) := by
    intro w hw
    rw [Bool.eq_iff_iff, isBestOn_iff hscore hw, beq_iff_eq]
    constructor
    · rintro ⟨j, hj, hgreatest⟩
      have hpublished : w ∈ module.variants := (h.mem_accepted_iff.1 hw).1
      have hjk : j = k := Int.le_antisymm
        (hmax w hpublished j hj (h.rank_le_of_mem_accepted hw hj)) (hgreatest v hmem k hk)
      exact h.differ.eq_of_rank? hpublished hv.mem hj (hjk ▸ hk)
    · rintro rfl
      exact ⟨k, hk, fun u hu i hi =>
        hmax u (h.mem_accepted_iff.1 hu).1 i hi (h.rank_le_of_mem_accepted hu hi)⟩
  have hnodup : (accepted schema module r).Nodup := h.differ.nodup.filter _
  rw [narrowRequested_eq_prefer, requestedPreference, hchoice, prefer]
  dsimp only
  rw [if_pos (List.any_eq_true.2 ⟨v, hmem, by rw [hbest v hmem, beq_self_eq_true]⟩),
    List.filter_congr hbest, List.filter_beq, List.count_eq_one_of_mem hnodup hmem]
  rfl

/-- The other requested attributes leave all accepted variants, and one that is left alone stays. -/
theorem finalists_eq_singleton_of_greatest (h : AsksByRank schema module r t rule bound)
    (hv : v.GreatestNotAbove rule t bound module.variants) :
    finalists schema module r = [v] := by
  obtain ⟨c, hc, -⟩ := h.wanted
  obtain ⟨before, after, hsteps⟩ := List.append_of_mem (Table.mem_toList_iff.2 hc)
  have hkeys : r.attributes.keys = before.map (·.1) ++ t :: after.map (·.1) := by
    rw [Table.keys, show r.attributes.entries = before ++ (t, c) :: after from hsteps,
      List.map_append, List.map_cons]
  -- no candidate carries an attribute that comes before `t` in name order
  have hbefore : ∀ e ∈ before, ∀ w ∈ accepted schema module r, w.attributes.get? e.1 = none := by
    intro e he w hw
    have hname : e.1 ∈ before.map (·.1) := List.mem_map_of_mem he
    have hne : e.1 ≠ t := by
      have hdisjoint := (List.nodup_append.1 (hkeys ▸ Table.nodup_keys r.attributes)).2.2
      exact hdisjoint e.1 hname t List.mem_cons_self
    exact h.differ.others w (h.mem_accepted_iff.1 hw).1 e.1
      (hkeys ▸ List.mem_append_left _ hname) hne
  have hrequested : r.attributes.toList.foldl (narrowRequested schema) (accepted schema module r)
      = after.foldl (narrowRequested schema) [v] := by
    rw [hsteps, List.foldl_append, foldl_narrowRequested_of_absent hbefore, List.foldl_cons,
      h.narrowRequested_eq c hv]
  rw [finalists, disambiguate, hrequested]
  exact Narrows.eq_singleton ((narrows_foldl (narrows_narrowRequested schema) after [v]).trans
    (narrows_foldl (narrows_narrowExtra schema) _ _))

end AsksByRank

/-- A request for a value of an ordered attribute, in which alone the variants differ, selects the
variant with the greatest value that is not above the one asked for. It fails for want of a
matching variant exactly if all values are above, and in no other way. -/
theorem select_greatest_not_above (h : AsksByRank schema module r t rule bound)
    (hpublished : module.variants ≠ []) :
    (∀ v, select schema module r = .ok (.variant v) ↔
      v.GreatestNotAbove rule t bound module.variants) ∧
    ((∃ eliminated, select schema module r = .error (.noMatch module.id [r] eliminated)) ↔
      ∀ v ∈ module.variants, ∀ k, v.rank? rule t = some k → bound < k) ∧
    ((∃ v, select schema module r = .ok (.variant v)) ∨
      ∃ eliminated, select schema module r = .error (.noMatch module.id [r] eliminated)) := by
  rw [← h.accepted_eq_nil_iff]
  by_cases hnil : accepted schema module r = []
  · have hselect := select_of_answers (.unaccepted h.targetVariant hpublished hnil)
    refine ⟨fun v => ?_, ⟨fun _ => hnil, fun _ => ⟨_, hselect⟩⟩, .inr ⟨_, hselect⟩⟩
    rw [hselect]
    constructor
    · intro hfalse
      cases hfalse
    · exact fun hv => absurd (h.mem_accepted_of_greatest hv) (by simp [hnil])
  · obtain ⟨w, hw⟩ := h.exists_greatest hnil
    have hselect := select_of_answers
      (.single h.targetVariant (h.finalists_eq_singleton_of_greatest hw))
    refine ⟨fun v => ⟨fun hv => ?_, fun hv => ?_⟩, ⟨?_, fun hfalse => absurd hfalse hnil⟩,
      .inl ⟨w, hselect⟩⟩
    · rw [hselect] at hv
      cases hv
      exact hw
    · exact select_of_answers
        (.single h.targetVariant (h.finalists_eq_singleton_of_greatest hv))
    · rintro ⟨eliminated, hfail⟩
      rw [hselect] at hfail
      cases hfail

/-- Variants that need different versions of the platform. -/
def releases : List Variant :=
  [platformVariant "jdk21" 21, platformVariant "jdk8" 8, platformVariant "jdk11" 11]

def releaseModule (variants : List Variant) : ModuleData where
  id := ⟨"org", "lib", "1.0"⟩
  variants := variants

theorem asksByRank_releaseModule {variants : List Variant} (hsub : variants.Sublist releases)
    (version : Int64) :
    AsksByRank .standard (releaseModule variants) (platformRequest version)
      "org.gradle.jvm.version" .atMost version.toInt where
  orders := .integers (by decide +kernel)
  targetVariant := rfl
  capabilities := rfl
  wanted := ⟨.integer version, by simp [platformRequest, Table.ofList, Table.insertMany], rfl⟩
  differ :=
    { capabilities := by
        have hnone : ∀ v ∈ releases, v.capabilities = [] := by decide +kernel
        exact fun v hv => hnone v (hsub.subset hv)
      ranked := by
        have hranked : ∀ v ∈ releases,
            (v.rank? .atMost "org.gradle.jvm.version").isSome = true := by decide +kernel
        exact fun v hv => Option.isSome_iff_exists.1 (hranked v (hsub.subset hv))
      others := fun _ _ name hname hne => absurd (List.mem_singleton.1 hname) hne
      distinct := by
        have hdistinct : releases.Pairwise fun v w =>
            ∀ p ∈ v.attributes.get? "org.gradle.jvm.version",
              ∀ q ∈ w.attributes.get? "org.gradle.jvm.version", p.same q = false := by
          decide +kernel
        exact hdistinct.sublist hsub }

/-- Version 17 selects the variant for version 11, and version 7 none. -/
theorem select_greatest_not_above_platform :
    releases ≠ [] ∧
      AsksByRank .standard (releaseModule releases) (platformRequest 17) "org.gradle.jvm.version"
        .atMost 17 ∧
      AsksByRank .standard (releaseModule releases) (platformRequest 7) "org.gradle.jvm.version"
        .atMost 7 ∧
      select .standard (releaseModule releases) (platformRequest 17)
        = .ok (.variant (platformVariant "jdk11" 11)) ∧
      ∃ eliminated, select .standard (releaseModule releases) (platformRequest 7)
        = .error (.noMatch ⟨"org", "lib", "1.0"⟩ [platformRequest 7] eliminated) := by
  have hpublished : releases ≠ [] := List.cons_ne_nil _ _
  have h17 := asksByRank_releaseModule (List.Sublist.refl releases) 17
  have h7 := asksByRank_releaseModule (List.Sublist.refl releases) 7
  have hmax : ∀ v ∈ releases, ∀ k ∈ v.rank? .atMost "org.gradle.jvm.version",
      k ≤ Int64.toInt 17 → k ≤ 11 := by decide +kernel
  have hgreatest : (platformVariant "jdk11" 11).GreatestNotAbove .atMost "org.gradle.jvm.version"
      (Int64.toInt 17) releases :=
    ⟨by decide +kernel, 11, by decide +kernel, by decide +kernel, hmax⟩
  have habove : ∀ v ∈ releases, ∀ k ∈ v.rank? .atMost "org.gradle.jvm.version",
      Int64.toInt 7 < k := by decide +kernel
  exact ⟨hpublished, h17, h7, ((select_greatest_not_above h17 hpublished).1 _).2 hgreatest,
    (select_greatest_not_above h7 hpublished).2.1.2 habove⟩

/-- A module without variants does not fail for want of one, although no value is below the one
asked for: its files are used. -/
theorem select_unpublished_platform :
    AsksByRank .standard (releaseModule []) (platformRequest 17) "org.gradle.jvm.version" .atMost
        17 ∧
      select .standard (releaseModule []) (platformRequest 17) = .ok (.artifacts []) ∧
      ¬ ((∃ eliminated, select .standard (releaseModule []) (platformRequest 17)
            = .error (.noMatch ⟨"org", "lib", "1.0"⟩ [platformRequest 17] eliminated)) ↔
          ∀ v ∈ (releaseModule []).variants, ∀ k,
            v.rank? .atMost "org.gradle.jvm.version" = some k → 17 < k) := by
  have hselect : select .standard (releaseModule []) (platformRequest 17) = .ok (.artifacts []) :=
    select_of_answers (.unpublished rfl rfl)
  refine ⟨asksByRank_releaseModule (List.nil_sublist releases) 17, hselect, fun hfalse => ?_⟩
  obtain ⟨eliminated, hfail⟩ := hfalse.2 fun v hv => absurd hv List.not_mem_nil
  rw [hselect] at hfail
  cases hfail

end Selection

end VariantGraph
