import Mathlib.Data.List.Pairwise
import Mathlib.Data.List.Perm.Basic
import VariantGraph.Schema

/-!
# Accepted and preferred values

A compatibility rule ranks values and accepts those that do not rank above the one asked for. A
disambiguation rule gives the candidate values scores and prefers the places with the best of them.
The rule for the highest integer prefers exactly the places of the greatest one. The rule for the
lowest compares negations, and the least integer of all has none: it is passed over, as if it were
no integer.

Main statements: `Compatibility.accepts_iff` says what a rule accepts,
`Disambiguation.bestPlaces_preferred` which places are preferred, and
`Disambiguation.preferred_extremes` what this means for the highest and the lowest integer.
-/

namespace VariantGraph

/-! ## Places in a list -/

theorem mem_filterMap_zipIdx_iff {α : Type} (keep : α → Bool) {l : List α} {i : Nat} :
    i ∈ l.zipIdx.filterMap (fun e => if keep e.1 then some e.2 else none) ↔
      ∃ a, l[i]? = some a ∧ keep a = true := by
  simp only [List.mem_filterMap, Option.ite_none_right_eq_some, Option.some.injEq, Prod.exists,
    List.mem_zipIdx_iff_getElem?]
  constructor
  · rintro ⟨a, j, ha, hkeep, rfl⟩
    exact ⟨a, ha, hkeep⟩
  · exact fun ⟨a, ha, hkeep⟩ => ⟨a, i, ha, hkeep, rfl⟩

theorem pairwise_filterMap_zipIdx {α : Type} (keep : α → Bool) (l : List α) :
    (l.zipIdx.filterMap fun e => if keep e.1 then some e.2 else none).Pairwise (· < ·) := by
  have hplaces : l.zipIdx.Pairwise fun d e => d.2 < e.2 := by
    rw [← List.pairwise_map, List.zipIdx_map_snd]
    exact List.pairwise_lt_range'
  refine hplaces.filterMap _ fun d e hlt i hi j hj => ?_
  rw [Option.ite_none_right_eq_some, Option.some.injEq] at hi hj
  exact hi.2 ▸ hj.2 ▸ hlt

/-- The places of the best values of a list: in ascending order, those with a value that no other
exceeds. There are none exactly if there are no values. -/
structure BestPlaces {α : Type} (le : α → α → Prop) (values : List (Option α))
    (places : List Nat) : Prop where
  ascending : places.Pairwise (· < ·)
  mem_iff : ∀ i, i ∈ places ↔
    ∃ x, values[i]? = some (some x) ∧ ∀ y, some y ∈ values → le y x
  eq_nil_iff : places = [] ↔ ∀ x, some x ∉ values

/-- The places are the same when values are replaced by ones that compare alike. -/
theorem BestPlaces.of_map {α β : Type} {le : α → α → Prop} {le' : β → β → Prop} {f : α → β}
    {values : List (Option α)} {places : List Nat}
    (h : BestPlaces le' (values.map (Option.map f)) places)
    (hf : ∀ x y, le' (f x) (f y) ↔ le x y) : BestPlaces le values places := by
  have hmem : ∀ z, some z ∈ values.map (Option.map f) ↔ ∃ x, some x ∈ values ∧ f x = z := by
    intro z
    simp only [List.mem_map, Option.map_eq_some_iff]
    exact ⟨fun ⟨_, ho, x, hx, hz⟩ => ⟨x, hx ▸ ho, hz⟩, fun ⟨x, hx, hz⟩ => ⟨_, hx, x, rfl, hz⟩⟩
  refine ⟨h.ascending, fun i => ?_, ?_⟩
  · rw [h.mem_iff]
    simp only [List.getElem?_map, Option.map_eq_some_iff, hmem]
    constructor
    · rintro ⟨_, ⟨_, hi, x, rfl, rfl⟩, hle⟩
      exact ⟨x, hi, fun y hy => (hf y x).1 (hle _ ⟨y, hy, rfl⟩)⟩
    · rintro ⟨x, hi, hle⟩
      refine ⟨f x, ⟨_, hi, x, rfl, rfl⟩, ?_⟩
      rintro _ ⟨y, hy, rfl⟩
      exact (hf y x).2 (hle y hy)
  · rw [h.eq_nil_iff]
    simp only [hmem]
    exact ⟨fun hnone x hx => hnone _ ⟨x, hx, rfl⟩, fun hnone _ ⟨x, hx, _⟩ => hnone x hx⟩

/-! ## The order of a compatibility rule -/

namespace Compatibility

/-- The rank of a value in the order that a rule compares by, if the rule has one and the value is
in it. -/
def rank? (rule : Compatibility) (v : Value) : Option Int :=
  match rule with
  | equality => none
  | atMost => v.asInteger?.map Int64.toInt
  | ordered order => (positionIn order v).map Int.ofNat

/-- Besides the same value, a rule accepts those that do not rank above the one asked for. -/
theorem accepts_iff {rule : Compatibility} {consumer producer : Value} :
    rule.accepts consumer producer = true ↔ consumer.same producer = true ∨
      ∃ c p, rule.rank? consumer = some c ∧ rule.rank? producer = some p ∧ p ≤ c := by
  rw [accepts.eq_def, Bool.or_eq_true]
  refine or_congr_right ?_
  cases rule with
  | equality => simp [rank?]
  | atMost => cases hc : consumer.asInteger? <;> cases hp : producer.asInteger? <;> simp [rank?, *]
  | ordered order =>
    cases hc : positionIn order consumer <;> cases hp : positionIn order producer <;>
      simp [rank?, *]

end Compatibility

namespace Disambiguation

variable {values values' : List (Option Value)} {l : List (Option Int)} {best : Option Int}

/-! ## The best score -/

instance : RightCommutative betterScore where
  right_comm best s t := by
    cases best <;> cases s <;> cases t <;> simp only [betterScore, Option.some.injEq] <;> omega

/-- The best score reaches some score. -/
def Covers (best : Option Int) (x : Int) : Prop := ∃ b, best = some b ∧ x ≤ b

theorem Covers.betterScore_left {x : Int} (h : Covers best x) (s : Option Int) :
    Covers (betterScore best s) x := by
  obtain ⟨b, rfl, hx⟩ := h
  cases s with
  | none => exact ⟨b, rfl, hx⟩
  | some y => exact ⟨max b y, rfl, Int.le_trans hx (Int.le_max_left b y)⟩

theorem covers_betterScore_right (best : Option Int) (x : Int) :
    Covers (betterScore best (some x)) x := by
  cases best with
  | none => exact ⟨x, rfl, Int.le_refl x⟩
  | some b => exact ⟨max b x, rfl, Int.le_max_right b x⟩

theorem covers_foldl {x : Int} (h : Covers best x ∨ some x ∈ l) :
    Covers (l.foldl betterScore best) x := by
  induction l generalizing best with
  | nil => simpa using h
  | cons s rest ih =>
    refine ih ?_
    rcases h with h | h
    · exact .inl (h.betterScore_left s)
    · rcases List.mem_cons.1 h with rfl | h
      · exact .inl (covers_betterScore_right best x)
      · exact .inr h

theorem betterScore_choice (best s : Option Int) :
    betterScore best s = best ∨ betterScore best s = s := by
  cases best with
  | none => exact .inr rfl
  | some b =>
    cases s with
    | none => exact .inl rfl
    | some x =>
      have hmax : max b x = b ∨ max b x = x := by omega
      exact hmax.imp (congrArg some) (congrArg some)

theorem foldl_mem (l : List (Option Int)) (best : Option Int) :
    l.foldl betterScore best ∈ best :: l := by
  induction l generalizing best with
  | nil => exact List.mem_cons_self
  | cons s rest ih =>
    rcases List.mem_cons.1 (ih (betterScore best s)) with h | h
    · rw [List.foldl_cons, h]
      rcases betterScore_choice best s with hs | hs <;> simp [hs]
    · exact List.mem_cons_of_mem best (List.mem_cons_of_mem s h)

/-- The scores of some values. -/
def scores (rule : Disambiguation) (values : List (Option Value)) : List (Option Int) :=
  values.map fun v => v.bind rule.score

/-- The best score among some values, if any of them has one. -/
def best? (rule : Disambiguation) (values : List (Option Value)) : Option Int :=
  (rule.scores values).foldl betterScore none

/-- The best score does not depend on the order of the values. -/
theorem best?_of_perm (rule : Disambiguation) (h : values.Perm values') :
    rule.best? values = rule.best? values' :=
  (h.map _).foldl_eq none

theorem covers_best? {rule : Disambiguation} {x : Int} (h : some x ∈ rule.scores values) :
    Covers (rule.best? values) x :=
  covers_foldl (.inr h)

theorem mem_scores_of_best? {rule : Disambiguation} {b : Int} (h : rule.best? values = some b) :
    some b ∈ rule.scores values := by
  have hmem : rule.best? values ∈ none :: rule.scores values := foldl_mem _ none
  rw [h] at hmem
  exact List.mem_of_ne_of_mem (by simp) hmem

/-- The best score is the greatest. -/
theorem best?_eq_some_iff {rule : Disambiguation} {b : Int} (hb : some b ∈ rule.scores values) :
    rule.best? values = some b ↔ ∀ x, some x ∈ rule.scores values → x ≤ b := by
  obtain ⟨c, hc, hbc⟩ := covers_best? hb
  constructor
  · intro hbest x hx
    obtain ⟨d, hd, hxd⟩ := covers_best? hx
    exact Option.some.inj (hbest.symm.trans hd) ▸ hxd
  · intro hmax
    rw [hc, Int.le_antisymm (hmax c (mem_scores_of_best? hc)) hbc]

/-! ## The preferred places -/

/-- Whether a value is a choice and none of the others is a better one. -/
def isBest (rule : Disambiguation) (values : List (Option Value)) (v : Option Value) : Bool :=
  (v.bind rule.score).isSome && v.bind rule.score == rule.best? values

theorem preferred_eq_filterMap (rule : Disambiguation) (values : List (Option Value)) :
    rule.preferred values =
      values.zipIdx.filterMap fun e => if rule.isBest values e.1 then some e.2 else none := by
  unfold preferred isBest best? scores
  dsimp only
  split
  · next hnone =>
    -- without a best score no value has one that equals it
    refine (List.filterMap_eq_nil_iff.2 fun e _ => ?_).symm
    rw [hnone]
    cases e.1.bind rule.score <;> rfl
  · next best hbest =>
    rw [List.zipIdx_map, List.filterMap_map]
    refine List.filterMap_congr fun e _ => ?_
    rw [hbest]
    cases hscore : e.1.bind rule.score <;> simp [Prod.map, hscore]

theorem isBest_iff {rule : Disambiguation} {v : Option Value} (hv : v ∈ values) :
    rule.isBest values v = true ↔
      ∃ x, v.bind rule.score = some x ∧ ∀ y, some y ∈ rule.scores values → y ≤ x := by
  have hmem : v.bind rule.score ∈ rule.scores values := List.mem_map_of_mem hv
  unfold isBest
  cases hscore : v.bind rule.score with
  | none => simp
  | some x =>
    rw [hscore] at hmem
    simp [eq_comm (a := some x), best?_eq_some_iff hmem]

theorem mem_preferred_iff {rule : Disambiguation} {i : Nat} :
    i ∈ rule.preferred values ↔
      ∃ x, (rule.scores values)[i]? = some (some x) ∧
        ∀ y, some y ∈ rule.scores values → y ≤ x := by
  rw [preferred_eq_filterMap, mem_filterMap_zipIdx_iff, scores, List.getElem?_map]
  constructor
  · rintro ⟨v, hv, hbest⟩
    obtain ⟨x, hx, hmax⟩ := (isBest_iff (List.mem_of_getElem? hv)).1 hbest
    exact ⟨x, by rw [hv, Option.map_some, hx], hmax⟩
  · rintro ⟨x, hx, hmax⟩
    obtain ⟨v, hv, hscore⟩ := Option.map_eq_some_iff.1 hx
    exact ⟨v, hv, (isBest_iff (List.mem_of_getElem? hv)).2 ⟨x, hscore, hmax⟩⟩

theorem preferred_eq_nil_iff {rule : Disambiguation} :
    rule.preferred values = [] ↔ ∀ x, some x ∉ rule.scores values := by
  rw [List.eq_nil_iff_forall_not_mem]
  constructor
  · intro hempty x hx
    obtain ⟨b, hb, -⟩ := covers_best? hx
    have hmem := mem_scores_of_best? hb
    obtain ⟨i, hi⟩ := List.mem_iff_getElem?.1 hmem
    exact hempty i (mem_preferred_iff.2 ⟨b, hi, (best?_eq_some_iff hmem).1 hb⟩)
  · intro hempty i hi
    obtain ⟨x, hx, -⟩ := mem_preferred_iff.1 hi
    exact hempty x (List.mem_of_getElem? hx)

/-- A rule prefers the places of the greatest scores. -/
theorem bestPlaces_preferred (rule : Disambiguation) (values : List (Option Value)) :
    BestPlaces (· ≤ ·) (rule.scores values) (rule.preferred values) where
  ascending := by
    rw [preferred_eq_filterMap]
    exact pairwise_filterMap_zipIdx _ values
  mem_iff _ := mem_preferred_iff
  eq_nil_iff := preferred_eq_nil_iff

/-! ## The highest and the lowest integer -/

/-- The integers that some values are. -/
def integers (values : List (Option Value)) : List (Option Int64) :=
  values.map fun v => v.bind Value.asInteger?

/-- The integers that have a negation. -/
def negatable (ints : List (Option Int64)) : List (Option Int64) :=
  ints.map fun i => i.filter fun k => k ≠ Int64.minValue

theorem scores_highest (values : List (Option Value)) :
    highest.scores values = (integers values).map (Option.map Int64.toInt) := by
  rw [scores, integers, List.map_map]
  refine List.map_congr_left fun v _ => ?_
  cases v <;> rfl

theorem scores_lowest (values : List (Option Value)) :
    lowest.scores values
      = (negatable (integers values)).map (Option.map fun k => -k.toInt) := by
  rw [scores, integers, negatable, List.map_map, List.map_map]
  refine List.map_congr_left fun v _ => ?_
  cases v with
  | none => rfl
  | some v =>
    simp only [Option.bind_some, score, Function.comp_apply]
    cases v.asInteger? with
    | none => rfl
    | some k => by_cases hk : k = Int64.minValue <;> simp [Option.filter, hk]

theorem negatable_eq_self {ints : List (Option Int64)} (h : some Int64.minValue ∉ ints) :
    negatable ints = ints := by
  unfold negatable
  refine (List.map_congr_left fun i hi => ?_).trans (List.map_id ints)
  cases i with
  | none => rfl
  | some k =>
    have hk : k ≠ Int64.minValue := fun heq => h (heq ▸ hi)
    simp [hk]

/-- The highest rule prefers exactly the places of the greatest integer. -/
theorem bestPlaces_highest (values : List (Option Value)) :
    BestPlaces (· ≤ ·) (integers values) (highest.preferred values) := by
  have h := bestPlaces_preferred highest values
  rw [scores_highest] at h
  exact h.of_map fun _ _ => Int64.le_iff_toInt_le.symm

/-- The lowest rule prefers exactly the places of the least integer that has a negation. -/
theorem bestPlaces_lowest (values : List (Option Value)) :
    BestPlaces (· ≥ ·) (negatable (integers values)) (lowest.preferred values) := by
  have h := bestPlaces_preferred lowest values
  rw [scores_lowest] at h
  refine h.of_map fun x y => ?_
  rw [ge_iff_le, Int64.le_iff_toInt_le]
  omega

/-- The place of the least integer of all is not preferred by the lowest rule. -/
theorem not_mem_preferred_lowest {i : Nat}
    (hi : (integers values)[i]? = some (some Int64.minValue)) :
    i ∉ lowest.preferred values := by
  intro hmem
  obtain ⟨k, hk, -⟩ := ((bestPlaces_lowest values).mem_iff i).1 hmem
  rw [negatable, List.getElem?_map, hi] at hk
  simp [Option.filter] at hk

/-- Over the whole range of the integers the highest rule prefers exactly the places of the greatest
one. The lowest rule prefers those of the least integer that has a negation, which is to say that
it is exact only where the least integer of all does not occur. -/
theorem preferred_extremes (values : List (Option Value)) :
    BestPlaces (· ≤ ·) (integers values) (highest.preferred values) ∧
    BestPlaces (· ≥ ·) (negatable (integers values)) (lowest.preferred values) ∧
    (BestPlaces (· ≥ ·) (integers values) (lowest.preferred values) ↔
      some Int64.minValue ∉ integers values) := by
  refine ⟨bestPlaces_highest values, bestPlaces_lowest values, fun hexact hmin => ?_,
    fun hmin => ?_⟩
  · obtain ⟨i, hi⟩ := List.mem_iff_getElem?.1 hmin
    have hleast : ∀ k, some k ∈ integers values → k ≥ Int64.minValue := fun k _ =>
      Int64.minValue_le k
    exact not_mem_preferred_lowest hi ((hexact.mem_iff i).2 ⟨Int64.minValue, hi, hleast⟩)
  · have h := bestPlaces_lowest values
    rwa [negatable_eq_self hmin] at h

example : lowest.preferred
    [some (.integer Int64.minValue), none, some (.integer 0), some (.string "+00")] = [2, 3] := by
  decide +kernel

end Disambiguation

end VariantGraph
