import VariantGraph.Proofs.Attribute
import VariantGraph.Proofs.Schema

/-!
# Rules do not see representations

A rule looks at a value through its integer or its place in an order, and these are those of every
value that is the same. So a rule accepts and prefers the same values however they are represented.

Main statements: `Compatibility.accepts_congr` and `Disambiguation.preferred_congr` say so for the
two kinds of rules, `Compatibility.accepts_trans` that what is accepted for an accepted value is
accepted itself.
-/

namespace VariantGraph

variable {a a' b b' c : Value}

theorem positionIn_congr (order : List Value) (h : a.same b = true) :
    positionIn order a = positionIn order b := by
  have hplace : (fun w : Value => w.same a) = fun w => w.same b :=
    funext fun w => Value.same_congr w.same_refl h
  rw [positionIn, positionIn, hplace]

namespace Compatibility

theorem rank?_congr (rule : Compatibility) (h : a.same b = true) : rule.rank? a = rule.rank? b := by
  cases rule with
  | equality => rfl
  | atMost => rw [rank?, rank?, Value.asInteger?_congr h]
  | ordered order => rw [rank?, rank?, positionIn_congr order h]

/-- Values of one rank are the same. -/
theorem same_of_rank? {rule : Compatibility} {k : Int} (ha : rule.rank? a = some k)
    (hb : rule.rank? b = some k) : a.same b = true := by
  cases rule with
  | equality => cases ha
  | atMost =>
    obtain ⟨i, hi, rfl⟩ := Option.map_eq_some_iff.1 ha
    obtain ⟨j, hj, hij⟩ := Option.map_eq_some_iff.1 hb
    exact Value.same_of_asInteger? hi (Int64.toInt_inj.1 hij ▸ hj)
  | ordered order =>
    obtain ⟨i, hi, rfl⟩ := Option.map_eq_some_iff.1 ha
    obtain ⟨j, hj, hij⟩ := Option.map_eq_some_iff.1 hb
    obtain rfl : j = i := Int.ofNat.inj hij
    -- both are the same as the value at their place
    obtain ⟨hlt, hplace, -⟩ := List.findIdx?_eq_some_iff_getElem.1 hi
    obtain ⟨_, hplace', -⟩ := List.findIdx?_eq_some_iff_getElem.1 hj
    exact Value.same_trans ((Value.same_symm _ _).trans hplace) hplace'

theorem accepts_congr (rule : Compatibility) (ha : a.same a' = true) (hb : b.same b' = true) :
    rule.accepts a b = rule.accepts a' b' := by
  rw [Bool.eq_iff_iff, accepts_iff, accepts_iff, Value.same_congr ha hb, rule.rank?_congr ha,
    rule.rank?_congr hb]

/-- What is accepted for an accepted value is accepted itself. -/
theorem accepts_trans (rule : Compatibility) (hab : rule.accepts a b = true)
    (hbc : rule.accepts b c = true) : rule.accepts a c = true := by
  rcases accepts_iff.1 hab with hsame | ⟨i, j, hi, hj, hji⟩
  · rwa [rule.accepts_congr hsame c.same_refl]
  rcases accepts_iff.1 hbc with hsame | ⟨j', k, hj', hk, hkj⟩
  · rwa [← rule.accepts_congr a.same_refl hsame]
  obtain rfl : j = j' := Option.some.inj (hj.symm.trans hj')
  exact accepts_iff.2 (.inr ⟨i, k, hi, hk, Int.le_trans hkj hji⟩)

end Compatibility

namespace Disambiguation

variable {values values' : List (Option Value)}

theorem score_congr (rule : Disambiguation) (h : a.same b = true) :
    rule.score a = rule.score b := by
  cases rule with
  | highest => rw [score, score, Value.asInteger?_congr h]
  | lowest => rw [score, score, Value.asInteger?_congr h]
  | prefer wanted => rw [score, score, Value.same_congr h wanted.same_refl]
  | ordered order => rw [score, score, positionIn_congr order h]

theorem bind_score_congr (rule : Disambiguation) {v w : Option Value}
    (h : Option.Rel (fun v w : Value => v.same w = true) v w) :
    v.bind rule.score = w.bind rule.score := by
  cases h with
  | none => rfl
  | some hsame => exact rule.score_congr hsame

theorem scores_congr (rule : Disambiguation)
    (h : List.Forall₂ (Option.Rel fun v w : Value => v.same w = true) values values') :
    rule.scores values = rule.scores values' := by
  induction h with
  | nil => rfl
  | cons hvw _ ih =>
    rw [scores, scores, List.map_cons, List.map_cons, rule.bind_score_congr hvw]
    exact congrArg _ ih

theorem isBest_congr (rule : Disambiguation) {v w : Option Value}
    (h : List.Forall₂ (Option.Rel fun v w : Value => v.same w = true) values values')
    (hvw : Option.Rel (fun v w : Value => v.same w = true) v w) :
    rule.isBest values v = rule.isBest values' w := by
  rw [isBest, isBest, best?, best?, rule.scores_congr h, rule.bind_score_congr hvw]

/-- A rule prefers the same places when values are replaced by ones that are the same. -/
theorem preferred_congr (rule : Disambiguation)
    (h : List.Forall₂ (Option.Rel fun v w : Value => v.same w = true) values values') :
    rule.preferred values = rule.preferred values' := by
  have hscores : (values.map fun v => v.bind rule.score) = values'.map fun v => v.bind rule.score :=
    rule.scores_congr h
  rw [preferred, preferred, hscores]

end Disambiguation

end VariantGraph
