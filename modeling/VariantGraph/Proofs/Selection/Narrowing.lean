import VariantGraph.Proofs.Schema
import VariantGraph.Proofs.Table
import VariantGraph.Selection

/-!
# Narrowing by preference

The selection works with the places of the candidates in a list that becomes shorter step by step.
Each step amounts to a preference: of the candidates those with some property are kept if there are
any, and all of them otherwise. So no step leaves out every candidate, none brings one back, and
what is left does not depend on the order of the candidates.

Main statements: `Selection.narrowRequested_eq_prefer` and `Selection.narrowExtra_eq_prefer` say
what is preferred in a step, `Selection.narrows_disambiguate` and `Selection.perm_disambiguate` what
holds after all of them.
-/

namespace VariantGraph

namespace Selection

variable {candidates candidates' : List Variant} {keep : Variant → Bool}

/-! ## Preferences -/

/-- Keeps the candidates with a property if there are any, and all candidates otherwise. -/
def prefer (keep : Variant → Bool) (candidates : List Variant) : List Variant :=
  if candidates.any keep then candidates.filter keep else candidates

/-- Narrowing to the places of the candidates with a property is preferring it. -/
theorem narrow_filterMap_zipIdx (keep : Variant → Bool) (candidates : List Variant) :
    narrow candidates (candidates.zipIdx.filterMap fun e => if keep e.1 then some e.2 else none)
      = prefer keep candidates := by
  unfold narrow prefer
  cases hany : candidates.any keep with
  | false =>
    have hnil : candidates.zipIdx.filterMap
        (fun e => if keep e.1 then some e.2 else none) = [] := by
      refine List.filterMap_eq_nil_iff.2 fun e he => ?_
      simp [List.any_eq_false.1 hany e.1 (List.fst_mem_of_mem_zipIdx he)]
    simp [hnil]
  | true =>
    obtain ⟨v, hv, hkeep⟩ := List.any_eq_true.1 hany
    obtain ⟨i, hi⟩ := List.mem_iff_getElem?.1 hv
    have hplace := (mem_filterMap_zipIdx_iff keep).2 ⟨v, hi, hkeep⟩
    rw [List.isEmpty_eq_false_iff.2 (List.ne_nil_of_mem hplace), if_neg (by decide), if_pos rfl]
    calc candidates.zipIdx.filterMap (fun e =>
          if (candidates.zipIdx.filterMap fun e => if keep e.1 then some e.2 else none).contains e.2
          then some e.1 else none)
      _ = candidates.zipIdx.filterMap (Option.guard keep ∘ Prod.fst) := by
        refine List.filterMap_congr fun e he => ?_
        have hplace : e.2 ∈ (candidates.zipIdx.filterMap fun e =>
            if keep e.1 then some e.2 else none) ↔ keep e.1 = true := by
          rw [mem_filterMap_zipIdx_iff, List.mem_zipIdx_iff_getElem?.1 he]
          simp
        simp only [List.contains_iff_mem, hplace]
        rfl
      _ = (candidates.zipIdx.map Prod.fst).filterMap (Option.guard keep) := List.filterMap_map.symm
      _ = candidates.filter keep := by rw [List.zipIdx_map_fst, List.filterMap_eq_filter]

theorem prefer_false (candidates : List Variant) :
    prefer (fun _ => false) candidates = candidates := by
  simp [prefer]

theorem prefer_of_length_le_one (h : candidates.length ≤ 1) :
    prefer keep candidates = candidates := by
  match candidates, h with
  | [], _ => rfl
  | [v], _ => cases hv : keep v <;> simp [prefer, hv]

theorem perm_prefer (keep : Variant → Bool) (h : candidates.Perm candidates') :
    (prefer keep candidates).Perm (prefer keep candidates') := by
  unfold prefer
  rw [h.any_eq]
  split
  · exact h.filter keep
  · exact h

/-! ## The steps as preferences -/

/-- Whether a candidate is among the best on an attribute that has a rule. -/
def isBestOn (rule : Disambiguation) (candidates : List Variant) (name : String) (v : Variant) :
    Bool :=
  rule.isBest (candidates.map fun w => w.attributes.get? name) (v.attributes.get? name)

/-- Whether a candidate carries the wanted value of an attribute itself. -/
def carries (name : String) (wanted : Value) (v : Variant) : Bool :=
  (v.attributes.get? name).any fun p => p.same wanted

theorem narrow_preferredBy (rule : Disambiguation) (candidates : List Variant) (name : String) :
    narrow candidates (preferredBy rule candidates name)
      = prefer (isBestOn rule candidates name) candidates := by
  rw [preferredBy, Disambiguation.preferred_eq_filterMap, List.zipIdx_map, List.filterMap_map]
  exact narrow_filterMap_zipIdx (isBestOn rule candidates name) candidates

theorem narrow_exactMatches (candidates : List Variant) (name : String) (wanted : Value) :
    narrow candidates (exactMatches candidates name wanted)
      = prefer (carries name wanted) candidates := by
  have hplaces : exactMatches candidates name wanted =
      candidates.zipIdx.filterMap fun e => if carries name wanted e.1 then some e.2 else none := by
    refine List.filterMap_congr fun e _ => ?_
    cases hp : e.1.attributes.get? name <;> simp [carries, hp]
  rw [hplaces, narrow_filterMap_zipIdx]

/-- What is preferred on a requested attribute: what its rule says, else the wanted value. -/
def requestedPreference (schema : Schema) (candidates : List Variant) (e : String × Value) :
    Variant → Bool :=
  match schema.disambiguation? e.1 with
  | some rule => isBestOn rule candidates e.1
  | none => carries e.1 e.2

/-- What is preferred on an attribute that was not requested: what its rule says, if it has one. -/
def extraPreference (schema : Schema) (candidates : List Variant) (name : String) :
    Variant → Bool :=
  match schema.disambiguation? name with
  | some rule => isBestOn rule candidates name
  | none => fun _ => false

theorem narrowRequested_eq_prefer (schema : Schema) (candidates : List Variant)
    (e : String × Value) : narrowRequested schema candidates e
      = prefer (requestedPreference schema candidates e) candidates := by
  unfold narrowRequested requestedPreference
  split
  · next hshort => exact (prefer_of_length_le_one hshort).symm
  · cases schema.disambiguation? e.1 with
    | some rule => exact narrow_preferredBy rule candidates e.1
    | none => exact narrow_exactMatches candidates e.1 e.2

theorem narrowExtra_eq_prefer (schema : Schema) (candidates : List Variant) (name : String) :
    narrowExtra schema candidates name
      = prefer (extraPreference schema candidates name) candidates := by
  unfold narrowExtra extraPreference
  split
  · next hshort => exact (prefer_of_length_le_one hshort).symm
  · cases schema.disambiguation? name with
    | some rule => exact narrow_preferredBy rule candidates name
    | none => exact (prefer_false candidates).symm

/-! ## Some candidate is always left -/

/-- Some candidates are left of others: none is new, their order is kept, and not all are gone. -/
structure Narrows (candidates left : List Variant) : Prop where
  sublist : left.Sublist candidates
  ne_nil : candidates ≠ [] → left ≠ []

theorem Narrows.refl (candidates : List Variant) : Narrows candidates candidates :=
  ⟨List.Sublist.refl candidates, id⟩

theorem Narrows.trans {middle left : List Variant} (h : Narrows candidates middle)
    (h' : Narrows middle left) : Narrows candidates left :=
  ⟨h'.sublist.trans h.sublist, fun hne => h'.ne_nil (h.ne_nil hne)⟩

/-- Of one candidate that candidate is left. -/
theorem Narrows.eq_singleton {v : Variant} (h : Narrows [v] candidates) : candidates = [v] :=
  (List.sublist_singleton.1 h.sublist).resolve_left (h.ne_nil (by simp))

theorem narrows_prefer (keep : Variant → Bool) (candidates : List Variant) :
    Narrows candidates (prefer keep candidates) := by
  unfold prefer
  split
  · next hany =>
    obtain ⟨v, hv, hkeep⟩ := List.any_eq_true.1 hany
    exact ⟨List.filter_sublist, fun _ => List.ne_nil_of_mem (List.mem_filter.2 ⟨hv, hkeep⟩)⟩
  · exact .refl candidates

/-- What each step of a loop does, the loop does. -/
theorem narrows_foldl {α : Type} {narrowBy : List Variant → α → List Variant}
    (hstep : ∀ l a, Narrows l (narrowBy l a)) (steps : List α) (candidates : List Variant) :
    Narrows candidates (steps.foldl narrowBy candidates) := by
  induction steps generalizing candidates with
  | nil => exact .refl candidates
  | cons a rest ih => exact (hstep candidates a).trans (ih (narrowBy candidates a))

theorem narrows_narrowRequested (schema : Schema) (candidates : List Variant)
    (e : String × Value) : Narrows candidates (narrowRequested schema candidates e) :=
  narrowRequested_eq_prefer schema candidates e ▸ narrows_prefer _ candidates

theorem narrows_narrowExtra (schema : Schema) (candidates : List Variant) (name : String) :
    Narrows candidates (narrowExtra schema candidates name) :=
  narrowExtra_eq_prefer schema candidates name ▸ narrows_prefer _ candidates

/-- Disambiguation leaves at least one of the candidates and only such. -/
theorem narrows_disambiguate (schema : Schema) (requested : Attributes)
    (candidates : List Variant) :
    Narrows candidates (disambiguate schema requested candidates) :=
  (narrows_foldl (narrows_narrowRequested schema) requested.toList candidates).trans
    (narrows_foldl (narrows_narrowExtra schema) _ _)

/-! ## The order of the candidates does not matter -/

theorem isBestOn_of_perm (rule : Disambiguation) (name : String)
    (h : candidates.Perm candidates') :
    isBestOn rule candidates name = isBestOn rule candidates' name := by
  funext v
  rw [isBestOn, isBestOn, Disambiguation.isBest, Disambiguation.isBest,
    rule.best?_of_perm (h.map _)]

theorem perm_narrowRequested {schema : Schema} {e : String × Value}
    (h : candidates.Perm candidates') :
    (narrowRequested schema candidates e).Perm (narrowRequested schema candidates' e) := by
  have hsame : requestedPreference schema candidates e
      = requestedPreference schema candidates' e := by
    unfold requestedPreference
    split
    · exact isBestOn_of_perm _ e.1 h
    · rfl
  rw [narrowRequested_eq_prefer, narrowRequested_eq_prefer, hsame]
  exact perm_prefer _ h

theorem perm_narrowExtra {schema : Schema} {name : String} (h : candidates.Perm candidates') :
    (narrowExtra schema candidates name).Perm (narrowExtra schema candidates' name) := by
  have hsame : extraPreference schema candidates name
      = extraPreference schema candidates' name := by
    unfold extraPreference
    split
    · exact isBestOn_of_perm _ name h
    · rfl
  rw [narrowExtra_eq_prefer, narrowExtra_eq_prefer, hsame]
  exact perm_prefer _ h

theorem perm_foldl {α : Type} {narrowBy : List Variant → α → List Variant}
    (hstep : ∀ l l' a, l.Perm l' → (narrowBy l a).Perm (narrowBy l' a))
    (steps : List α) (h : candidates.Perm candidates') :
    (steps.foldl narrowBy candidates).Perm (steps.foldl narrowBy candidates') := by
  induction steps generalizing candidates candidates' with
  | nil => exact h
  | cons a rest ih => exact ih (hstep candidates candidates' a h)

theorem extraNames_of_perm (requested : Attributes) (h : candidates.Perm candidates') :
    extraNames candidates requested = extraNames candidates' requested := by
  refine congrArg OrderedSet.elements (OrderedSet.ext_elements fun name => ?_)
  simp only [OrderedSet.mem_elements_ofElements, List.mem_filter, List.mem_flatMap, h.mem_iff]

/-- What disambiguation leaves does not depend on the order of the candidates. -/
theorem perm_disambiguate (schema : Schema) (requested : Attributes)
    (h : candidates.Perm candidates') :
    (disambiguate schema requested candidates).Perm
      (disambiguate schema requested candidates') := by
  have hrequested : ∀ l l' e, l.Perm l' →
      (narrowRequested schema l e).Perm (narrowRequested schema l' e) :=
    fun _ _ _ => perm_narrowRequested
  have hextra : ∀ l l' name, l.Perm l' →
      (narrowExtra schema l name).Perm (narrowExtra schema l' name) :=
    fun _ _ _ => perm_narrowExtra
  unfold disambiguate
  rw [extraNames_of_perm requested h]
  exact perm_foldl hextra _ (perm_foldl hrequested requested.toList h)

end Selection

end VariantGraph
