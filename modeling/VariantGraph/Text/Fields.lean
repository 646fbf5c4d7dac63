/-!
# Fields between separators

Cutting a text at a separator character and joining the pieces again.

Main statements: `joinFields_fields` says that joining undoes cutting, `fields_joinFields` that
cutting undoes joining when no piece holds the separator.
-/

namespace VariantGraph.Text

/-- The pieces of a text between the occurrences of a separator. There is always at least one. -/
def fields (sep : Char) : List Char → List (List Char)
  | [] => [[]]
  | c :: rest =>
    if c = sep then [] :: fields sep rest
    else
      match fields sep rest with
      | [] => [[c]]
      | field :: more => (c :: field) :: more

/-- The text before the first separator and the text after it. -/
def splitFirst (sep : Char) : List Char → Option (List Char × List Char)
  | [] => none
  | c :: rest =>
    if c = sep then some ([], rest)
    else (splitFirst sep rest).map fun p => (c :: p.1, p.2)

/-- Writes pieces one after the other with a separator between them. -/
def joinFields (sep : Char) : List (List Char) → List Char
  | [] => []
  | [field] => field
  | field :: more => field ++ sep :: joinFields sep more

theorem fields_ne_nil (sep : Char) (s : List Char) : fields sep s ≠ [] := by
  cases s with
  | nil => simp [fields]
  | cons c rest =>
    rw [fields]
    split
    · simp
    · split <;> simp

theorem joinFields_fields (sep : Char) (s : List Char) : joinFields sep (fields sep s) = s := by
  induction s with
  | nil => rfl
  | cons c rest ih =>
    rw [fields]
    split
    · next h =>
      obtain ⟨f, fs, hf⟩ := List.exists_cons_of_ne_nil (fields_ne_nil sep rest)
      rw [hf] at ih ⊢
      simp [joinFields, ih, h]
    · obtain ⟨f, fs, hf⟩ := List.exists_cons_of_ne_nil (fields_ne_nil sep rest)
      rw [hf] at ih ⊢
      cases fs with
      | nil => simpa [joinFields] using ih
      | cons g gs => simpa [joinFields] using ih

/-- A text without separators is its own only field. -/
theorem fields_eq_singleton {sep : Char} {s : List Char} (h : sep ∉ s) : fields sep s = [s] := by
  induction s with
  | nil => rfl
  | cons c rest ih =>
    simp only [List.mem_cons, not_or] at h
    simp [fields, Ne.symm h.1, ih h.2]

theorem fields_append_cons {sep : Char} {s : List Char} (h : sep ∉ s) (rest : List Char) :
    fields sep (s ++ sep :: rest) = s :: fields sep rest := by
  induction s with
  | nil => simp [fields]
  | cons c s ih =>
    simp only [List.mem_cons, not_or] at h
    simp [fields, Ne.symm h.1, ih h.2]

theorem fields_joinFields {sep : Char} {l : List (List Char)} (hne : l ≠ [])
    (h : ∀ f ∈ l, sep ∉ f) : fields sep (joinFields sep l) = l := by
  induction l with
  | nil => exact absurd rfl hne
  | cons f fs ih =>
    cases fs with
    | nil => exact fields_eq_singleton (h f (by simp))
    | cons g gs =>
      rw [joinFields, fields_append_cons (h f (by simp))]
      · rw [ih (by simp) fun x hx => h x (List.mem_cons_of_mem _ hx)]
      · simp

theorem not_mem_of_mem_fields {sep : Char} {s f : List Char} (h : f ∈ fields sep s) :
    sep ∉ f := by
  induction s generalizing f with
  | nil => simp_all [fields]
  | cons c rest ih =>
    rw [fields] at h
    split at h
    · rcases List.mem_cons.1 h with rfl | h
      · simp
      · exact ih h
    · next hc =>
      obtain ⟨g, gs, hg⟩ := List.exists_cons_of_ne_nil (fields_ne_nil sep rest)
      rw [hg] at h ih
      rcases List.mem_cons.1 h with rfl | h
      · have := ih (f := g) (by simp)
        simp [this, Ne.symm hc]
      · exact ih (List.mem_cons_of_mem _ h)

/-- The pieces of a string between the occurrences of a separator. -/
def splitAt (sep : Char) (s : String) : List String := (fields sep s.toList).map String.ofList

/-- The part of a string before the first separator and the part after it. -/
def splitOnce (sep : Char) (s : String) : Option (String × String) :=
  (splitFirst sep s.toList).map fun p => (String.ofList p.1, String.ofList p.2)

end VariantGraph.Text
