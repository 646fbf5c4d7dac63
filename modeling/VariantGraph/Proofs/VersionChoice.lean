import VariantGraph.VersionChoice

/-!
# Choosing a version with a known listing

Main statements: `VersionChoice.select_ne_needsListing` says that a choice does not ask for a listing
that it was given, `VersionChoice.module_of_select` that an error names the module in question.
-/

namespace VariantGraph

/-- The module of which no version could be chosen. -/
def VersionError.module : VersionError → ModuleId
  | .conflict m _ _ => m
  | .unsatisfied m _ _ => m

namespace VersionChoice

variable {m : ModuleId} {requests : List VersionRequest} {listing : Option (List String)}

/-! ## No listing is asked for twice -/

theorem settle_ne_needsListing (m : ModuleId) (requested : String) (cause : Cause)
    (versions : List String) : settle m requested cause (some versions) ≠ .ok .needsListing := by
  unfold settle
  dsimp only
  split
  · simp
  · split <;> simp

theorem settleHighest_ne_needsListing (m : ModuleId) (versions : List String)
    (l : List SelectedVersion) (best : Option SelectedVersion) :
    settleHighest m (some versions) l best ≠ .ok (some .needsListing) := by
  induction l generalizing best with
  | nil => cases best <;> simp [settleHighest]
  | cons r rest ih =>
    rw [settleHighest]
    split
    · simp
    · next hs => exact absurd hs (settle_ne_needsListing m r.version r.cause versions)
    · exact ih _

theorem candidates?_ne_none (isRejected : String → Bool) (versions : List String)
    (texts : List String) : candidates? isRejected (some versions) texts ≠ none := by
  induction texts with
  | nil => simp [candidates?]
  | cons text rest ih =>
    rw [candidates?, ne_eq, Option.map_eq_none_iff] at ih ⊢
    obtain ⟨cs, hcs⟩ := Option.ne_none_iff_exists'.1 ih
    have hc : ∃ c, candidateOf isRejected (some versions) text = some c := by
      unfold candidateOf
      dsimp only
      split
      · exact ⟨_, rfl⟩
      · exact ⟨_, rfl⟩
    obtain ⟨c, hc⟩ := hc
    simp [List.mapM_cons, hc, hcs]

theorem compared_ne_needsListing (m : ModuleId) (requests : List VersionRequest)
    (versions : List String) : compared m requests (some versions) ≠ .ok .needsListing := by
  unfold compared
  dsimp only
  split
  · next hnone => exact absurd hnone (candidates?_ne_none _ versions _)
  · split
    · simp
    · split <;> simp

/-- A choice that knows the listing does not ask for it. -/
theorem select_ne_needsListing (m : ModuleId) (requests : List VersionRequest)
    (forced : Option String) (versions : List String) :
    select m requests forced (some versions) ≠ .ok .needsListing := by
  unfold select
  split
  · exact settle_ne_needsListing m _ _ versions
  · split
    · simp
    · next d hd =>
      rw [ne_eq, Except.ok.injEq]
      rintro rfl
      exact settleHighest_ne_needsListing m versions _ _ hd
    · split
      · simp
      · next d hd =>
        rw [ne_eq, Except.ok.injEq]
        rintro rfl
        exact settleHighest_ne_needsListing m versions _ _ hd
      · exact compared_ne_needsListing m requests versions

/-! ## The module of an error -/

theorem module_of_settle {requested : String} {cause : Cause} {e : VersionError}
    (h : settle m requested cause listing = .error e) : e.module = m := by
  unfold settle at h
  dsimp only at h
  split at h
  · simp at h
  · split at h
    · simp at h
    · split at h
      · simp at h
      · obtain rfl := Except.error.inj h
        rfl

theorem module_of_settleHighest {l : List SelectedVersion} {best : Option SelectedVersion}
    {e : VersionError} (h : settleHighest m listing l best = .error e) : e.module = m := by
  induction l generalizing best with
  | nil => simp [settleHighest] at h
  | cons r rest ih =>
    rw [settleHighest] at h
    split at h
    · next hs =>
      obtain rfl := Except.error.inj h
      exact module_of_settle hs
    · simp at h
    · exact ih h

theorem module_of_compared {e : VersionError} (h : compared m requests listing = .error e) :
    e.module = m := by
  unfold compared at h
  dsimp only at h
  split at h
  · simp at h
  · split at h
    · obtain rfl := Except.error.inj h
      rfl
    · split at h
      · simp at h
      · obtain rfl := Except.error.inj h
        rfl

/-- The error of a choice names the module in question. -/
theorem module_of_select {forced : Option String} {e : VersionError}
    (h : select m requests forced listing = .error e) : e.module = m := by
  unfold select at h
  split at h
  · exact module_of_settle h
  · split at h
    · next hs =>
      obtain rfl := Except.error.inj h
      exact module_of_settleHighest hs
    · simp at h
    · split at h
      · next hs =>
        obtain rfl := Except.error.inj h
        exact module_of_settleHighest hs
      · simp at h
      · exact module_of_compared h

end VersionChoice

end VariantGraph
