import VariantGraph.FileTree.Draft
import VariantGraph.Proofs.FileTree.Replacing
import VariantGraph.Proofs.Table

/-!
# Replacing a file by way of a draft

A draft is put where nothing was, so throwing it away leaves the tree as it was before, whatever has
been written into it. When it leaves its place for that of the file, the tree is the one in which
the file alone has been replaced.

Main statements: `FileTree.isReplacing_replaceByDraft` for every fault and
`FileTree.replaceByDraft_none` for none.
-/

namespace VariantGraph.FileTree

variable {ε : Type} {t t' : FileTree} {place draft : Place}

/-! ## Throwing a draft away -/

@[simp] theorem discard_put (t : FileTree) (place : Place) (e : Entry) :
    (t.put place e).discard place = t.discard place := by
  have hentries : (t.entries.insert place e).erase place = t.entries.erase place := by
    refine Table.ext_get? fun k => ?_
    by_cases hk : k = place <;> simp [hk]
  rw [discard, discard, put, hentries]

theorem discard_eq_self (h : t.get? place = none) : t.discard place = t := by
  have hentry : t.entries.get? place = none := by
    rw [get?] at h
    split at h
    · cases h
    · exact h
  have hentries : t.entries.erase place = t.entries := by
    refine Table.ext_get? fun k => ?_
    by_cases hk : k = place <;> simp [hk, hentry]
  rw [discard, hentries]

/-! ## The steps -/

theorem grows_prepareDirectory (t : FileTree) (p : Path) (failed : FileError → ε)
    (fault : Option (Fault ε)) : Grows t (t.prepareDirectory p failed fault).1 := by
  have hensured := grows_ensureDirectory t p
  unfold prepareDirectory
  split
  · split
    · exact .refl t
    · exact grows_createChain t _
  · split <;> next hdirectory => rwa [hdirectory] at hensured

/-- A draft stands where nothing was. -/
theorem exists_free_of_draftPlace {p : Path} {name : String}
    (h : t.draftPlace p name = .ok draft) : draft ≠ [] ∧ t.get? draft = none := by
  obtain ⟨place, -, h⟩ := bind_eq_ok_iff.1 h
  split at h
  · cases h
  · next hnone =>
    obtain rfl := Except.ok.inj h
    exact ⟨List.concat_ne_nil _ _, hnone⟩

theorem createDraft_eq_ok {p : Path} {name : String} {failed : FileError → ε}
    {fault : Option (Fault ε)} (h : t.createDraft p name failed fault = .ok (draft, t')) :
    draft ≠ [] ∧ t.get? draft = none ∧ t' = t.put draft (.file .empty) := by
  unfold createDraft at h
  split at h
  · cases h
  · split at h
    · cases h
    · next place hplace =>
      obtain ⟨rfl, rfl⟩ := Prod.mk.inj (Except.ok.inj h)
      exact ⟨(exists_free_of_draftPlace hplace).1, (exists_free_of_draftPlace hplace).2, rfl⟩

/-- Whatever is written goes into the draft. -/
theorem discard_fill (t : FileTree) (draft : Place) (content : Except ε ByteArray)
    (fault : Option (Fault ε)) :
    (t.fill draft content fault).1.discard draft = t.discard draft := by
  unfold fill
  split
  · exact discard_put t draft _
  · split
    · rfl
    · exact discard_put t draft _
  · split
    · rfl
    · exact discard_put t draft _

theorem fill_eq_ok {content : Except ε ByteArray} {fault : Option (Fault ε)}
    (h : t.fill draft content fault = (t', .ok ())) :
    ∃ c, content = .ok c ∧ t' = t.put draft (.file c) := by
  unfold fill at h
  split at h
  · cases h
  · split at h <;> cases h
  · split at h
    · cases h
    · next c =>
      obtain ⟨rfl, -⟩ := Prod.mk.inj h
      exact ⟨c, rfl, rfl⟩

theorem persist_eq_ok {p : Path} {failed : FileError → ε} {fault : Option (Fault ε)}
    (h : t.persist draft p failed fault = .ok t') :
    ∃ e place, t.get? draft = some e ∧ (t.discard draft).replaceable p = .ok place ∧
      t' = (t.discard draft).put place e := by
  unfold persist at h
  split at h
  · cases h
  · split at h
    · cases h
    · next e he =>
      split at h
      · cases h
      · next place hplace =>
        obtain rfl := Except.ok.inj h
        exact ⟨e, place, he, hplace, rfl⟩

/-! ## All steps -/

theorem isReplacing_replaceByDraft (t : FileTree) (p : Path) (name : String)
    (failed : FileError → ε) (content : Except ε ByteArray) (fault : Option (Fault ε)) :
    IsReplacing t p content (t.replaceByDraft p name failed content fault) := by
  have hgrows := grows_prepareDirectory t p.directory failed fault
  unfold replaceByDraft
  split
  · next hdirectory =>
    rw [hdirectory] at hgrows
    exact .kept hgrows
  · next t₁ hdirectory =>
    rw [hdirectory] at hgrows
    split
    · exact .kept hgrows
    · next draft t₂ hdraft =>
      obtain ⟨hplace, hfree, rfl⟩ := createDraft_eq_ok hdraft
      -- Whatever the further steps do, without the draft the tree is `t₁` again.
      have hdiscard := discard_fill (t₁.put draft (.file .empty)) draft content fault
      rw [discard_put, discard_eq_self hfree] at hdiscard
      split
      · next hfill =>
        rw [hfill] at hdiscard
        exact .kept (hdiscard ▸ hgrows)
      · next t₃ hfill =>
        rw [hfill] at hdiscard
        split
        · exact .kept (hdiscard ▸ hgrows)
        · next hpersist =>
          obtain ⟨c, hcontent, rfl⟩ := fill_eq_ok hfill
          obtain ⟨e, target, he, htarget, rfl⟩ := persist_eq_ok hpersist
          rw [get?_put _ hplace, if_pos rfl] at he
          obtain rfl := Option.some.inj he
          rw [hdiscard] at htarget ⊢
          exact .replaced hgrows hcontent htarget

/-- No file beside the one of a path has some name, once their directory is there. -/
def IsUnused (t : FileTree) (p : Path) (name : String) : Prop :=
  ∀ t' place, t.ensureDirectory p.directory = (t', .ok ()) →
    t'.locate (t'.draftPath p) = .ok place → t'.get? (place.dropLast ++ [name]) = none

theorem createDraft_none_of_error {p : Path} {e : FileError}
    (h : t.locate (t.draftPath p) = .error e) (name : String) (failed : FileError → ε) :
    t.createDraft p name failed none = .error (failed e) := by
  have hplace : t.draftPlace p name = .error e := by
    unfold draftPlace
    rw [h]
    rfl
  unfold createDraft
  rw [hplace]

theorem createDraft_none_of_ok {p : Path} {name : String}
    (h : t.locate (t.draftPath p) = .ok place) (hfree : t.get? (place.dropLast ++ [name]) = none)
    (failed : FileError → ε) :
    t.createDraft p name failed none =
      .ok (place.dropLast ++ [name], t.put (place.dropLast ++ [name]) (.file .empty)) := by
  have hplace : t.draftPlace p name = .ok (place.dropLast ++ [name]) := by
    unfold draftPlace
    rw [h, Except.bind, hfree]
  unfold createDraft
  rw [hplace]

/-- The content of a draft takes the place of the file as if there had never been a draft. -/
theorem persist_none {p : Path} {c : ByteArray} (h : t'.get? draft = some (.file c))
    (hdiscard : t'.discard draft = t) (failed : FileError → ε) :
    t'.persist draft p failed none =
      match t.replaceable p with
      | .error e => .error (failed e)
      | .ok place => .ok (t.put place (.file c)) := by
  unfold persist
  cases hplace : t.replaceable p <;> simp only [h, hdiscard, hplace]

/-- A draft leads to what replacing in one go leads to if its name is unused and nothing fails. -/
theorem replaceByDraft_none {p : Path} {name : String} (h : t.IsUnused p name)
    (failed : FileError → ε) (content : Except ε ByteArray) :
    t.replaceByDraft p name failed content none = t.replace p failed content := by
  unfold replaceByDraft replace prepareDirectory
  cases hdirectory : t.ensureDirectory p.directory with
  | mk t₁ result =>
    cases result with
    | error e => rfl
    | ok _ =>
      cases hlocate : t₁.locate (t₁.draftPath p) with
      | error e =>
        dsimp only
        rw [createDraft_none_of_error hlocate, hlocate]
      | ok place =>
        have hfree := h t₁ place hdirectory hlocate
        have hplace : place.dropLast ++ [name] ≠ [] := List.concat_ne_nil _ _
        dsimp only
        rw [createDraft_none_of_ok hlocate hfree, hlocate]
        generalize place.dropLast ++ [name] = draft at hfree hplace
        cases content with
        | error e =>
          dsimp only [fill]
          rw [discard_put, discard_eq_self hfree]
        | ok c =>
          have hcontent := get?_put (t₁.put draft (.file .empty)) hplace (.file c) draft
          have hdiscard :
              ((t₁.put draft (.file .empty)).put draft (.file c)).discard draft = t₁ := by
            rw [discard_put, discard_put, discard_eq_self hfree]
          rw [if_pos rfl] at hcontent
          dsimp only [fill]
          rw [persist_none hcontent hdiscard]
          cases t₁.replaceable p with
          | error e => exact congrArg (fun t => (t, _)) hdiscard
          | ok target => rfl

end VariantGraph.FileTree
