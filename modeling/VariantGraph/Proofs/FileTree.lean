import VariantGraph.FileTree
import VariantGraph.Proofs.Traversal

/-!
# Reading a file that was replaced

A new file takes a place where no directory is. Nothing that stands there is passed on the way to a
place, so all paths lead where they did, and the path of the file leads to its new content.

Main statements: `FileTree.follow_put` and `FileTree.readText_replace`.
-/

namespace VariantGraph.FileTree

variable {t : FileTree} {place : Place}

theorem step_put (h : t.get? place ≠ some .directory) (e : Entry) {start next : Place}
    {segment : String} (hstep : t.step start segment = .ok next) :
    (t.put place e).step start segment = .ok next := by
  have hplace : place ≠ [] := by
    rintro rfl
    exact h rfl
  rw [step] at hstep ⊢
  -- A step is made from a directory, and what was put stands where none is.
  cases hstart : t.get? start with
  | none => rw [hstart] at hstep; cases hstep
  | some found =>
    cases found with
    | file content => rw [hstart] at hstep; cases hstep
    | directory =>
      have hne : start ≠ place := by
        rintro rfl
        exact h hstart
      rw [hstart] at hstep
      rw [get?_put t hplace, if_neg hne, hstart]
      exact hstep

/-- Only directories are passed on the way to a place. -/
theorem follow_put (h : t.get? place ≠ some .directory) (e : Entry) {start target : Place}
    {segments : List String} (hfollow : t.follow start segments = .ok target) :
    (t.put place e).follow start segments = .ok target := by
  induction segments generalizing start with
  | nil => exact hfollow
  | cons segment rest ih =>
    obtain ⟨next, hstep, hrest⟩ := bind_eq_ok_iff.1 hfollow
    exact bind_eq_ok_iff.2 ⟨next, step_put h e hstep, ih hrest⟩

theorem locate_put (h : t.get? place ≠ some .directory) (e : Entry) {p : Path} {target : Place}
    (hlocate : t.locate p = .ok target) : (t.put place e).locate p = .ok target := by
  unfold locate at hlocate ⊢
  cases hflaw : flaw? p with
  | some error => rw [hflaw] at hlocate; cases hlocate
  | none =>
    rw [hflaw] at hlocate
    exact follow_put h e hlocate

/-- A file that can be replaced is where its path leads, and is no directory. -/
theorem locate_of_replaceable {p : Path} (h : t.replaceable p = .ok place) :
    t.locate p = .ok place ∧ t.get? place ≠ some .directory := by
  obtain ⟨found, hfound, h⟩ := bind_eq_ok_iff.1 h
  split at h
  · cases h
  · split at h
    · cases h
    · next hbare =>
      rw [Decidable.not_not] at hbare
      rw [locateBare, ← hbare] at hfound
      split at h
      · cases h
      · next hdirectory =>
        obtain rfl := Except.ok.inj h
        split at hfound
        · cases hfound
        · exact ⟨hfound, hdirectory⟩

theorem fromUTF8?_toUTF8 (s : String) : String.fromUTF8? s.toUTF8 = some s := by
  unfold String.fromUTF8?
  exact dif_pos s.isValidUTF8

/-- A file is read as the text that was put where its path leads. -/
theorem readText_put (h : t.get? place ≠ some .directory) {p : Path}
    (hlocate : t.locate p = .ok place) (text : String) :
    (t.put place (.file text.toUTF8)).readText p = .ok text := by
  have hnotTop : place ≠ [] := by
    rintro rfl
    exact h rfl
  have hread : (t.put place (.file text.toUTF8)).read p = .ok text.toUTF8 := by
    rw [read, entryAt, locate_put h _ hlocate]
    simp [Except.bind, get?_put t hnotTop]
  rw [readText, hread]
  dsimp only [Except.bind]
  rw [fromUTF8?_toUTF8]

/-- A file that was replaced by a text is read as this text. -/
theorem readText_replace {ε : Type} {t' : FileTree} {p : Path} {failed : FileError → ε}
    {text : String} (h : t.replace p failed (.ok text.toUTF8) = (t', .ok ())) :
    t'.readText p = .ok text := by
  unfold replace at h
  split at h
  · cases h
  · split at h
    · cases h
    · dsimp only at h
      split at h
      · cases h
      · next place hplace =>
        obtain ⟨hlocate, hdirectory⟩ := locate_of_replaceable hplace
        obtain rfl := (Prod.mk.inj h).1
        exact readText_put hdirectory hlocate text

end VariantGraph.FileTree
