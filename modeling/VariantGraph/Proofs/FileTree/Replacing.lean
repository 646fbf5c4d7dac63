import VariantGraph.Proofs.FileTree

/-!
# What replacing a file changes

On the way to replacing a file, directories are created that were missing. A tree that grows in this
way keeps all that it held, so paths lead where they did and files are read as they were. When the
new content takes its place, all other places are left as they are.

Main statements: `FileTree.grows_ensureDirectory`, `FileTree.isReplacing_replace` and
`FileTree.IsReplacing.get?_eq_file_iff`.
-/

namespace VariantGraph.FileTree

variable {t t' : FileTree} {place : Place}

/-! ## Reading -/

theorem readText_eq_ok_iff {p : Path} {text : String} :
    t.readText p = .ok text ↔
      ∃ place content, t.locate p = .ok place ∧ t.get? place = some (.file content) ∧
        String.fromUTF8? content = some text := by
  constructor
  · intro h
    obtain ⟨content, hread, htext⟩ := bind_eq_ok_iff.1 h
    obtain ⟨e, hentry, hfile⟩ := bind_eq_ok_iff.1 hread
    obtain ⟨place, hlocate, hplace⟩ := bind_eq_ok_iff.1 hentry
    split at hplace
    · next found hfound =>
      obtain rfl := Except.ok.inj hplace
      cases found with
      | directory => cases hfile
      | file stored =>
        obtain rfl := Except.ok.inj hfile
        split at htext
        · next s hs =>
          obtain rfl := Except.ok.inj htext
          exact ⟨place, stored, hlocate, hfound, hs⟩
        · cases htext
    · cases hplace
  · rintro ⟨place, content, hlocate, hplace, htext⟩
    have hentry : t.entryAt p = .ok (.file content) :=
      bind_eq_ok_iff.2 ⟨place, hlocate, by rw [hplace]⟩
    have hread : t.read p = .ok content := bind_eq_ok_iff.2 ⟨.file content, hentry, rfl⟩
    exact bind_eq_ok_iff.2 ⟨content, hread, by rw [htext]⟩

/-! ## Growing -/

/-- A tree is changed by nothing but new directories. -/
structure Grows (t t' : FileTree) : Prop where
  current_eq : t'.current = t.current
  get?_eq_or : ∀ place, t'.get? place = t.get? place ∨
    t.get? place = none ∧ t'.get? place = some .directory

namespace Grows

theorem refl (t : FileTree) : Grows t t := ⟨rfl, fun _ => .inl rfl⟩

theorem trans {t'' : FileTree} (h : Grows t t') (h' : Grows t' t'') : Grows t t'' where
  current_eq := h'.current_eq.trans h.current_eq
  get?_eq_or place := by
    rcases h.get?_eq_or place with hsame | ⟨hnone, hnew⟩
    · rw [← hsame]
      exact h'.get?_eq_or place
    · rcases h'.get?_eq_or place with hsame | ⟨hnone', -⟩
      · exact .inr ⟨hnone, hsame.trans hnew⟩
      · rw [hnew] at hnone'
        cases hnone'

/-- What is there stays. -/
theorem get?_eq {e : Entry} (h : Grows t t') (hplace : t.get? place = some e) :
    t'.get? place = some e := by
  rcases h.get?_eq_or place with hsame | ⟨hnone, -⟩
  · rw [hsame, hplace]
  · rw [hnone] at hplace
    cases hplace

/-- No file is new, and none is gone. -/
theorem get?_eq_file_iff {content : ByteArray} (h : Grows t t') :
    t'.get? place = some (.file content) ↔ t.get? place = some (.file content) := by
  refine ⟨fun hfile => ?_, h.get?_eq⟩
  rcases h.get?_eq_or place with hsame | ⟨-, hnew⟩
  · rw [← hsame, hfile]
  · rw [hnew] at hfile
    cases hfile

theorem put_directory (h : t.get? place = none) : Grows t (t.put place .directory) where
  current_eq := rfl
  get?_eq_or other := by
    have hplace : place ≠ [] := by
      rintro rfl
      cases h
    rw [get?_put t hplace]
    split
    · next hother =>
      subst hother
      exact .inr ⟨h, rfl⟩
    · exact .inl rfl

theorem step {start next : Place} {segment : String} (h : Grows t t')
    (hstep : t.step start segment = .ok next) : t'.step start segment = .ok next := by
  rw [FileTree.step] at hstep ⊢
  cases hstart : t.get? start with
  | none => rw [hstart] at hstep; cases hstep
  | some e => rwa [h.get?_eq hstart, ← hstart]

theorem follow {start target : Place} {segments : List String} (h : Grows t t')
    (hfollow : t.follow start segments = .ok target) :
    t'.follow start segments = .ok target := by
  induction segments generalizing start with
  | nil => exact hfollow
  | cons segment rest ih =>
    obtain ⟨next, hstep, hrest⟩ := bind_eq_ok_iff.1 hfollow
    exact bind_eq_ok_iff.2 ⟨next, h.step hstep, ih hrest⟩

theorem locate {p : Path} (h : Grows t t') (hlocate : t.locate p = .ok place) :
    t'.locate p = .ok place := by
  unfold FileTree.locate at hlocate ⊢
  cases hflaw : flaw? p with
  | some error => rw [hflaw] at hlocate; cases hlocate
  | none =>
    rw [hflaw] at hlocate
    rw [h.current_eq]
    exact h.follow hlocate

end Grows

/-! ## Creating directories -/

theorem grows_createDirectory {p : Path} (h : t.createDirectory p = .ok t') : Grows t t' := by
  obtain ⟨place, -, h⟩ := bind_eq_ok_iff.1 h
  split at h
  · cases h
  · next hnone =>
    obtain rfl := Except.ok.inj h
    exact .put_directory hnone

theorem grows_createIfMissing {p : Path} (h : t.createIfMissing p = .ok t') : Grows t t' := by
  unfold createIfMissing at h
  split at h
  · next hcreated =>
    obtain rfl := Except.ok.inj h
    exact grows_createDirectory hcreated
  · split at h
    · obtain rfl := Except.ok.inj h
      exact .refl t
    · cases h

theorem grows_attempt {r : Except FileError FileTree} (h : ∀ t', r = .ok t' → Grows t t') :
    Grows t (t.attempt r).1 := by
  cases r with
  | error e => exact .refl t
  | ok t' => exact h t' rfl

theorem grows_createChain (t : FileTree) (l : List Path) : Grows t (t.createChain l).1 := by
  induction l with
  | nil => exact .refl t
  | cons p up ih =>
    rw [createChain]
    split
    · exact .refl t
    · split
      · cases hup : t.createChain up with
        | mk t₁ result =>
          rw [hup] at ih
          cases result with
          | error e => exact ih
          | ok _ => exact ih.trans (grows_attempt fun t' h => grows_createIfMissing h)
      · exact grows_attempt fun t' h => grows_createIfMissing h

theorem grows_ensureDirectory (t : FileTree) (p : Path) : Grows t (t.ensureDirectory p).1 := by
  rw [ensureDirectory]
  split
  · exact .refl t
  · exact grows_createChain t p.ancestors

/-! ## Replacing -/

/-- A file gets its new content, or nothing but new directories is left behind. -/
inductive IsReplacing {ε : Type} (t : FileTree) (p : Path) (content : Except ε ByteArray) :
    FileTree × Except ε Unit → Prop
  | kept {t' : FileTree} {e : ε} (grows : Grows t t') : IsReplacing t p content (t', .error e)
  | replaced {t' : FileTree} {place : Place} {c : ByteArray} (grows : Grows t t')
      (complete : content = .ok c) (replaceable : t'.replaceable p = .ok place) :
      IsReplacing t p content (t'.put place (.file c), .ok ())

theorem isReplacing_replace {ε : Type} (t : FileTree) (p : Path) (failed : FileError → ε)
    (content : Except ε ByteArray) : IsReplacing t p content (t.replace p failed content) := by
  have hgrows := grows_ensureDirectory t p.directory
  unfold replace
  cases hdirectory : t.ensureDirectory p.directory with
  | mk t₁ result =>
    rw [hdirectory] at hgrows
    cases result with
    | error e => exact .kept hgrows
    | ok _ =>
      dsimp only
      split
      · exact .kept hgrows
      · split
        · exact .kept hgrows
        · split
          · exact .kept hgrows
          · next hplace => exact .replaced hgrows rfl hplace

namespace IsReplacing

variable {ε : Type} {p : Path} {content : Except ε ByteArray} {result : Except ε Unit}

/-- Paths lead where they did. -/
theorem locate (h : IsReplacing t p content (t', result)) {q : Path}
    (hlocate : t.locate q = .ok place) : t'.locate q = .ok place := by
  cases h with
  | kept hgrows => exact hgrows.locate hlocate
  | replaced hgrows _ hplace =>
    exact locate_put (locate_of_replaceable hplace).2 _ (hgrows.locate hlocate)

/-- The places to which the path of the file does not lead hold the files they held. -/
theorem get?_eq_file_iff (h : IsReplacing t p content (t', result))
    (hplace : t'.locate p ≠ .ok place) {c : ByteArray} :
    t'.get? place = some (.file c) ↔ t.get? place = some (.file c) := by
  cases h with
  | kept hgrows => exact hgrows.get?_eq_file_iff
  | @replaced t₁ target c' hgrows _ htarget =>
    obtain ⟨hlocate, hdirectory⟩ := locate_of_replaceable htarget
    have hne : place ≠ target := by
      rintro rfl
      exact hplace (locate_put hdirectory _ hlocate)
    have htop : target ≠ [] := by
      rintro rfl
      exact hdirectory rfl
    rw [get?_put t₁ htop, if_neg hne]
    exact hgrows.get?_eq_file_iff

/-- A file that is read elsewhere is read as it was when a file has been replaced. -/
theorem readText (h : IsReplacing t p content (t', result)) {q : Path} {text : String}
    (hne : ∀ place, t'.locate q = .ok place → t'.locate p ≠ .ok place)
    (hread : t.readText q = .ok text) : t'.readText q = .ok text := by
  obtain ⟨place, stored, hlocate, hplace, htext⟩ := readText_eq_ok_iff.1 hread
  have hlocate' := h.locate hlocate
  exact readText_eq_ok_iff.2 ⟨place, stored, hlocate',
    (h.get?_eq_file_iff (hne place hlocate')).2 hplace, htext⟩

end IsReplacing

end VariantGraph.FileTree
