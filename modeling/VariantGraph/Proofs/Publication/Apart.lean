import VariantGraph.Proofs.Layout
import VariantGraph.Proofs.Publication.AllOrNothing

/-!
# Module versions that keep apart

If every part of the coordinates of two module versions is a plain name, their documents lie at
different places of every repository, so the publication of one leaves the document of the other as
it is. Otherwise they may share a path, and for each module version there is another one that does.

Main statements: `Repository.locate_documentPath_ne`, `Project.isReplacing_publish` and
`Coordinates.documents_apart`.
-/

namespace VariantGraph

open VariantGraph.Text

/-! ## Where a document lies -/

namespace FileTree

variable {t t' : FileTree} {start place : Place}

theorem follow_append {front back : List String} :
    t.follow start (front ++ back) = .ok place ↔
      ∃ base, t.follow start front = .ok base ∧ t.follow base back = .ok place := by
  induction front generalizing start with
  | nil => simp [follow]
  | cons s front ih =>
    constructor
    · intro h
      obtain ⟨next, hstep, hrest⟩ := bind_eq_ok_iff.1 h
      obtain ⟨base, hfront, hback⟩ := ih.1 hrest
      exact ⟨base, bind_eq_ok_iff.2 ⟨next, hstep, hfront⟩, hback⟩
    · rintro ⟨base, hfront, hback⟩
      obtain ⟨next, hstep, hrest⟩ := bind_eq_ok_iff.1 hfront
      exact bind_eq_ok_iff.2 ⟨next, hstep, ih.2 ⟨base, hrest, hback⟩⟩

theorem step_of_plain {s : String} (h : s ∉ ["", ".", ".."])
    (hstep : t.step start s = .ok place) : place = start ++ [s] := by
  simp only [List.mem_cons, List.not_mem_nil, or_false, not_or] at h
  rw [step] at hstep
  split at hstep
  · cases hstep
  · cases hstep
  · rw [if_neg (by simp [h]), if_neg h.2.2] at hstep
    split at hstep
    · cases hstep
    · exact (Except.ok.inj hstep).symm

/-- Plain names lead down, each by one name. -/
theorem follow_of_plain {l : List String} (h : ∀ s ∈ l, s ∉ ["", ".", ".."])
    (hfollow : t.follow start l = .ok place) : place = start ++ l := by
  induction l generalizing start with
  | nil => rw [← Except.ok.inj hfollow, List.append_nil]
  | cons s l ih =>
    obtain ⟨next, hstep, hrest⟩ := bind_eq_ok_iff.1 hfollow
    rw [ih (fun x hx => h x (List.mem_cons_of_mem s hx)) hrest,
      step_of_plain (h s List.mem_cons_self) hstep, List.append_assoc, List.singleton_append]

theorem locate_eq_ok {p : Path} (h : t.locate p = .ok place) :
    t.follow (if Path.isAbsolute p.text then [] else t.current) (splitAt '/' p.text) =
      .ok place := by
  unfold locate at h
  split at h
  · cases h
  · exact h

end FileTree

namespace Repository

variable {r : Repository} {c c' : Coordinates}

/-- The place of a document is that of the repository with the parts of the coordinates. -/
theorem exists_place_of_isRegular {place : FileTree.Place} (h : Layout.IsRegular c)
    (hlocate : r.tree.locate (r.documentPath c) = .ok place) :
    ∃ base, r.tree.follow (if Path.isAbsolute r.root.text then [] else r.tree.current)
      r.root.route = .ok base ∧ place = base ++ Layout.parts c := by
  have hrelative : Path.isAbsolute (Layout.documentPath c).text = false := by
    refine Bool.eq_false_iff.2 fun habsolute => ?_
    have hempty := Path.mem_splitAt_of_isAbsolute habsolute
    rw [Layout.splitAt_documentPath h] at hempty
    exact Layout.plain_of_mem_parts h hempty (by simp)
  have hfollow := FileTree.locate_eq_ok hlocate
  rw [documentPath, Path.isAbsolute_join _ hrelative, Path.splitAt_join _ hrelative,
    Layout.splitAt_documentPath h] at hfollow
  obtain ⟨base, hbase, hparts⟩ := FileTree.follow_append.1 hfollow
  exact ⟨base, hbase, FileTree.follow_of_plain (fun s hs => Layout.plain_of_mem_parts h hs) hparts⟩

/-- Module versions of plain names lie at different places. -/
theorem locate_documentPath_ne {place : FileTree.Place} (h : Layout.IsRegular c)
    (h' : Layout.IsRegular c') (hne : c ≠ c')
    (hlocate : r.tree.locate (r.documentPath c) = .ok place) :
    r.tree.locate (r.documentPath c') ≠ .ok place := by
  intro hlocate'
  obtain ⟨base, hbase, hplace⟩ := exists_place_of_isRegular h hlocate
  obtain ⟨base', hbase', hplace'⟩ := exists_place_of_isRegular h' hlocate'
  rw [hbase] at hbase'
  obtain rfl := Except.ok.inj hbase'
  rw [hplace] at hplace'
  exact hne (Layout.parts_injective (List.append_cancel_left hplace'))

theorem fetch_eq_some_iff {d : ModuleData} :
    r.fetch c = .ok (some d) ↔
      ∃ text, r.tree.readText (r.documentPath c) = .ok text ∧ dataOf c text = .ok (some d) := by
  unfold fetch
  split
  · next text htext => simp [htext]
  · next herror => simp [herror]
  · next herror => simp [herror]

/-- What one state of a repository has of a module version, a later one has as well. -/
structure Keeps (r r' : Repository) (c : Coordinates) : Prop where
  /-- The module version is served as it was. -/
  serves : ∀ d, r.fetch c = .ok (some d) → r'.fetch c = .ok (some d)
  /-- Where its document would lie there is no file but the one that was there. -/
  stores : ∀ place, r'.tree.locate (r'.documentPath c) = .ok place → ∀ content,
    r'.tree.get? place = some (.file content) ↔ r.tree.get? place = some (.file content)

/-- Replacing the document of one module version keeps that of the other. -/
theorem keeps_of_isReplacing {ε : Type} {t t' : FileTree} {root : Path}
    {content : Except ε ByteArray} {result : Except ε Unit}
    (hreplacing : t.IsReplacing (root.join (Layout.documentPath c).text) content (t', result))
    (h : Layout.IsRegular c) (h' : Layout.IsRegular c') (hne : c ≠ c') :
    Keeps ⟨t, root⟩ ⟨t', root⟩ c' := by
  have hapart : ∀ place, t'.locate (root.join (Layout.documentPath c').text) = .ok place →
      t'.locate (root.join (Layout.documentPath c).text) ≠ .ok place :=
    fun place hlocate => locate_documentPath_ne (r := ⟨t', root⟩) h' h hne.symm hlocate
  constructor
  · intro d hd
    obtain ⟨text, htext, hdata⟩ := fetch_eq_some_iff.1 hd
    exact fetch_eq_some_iff.2 ⟨text, hreplacing.readText hapart htext, hdata⟩
  · intro place hlocate content
    exact hreplacing.get?_eq_file_iff (hapart place hlocate)

end Repository

/-! ## Publishing -/

namespace Project

variable {t : FileTree} {config : Config} {atHand : String} {o : PublishOptions} {file : Path}

theorem path_of_prepareAt {p : Project} {root : Path} {x : Prepared}
    (hload : load t file = .ok p) (htarget : p.target o = .ok root)
    (h : prepareAt t config atHand o file = .ok x) :
    x.path = root.join (Layout.documentPath p.manifest.component.id).text := by
  obtain ⟨p', root', hload', htarget', -, hpath⟩ := exists_of_prepareAt h
  rw [hload] at hload'
  obtain rfl := Except.ok.inj hload'
  rw [htarget] at htarget'
  obtain rfl := Except.ok.inj htarget'
  exact hpath

theorem publish_of_prepareAt {x : Prepared} (h : prepareAt t config atHand o file = .ok x) :
    publish t config atHand o file =
      ((t.replace x.path ProjectError.file (.ok x.document.write.toUTF8)).1,
        (t.replace x.path ProjectError.file (.ok x.document.write.toUTF8)).2.map
          fun _ => x.path) := by
  unfold publish
  rw [h]
  dsimp only
  split <;> next hreplace => rw [hreplace, Except.map]

/-- Publishing replaces the document of the project. -/
theorem isReplacing_publish {p : Project} {root : Path} (hload : load t file = .ok p)
    (htarget : p.target o = .ok root) (config : Config) (atHand : String) :
    ∃ (content : Except ProjectError ByteArray) (result : Except ProjectError Unit),
      t.IsReplacing (root.join (Layout.documentPath p.manifest.component.id).text) content
        ((publish t config atHand o file).1, result) := by
  cases hx : prepareAt t config atHand o file with
  | error e =>
    rw [publish_of_error hx]
    exact ⟨.error e, .error e, .kept (.refl t)⟩
  | ok x =>
    have hpath := path_of_prepareAt hload htarget hx
    have hreplacing := FileTree.isReplacing_replace t x.path ProjectError.file
      (.ok x.document.write.toUTF8)
    rw [publish_of_prepareAt hx]
    generalize t.replace x.path ProjectError.file (.ok x.document.write.toUTF8) = outcome
      at hreplacing
    rw [hpath] at hreplacing
    exact ⟨_, outcome.2, hreplacing⟩

/-- A module version whose document has the same path is served the published document. -/
theorem fetch_of_publish {t' : FileTree} {path : Path} {p : Project} {root : Path}
    {c : Coordinates} (hload : load t file = .ok p) (htarget : p.target o = .ok root)
    (hpath : Layout.documentPath c = Layout.documentPath p.manifest.component.id)
    (h : publish t config atHand o file = (t', .ok path)) :
    ∃ x, prepareAt t config atHand o file = .ok x ∧
      (Repository.mk t' root).fetch c = .ok (some (x.document.moduleData c)) := by
  cases hx : prepareAt t config atHand o file with
  | error e =>
    rw [publish_of_error hx] at h
    cases h
  | ok x =>
    rw [publish_of_prepareAt hx] at h
    obtain ⟨htree, hresult⟩ := Prod.mk.inj h
    obtain ⟨⟨⟩, hreplaced, -⟩ := map_eq_ok_iff.1 hresult
    refine ⟨x, rfl, fetch_of_readText ?_⟩
    rw [Repository.documentPath, hpath, ← path_of_prepareAt hload htarget hx]
    exact FileTree.readText_replace (Prod.ext htree hreplaced)

end Project

/-! ## All module versions -/

/-- Every module version shares the path of its document with another one. -/
theorem Coordinates.exists_ne_documentPath_eq {s : String} {c : Coordinates}
    (h : parse? s = some c) :
    ∃ s' c', parse? s' = some c' ∧ c' ≠ c ∧ Layout.documentPath c' = Layout.documentPath c := by
  obtain ⟨-, hgroup, hname, hversion⟩ := parse?_eq_some_iff.1 h
  have hgroup' : IsPart ("." ++ c.group) := by
    refine ⟨by simp, ?_⟩
    rw [String.toList_append, List.mem_append, not_or]
    exact ⟨by decide, hgroup.2⟩
  refine ⟨_, { c with group := "." ++ c.group },
    parse?_eq_some_iff.2 ⟨rfl, hgroup', hname, hversion⟩, fun heq => ?_,
    Layout.documentPath_dot_append c⟩
  have hlength := congrArg (fun c => c.group.length) heq
  simp at hlength

/-- The documents of two module versions have the same path exactly if the parts of their
coordinates lead through the same names. Without slashes these are the nonempty parts of the group,
the name and the version; and where every part is a plain name, different module versions have
their documents at different places, and publishing one keeps the document of the other. But every
module version shares its path with another one, which is served the document of the first. -/
theorem Coordinates.documents_apart {s s' : String} {c c' : Coordinates} (h : parse? s = some c)
    (h' : parse? s' = some c') :
    (Layout.documentPath c = Layout.documentPath c' ↔ Layout.route c = Layout.route c') ∧
    (Layout.IsFlat c → Layout.IsFlat c' →
      (Layout.documentPath c = Layout.documentPath c' ↔
        Layout.groupNames c.group = Layout.groupNames c'.group ∧
          c.name = c'.name ∧ c.version = c'.version)) ∧
    (Layout.IsRegular c → Layout.IsRegular c' → c ≠ c' →
      Layout.documentPath c ≠ Layout.documentPath c' ∧
      (∀ (r : Repository) place, r.tree.locate (r.documentPath c) = .ok place →
        r.tree.locate (r.documentPath c') ≠ .ok place) ∧
      ∀ t config atHand o file p root, Project.load t file = .ok p → p.target o = .ok root →
        p.manifest.component.id = c →
        Repository.Keeps ⟨t, root⟩ ⟨(Project.publish t config atHand o file).1, root⟩ c') ∧
    (Layout.documentPath c' = Layout.documentPath c →
      ∀ t config atHand o file p root t' path, Project.load t file = .ok p →
        p.target o = .ok root → p.manifest.component.id = c →
        Project.publish t config atHand o file = (t', .ok path) →
        ∃ x, Project.prepareAt t config atHand o file = .ok x ∧
          (Repository.mk t' root).fetch c' = .ok (some (x.document.moduleData c'))) ∧
    ∃ s'' c'', parse? s'' = some c'' ∧ c'' ≠ c ∧
      Layout.documentPath c'' = Layout.documentPath c := by
  obtain ⟨-, -, hname, hversion⟩ := parse?_eq_some_iff.1 h
  obtain ⟨-, -, hname', hversion'⟩ := parse?_eq_some_iff.1 h'
  refine ⟨Layout.documentPath_eq_iff_route, fun hflat hflat' => ?_,
    fun hregular hregular' hne => ?_, ?_, exists_ne_documentPath_eq h⟩
  · exact Layout.documentPath_eq_iff_of_isFlat hflat hflat' hname.1 hversion.1 hname'.1 hversion'.1
  · refine ⟨fun hpath => hne (Layout.documentPath_injective_of_isRegular hregular hregular' hpath),
      fun r place hlocate => Repository.locate_documentPath_ne hregular hregular' hne hlocate, ?_⟩
    rintro t config atHand o file p root hload htarget rfl
    obtain ⟨content, result, hreplacing⟩ :=
      Project.isReplacing_publish hload htarget config atHand
    exact Repository.keeps_of_isReplacing hreplacing hregular hregular' hne
  · rintro hpath t config atHand o file p root t' path hload htarget rfl hpublish
    exact Project.fetch_of_publish hload htarget hpath hpublish

/-! ### A repository of two modules -/

namespace Project

def coreDocument : Document where
  formatVersion := Document.currentFormat
  component := { group := "g", module := "core", version := "1" }

/-- The place of the document of `g:core:1` in the repository of the library. -/
def corePlace : FileTree.Place := ["repo", "g", "core", "1", "core-1.module"]

def coreDirectories : FileTree where
  entries := Table.ofList <|
    [["repo"], ["repo", "g"], ["repo", "g", "core"], ["repo", "g", "core", "1"]].map
      fun place => (place, .directory)

/-- The project of the library with the document of the module it depends on. -/
def sharedTree : FileTree :=
  (coreDirectories.put corePlace (.file coreDocument.write.toUTF8)).put [manifestName]
    (.file libraryText.toUTF8)

theorem load_sharedTree : load sharedTree ⟨manifestName⟩ = .ok libraryProject :=
  load_put_library (by decide +kernel) (by decide +kernel)

theorem fetch_sharedTree :
    (Repository.mk sharedTree ⟨"./repo"⟩).fetch ⟨"g", "core", "1"⟩ =
      .ok (some (coreDocument.moduleData ⟨"g", "core", "1"⟩)) := by
  refine fetch_of_readText ?_
  refine FileTree.readText_eq_ok_iff.2
    ⟨corePlace, coreDocument.write.toUTF8, by decide +kernel, ?_, FileTree.fromUTF8?_toUTF8 _⟩
  rw [sharedTree, FileTree.get?_put _ (by decide), if_neg (by decide),
    FileTree.get?_put _ (by decide), if_pos rfl]

end Project

theorem Layout.isRegular_lib : IsRegular ⟨"g", "lib", "1"⟩ :=
  ⟨⟨by decide, by decide, by decide⟩, by decide, by decide, by decide⟩

theorem Layout.isRegular_core : IsRegular ⟨"g", "core", "1"⟩ :=
  ⟨⟨by decide, by decide, by decide⟩, by decide, by decide, by decide⟩

theorem Coordinates.documents_apart_sharedTree :
    parse? "g:lib:1" = some ⟨"g", "lib", "1"⟩ ∧ parse? "g:core:1" = some ⟨"g", "core", "1"⟩ ∧
    (Repository.mk Project.sharedTree ⟨"./repo"⟩).fetch ⟨"g", "core", "1"⟩ =
      .ok (some (Project.coreDocument.moduleData ⟨"g", "core", "1"⟩)) ∧
    (Repository.mk (Project.publish Project.sharedTree {} "build" {} ⟨Project.manifestName⟩).1
        ⟨"./repo"⟩).fetch ⟨"g", "core", "1"⟩ =
      .ok (some (Project.coreDocument.moduleData ⟨"g", "core", "1"⟩)) := by
  have hlib : parse? "g:lib:1" = some ⟨"g", "lib", "1"⟩ := by decide
  have hcore : parse? "g:core:1" = some ⟨"g", "core", "1"⟩ := by decide
  have hapart := (documents_apart hlib hcore).2.2.1 Layout.isRegular_lib Layout.isRegular_core
    (by decide)
  have hkeeps := hapart.2.2 Project.sharedTree {} "build" {} ⟨Project.manifestName⟩
    Project.libraryProject ⟨"./repo"⟩ Project.load_sharedTree (by decide) rfl
  exact ⟨hlib, hcore, Project.fetch_sharedTree, hkeeps.serves _ Project.fetch_sharedTree⟩

end VariantGraph
