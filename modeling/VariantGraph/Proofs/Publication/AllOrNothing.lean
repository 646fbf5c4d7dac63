import VariantGraph.Proofs.FileTree.Draft
import VariantGraph.Proofs.Publication.Publishing
import VariantGraph.Repository

/-!
# Publishing completely or not at all

Nothing is written before the document of a project is put together, and the file of the document is
replaced as a whole. So whatever fails on the way, be it in the manifest, in the resolution, in the
tree or outside of it, no file is lost, changed or left behind; and if nothing fails, the repository
has the document where it looks for it.

Main statement: `Project.publish_all_or_nothing`.
-/

namespace VariantGraph

open FileTree (Grows IsReplacing Place)

namespace Project

variable {t t' : FileTree} {c : Config} {atHand : String} {o : PublishOptions} {file : Path}

/-- Publishes the project of a manifest with some way of replacing a file. -/
def publishBy
    (replace : FileTree → Path → Except ProjectError ByteArray →
      FileTree × Except ProjectError Unit)
    (t : FileTree) (c : Config) (atHand : String) (o : PublishOptions) (file : Path) :
    FileTree × Except ProjectError Path :=
  match prepareAt t c atHand o file with
  | .error e => (t, .error e)
  | .ok x =>
    match replace t x.path (.ok x.document.write.toUTF8) with
    | (t, .ok ()) => (t, .ok x.path)
    | (t, .error e) => (t, .error e)

/-- Publishes the project of a manifest by way of a draft of some name, with some fault. -/
def publishByDraft (name : String) (fault : Option (Fault ProjectError)) :
    FileTree → Config → String → PublishOptions → Path → FileTree × Except ProjectError Path :=
  publishBy fun t p content => t.replaceByDraft p name .file content fault

theorem publish_eq_publishBy :
    publish = publishBy fun t p content => t.replace p .file content := by
  funext t c atHand o file
  unfold publish publishBy
  cases prepareAt t c atHand o file with
  | error e => rfl
  | ok x =>
    rcases hreplace : t.replace x.path ProjectError.file (.ok x.document.write.toUTF8)
      with ⟨t', _ | _⟩ <;> simp only [hreplace]

/-- A project is published completely or not at all: at worst new directories are left behind, at
best its document is the only file that is different, and its repository serves it. -/
inductive AllOrNothing (t : FileTree) (c : Config) (atHand : String) (o : PublishOptions)
    (file : Path) : FileTree × Except ProjectError Path → Prop
  | nothing {t' : FileTree} {e : ProjectError} (grows : Grows t t') :
      AllOrNothing t c atHand o file (t', .error e)
  | all {t' : FileTree} {p : Project} {root : Path} {x : Prepared} {place : Place}
      (loaded : load t file = .ok p)
      (targeted : p.target o = .ok root)
      (prepared : p.prepare t c atHand o = .ok x)
      (path_eq : x.path = (Repository.mk t' root).documentPath p.manifest.component.id)
      (located : t'.locate x.path = .ok place)
      (holds : t'.get? place = some (.file x.document.write.toUTF8))
      (others : ∀ other, other ≠ place →
        t'.get? other = t.get? other ∨ t.get? other = none ∧ t'.get? other = some .directory)
      (fetched : (Repository.mk t' root).fetch p.manifest.component.id =
        .ok (some (x.document.moduleData p.manifest.component.id))) :
      AllOrNothing t c atHand o file (t', .ok x.path)

theorem exists_of_prepareAt {x : Prepared} (h : prepareAt t c atHand o file = .ok x) :
    ∃ p root, load t file = .ok p ∧ p.target o = .ok root ∧ p.prepare t c atHand o = .ok x ∧
      x.path = root.join (Layout.documentPath p.manifest.component.id).text := by
  unfold prepareAt at h
  split at h
  · next p hload =>
    have hprepare := h
    obtain ⟨root, hroot, h⟩ := bind_eq_ok_iff.1 h
    obtain ⟨publications, -, h⟩ := bind_eq_ok_iff.1 h
    obtain ⟨mappings, -, h⟩ := bind_eq_ok_iff.1 h
    obtain ⟨projects, -, h⟩ := bind_eq_ok_iff.1 h
    obtain ⟨document, -, h⟩ := bind_eq_ok_iff.1 h
    obtain rfl := Except.ok.inj h
    exact ⟨p, root, hload, mapError_eq_ok_iff.1 hroot, hprepare, rfl⟩
  · cases h

/-- A repository serves the document whose text is in its file. -/
theorem fetch_of_readText {r : Repository} {id : Coordinates} {d : Document}
    (h : r.tree.readText (r.documentPath id) = .ok d.write) :
    r.fetch id = .ok (some (d.moduleData id)) := by
  have hread : Document.read d.write = .ok d := by
    rw [Document.read, Document.parse?_write]
  unfold Repository.fetch
  rw [h]
  dsimp only
  rw [Repository.dataOf, hread]

theorem allOrNothing_publishBy
    (replace : FileTree → Path → Except ProjectError ByteArray →
      FileTree × Except ProjectError Unit)
    (h : ∀ t p content, IsReplacing t p content (replace t p content)) (t : FileTree) (c : Config)
    (atHand : String) (o : PublishOptions) (file : Path) :
    AllOrNothing t c atHand o file (publishBy replace t c atHand o file) := by
  unfold publishBy
  cases hx : prepareAt t c atHand o file with
  | error e => exact .nothing (.refl t)
  | ok x =>
    obtain ⟨p, root, hload, htarget, hprepare, hpath⟩ := exists_of_prepareAt hx
    have hreplacing := h t x.path (.ok x.document.write.toUTF8)
    dsimp only
    generalize replace t x.path (.ok x.document.write.toUTF8) = outcome at hreplacing
    cases hreplacing with
    | kept hgrows => exact .nothing hgrows
    | @replaced t₁ place content hgrows hcontent hplace =>
      obtain rfl := Except.ok.inj hcontent
      obtain ⟨hlocate, hdirectory⟩ := FileTree.locate_of_replaceable hplace
      have htop : place ≠ [] := by
        rintro rfl
        exact hdirectory rfl
      have hread := FileTree.readText_put hdirectory hlocate x.document.write
      refine .all hload htarget hprepare hpath (FileTree.locate_put hdirectory _ hlocate) ?_ ?_ ?_
      · rw [FileTree.get?_put t₁ htop, if_pos rfl]
      · intro other hother
        rw [FileTree.get?_put t₁ htop, if_neg hother]
        exact hgrows.get?_eq_or other
      · exact fetch_of_readText (by rw [Repository.documentPath, ← hpath, hread])

/-- Publishing is all or nothing, in one go as well as by way of a draft that anything can happen
to; and the two are the same if nothing does. -/
theorem publish_all_or_nothing (t : FileTree) (c : Config) (atHand : String) (o : PublishOptions)
    (file : Path) :
    AllOrNothing t c atHand o file (publish t c atHand o file) ∧
      ∀ name,
        (∀ fault, AllOrNothing t c atHand o file (publishByDraft name fault t c atHand o file)) ∧
        ((∀ x, prepareAt t c atHand o file = .ok x → t.IsUnused x.path name) →
          publishByDraft name none t c atHand o file = publish t c atHand o file) := by
  refine ⟨?_, fun name => ⟨fun fault => ?_, fun hunused => ?_⟩⟩
  · rw [publish_eq_publishBy]
    exact allOrNothing_publishBy _ (fun t p => FileTree.isReplacing_replace t p _) t c atHand o file
  · exact allOrNothing_publishBy _
      (fun t p content => FileTree.isReplacing_replaceByDraft t p name _ content fault)
      t c atHand o file
  · rw [publish_eq_publishBy, publishByDraft, publishBy, publishBy]
    cases hx : prepareAt t c atHand o file with
    | error e => rfl
    | ok x =>
      dsimp only
      rw [FileTree.replaceByDraft_none (hunused x hx)]

theorem publish_all_or_nothing_libraryTree :
    ∃ t', publish libraryTree {} "build" {} ⟨manifestName⟩ =
        (t', .ok ⟨"./repo/g/lib/1/lib-1.module"⟩) ∧
      AllOrNothing libraryTree {} "build" {} ⟨manifestName⟩
        (t', .ok ⟨"./repo/g/lib/1/lib-1.module"⟩) := by
  obtain ⟨t', hpublish⟩ := publish_libraryTree
  have hresult := (publish_all_or_nothing libraryTree {} "build" {} ⟨manifestName⟩).1
  rw [hpublish] at hresult
  exact ⟨t', hpublish, hresult⟩

end Project

end VariantGraph
