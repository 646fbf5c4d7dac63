import VariantGraph.Document.Meaning
import VariantGraph.Document.Reader
import VariantGraph.FileTree
import VariantGraph.Layout
import VariantGraph.Resolution.Run

/-!
# Repositories

A repository is a directory in which the documents of module versions lie, each at its place. A
module version without a document does not exist; the versions of a module are those that have one.

Main statements: `Repository.fetch_id` says that the data of a module version carries its
coordinates, `Repository.mem_versions` that every listed version has a document.
-/

namespace VariantGraph

/-- Why a repository does not answer. -/
inductive RepositoryError where
  | document (error : DocumentError)
  /-- The versions of a module cannot be listed. -/
  | unlistable (error : FileError)
deriving DecidableEq, Repr

/-- What a reader is told. -/
def RepositoryError.message : RepositoryError → String
  | document e => e.message
  | unlistable e => "I/O error: " ++ e.message

/-- A repository in a tree of files. -/
structure Repository where
  tree : FileTree
  root : Path

namespace Repository

/-- Reads a document from a file. -/
def readDocument (t : FileTree) (file : Path) : Except DocumentError Document :=
  match t.readText file with
  | .ok content => Document.read content
  | .error _ => .error (.unreadable file)

/-- Where the document of a module version lies. -/
def documentPath (r : Repository) (c : Coordinates) : Path :=
  r.root.join (Layout.documentPath c).text

/-- The data of a module version, from the content of its document. -/
def dataOf (c : Coordinates) (content : String) : Except RepositoryError (Option ModuleData) :=
  match Document.read content with
  | .ok d => .ok (some (d.moduleData c))
  | .error e => .error (.document e)

/-- The data of a module version, if it exists. -/
def fetch (r : Repository) (c : Coordinates) : Except RepositoryError (Option ModuleData) :=
  match r.tree.readText (r.documentPath c) with
  | .ok content => dataOf c content
  | .error .notFound => .ok none
  | .error _ => .error (.document (.unreadable (r.documentPath c)))

/-- Whether a module version has a document. -/
def has (r : Repository) (c : Coordinates) : Bool := r.tree.pathExists (r.documentPath c)

/-- The versions of a module, in ascending order. -/
def versions (r : Repository) (m : ModuleId) : Except RepositoryError (List String) :=
  match r.tree.list (r.root.join (Layout.moduleDir m).text) with
  | .ok names => .ok (names.filter fun v => r.has (m.withVersion v))
  | .error .notFound => .ok []
  | .error e => .error (.unlistable e)

/-- The repository as a source of metadata. -/
def provider (r : Repository) : Provider RepositoryError := ⟨r.fetch, r.versions⟩

theorem fetch_id {r : Repository} {c : Coordinates} {d : ModuleData}
    (h : r.fetch c = .ok (some d)) : d.id = c := by
  unfold fetch at h
  split at h
  · next content _ =>
    unfold dataOf at h
    split at h
    · obtain rfl := Option.some.inj (Except.ok.inj h)
      rfl
    · simp at h
  · simp at h
  · simp at h

theorem mem_versions {r : Repository} {m : ModuleId} {l : List String} {v : String}
    (h : r.versions m = .ok l) (hv : v ∈ l) : r.has (m.withVersion v) := by
  unfold versions at h
  split at h
  · obtain rfl := Except.ok.inj h
    exact (List.mem_filter.1 hv).2
  · obtain rfl := Except.ok.inj h
    simp at hv
  · simp at h

end Repository

end VariantGraph
