import VariantGraph.Config
import VariantGraph.Manifest.Reader
import VariantGraph.Manifest.Resolution
import VariantGraph.Publication.Document
import VariantGraph.Repository

/-!
# Projects

A project is a manifest in a directory. Its dependencies are resolved from its repository, which the
manifest names relative to that directory.

Main statement: `Project.root_of_load` says that a project is in the directory of its manifest.
-/

namespace VariantGraph

/-- A project. -/
structure Project where
  manifest : Manifest
  /-- The directory of the manifest. -/
  root : Path

/-- Why something cannot be done with a project. -/
inductive ProjectError where
  | config (error : ConfigError)
  | manifest (error : ManifestError)
  | resolution (error : ResolutionError RepositoryError)
  | publication (error : PublicationError)
  | file (error : FileError)
deriving DecidableEq

/-- What a reader is told. -/
def ProjectError.message : ProjectError → String
  | config e => e.message
  | manifest e => e.message
  | resolution e => e.message RepositoryError.message
  | publication e => e.message
  | file e => "I/O error: " ++ e.message

namespace Project

/-- The name of manifests. -/
def manifestName : String := "Modgraph.toml"

/-- Loads the project of a manifest. -/
def load (t : FileTree) (file : Path) : Except ManifestError Project :=
  match t.readText file with
  | .ok content => (Manifest.read content).map fun m => ⟨m, file.directory⟩
  | .error _ => .error (.unreadable file)

/-- The directory of the repository of a project. -/
def repositoryRoot (p : Project) : Except ManifestError Path :=
  match p.manifest.repository with
  | some r => .ok (p.root.join r)
  | none => .error .missingRepository

/-- How the dependencies of a project are resolved. -/
def resolver (p : Project) (t : FileTree) (c : Config) :
    Except ManifestError (Resolver RepositoryError × ResolveRequest) := do
  let root ← p.repositoryRoot
  let request ← p.manifest.request
  let schema ← p.manifest.attributeSchema
  let rules ← p.manifest.resolutionRules
  return ({
    provider := (Repository.mk t root).provider
    schema := schema
    rules := rules
    maxPasses := c.maxPasses }, request)

/-- Resolves the dependencies of a project. -/
def resolve (p : Project) (t : FileTree) (c : Config) : Except ProjectError Resolution :=
  match p.resolver t c with
  | .ok (r, request) => (r.resolve request).mapError .resolution
  | .error e => .error (.manifest e)

/-- Resolves the dependencies of the project of a manifest. -/
def resolveAt (t : FileTree) (c : Config) (file : Path) : Except ProjectError Resolution :=
  match load t file with
  | .ok p => p.resolve t c
  | .error e => .error (.manifest e)

theorem root_of_load {t : FileTree} {file : Path} {p : Project} (h : load t file = .ok p) :
    p.root = file.directory := by
  unfold load at h
  split at h
  · next content _ =>
    cases hm : Manifest.read content with
    | error e => simp [hm, Except.map] at h
    | ok m =>
      simp only [hm, Except.map, Except.ok.injEq] at h
      rw [← h]
  · simp at h

end Project

end VariantGraph
