import VariantGraph.Document.Writer
import VariantGraph.Manifest.Publication
import VariantGraph.Project

/-!
# Publishing a project

The document of a project is put together completely before anything is written, and then takes the
place of an earlier one in a single step.

Main statements: `Project.publish_of_error` says that nothing is written if there is no document,
`Project.publish_of_ok` that otherwise the file of the document is replaced by it.
-/

namespace VariantGraph

/-- How a project is published. -/
structure PublishOptions where
  /-- The repository into which it is published, if it is not its own. -/
  output : Option Path := none
  /-- Whether the versions are published that the dependencies are resolved to. -/
  resolvedVersions : Bool := false
deriving DecidableEq, Repr

/-- The tool that documents name: the version and the build that the configuration sets, or else the
version of this tool and the build at hand. -/
def Config.tool (c : Config) (build : String) : Document.Tool where
  version := c.toolVersion.getD Config.version
  buildId := some (c.buildId.getD build)

namespace Project

/-- The repository into which a project is published. -/
def target (p : Project) (o : PublishOptions) : Except ManifestError Path :=
  match o.output with
  | some output => .ok output
  | none => p.repositoryRoot

/-- The version mappings of the project's own publication. -/
def mappings (p : Project) (t : FileTree) (c : Config) (o : PublishOptions) :
    Except ProjectError (List VersionMapping) :=
  if o.resolvedVersions then
    (p.resolve t c).map fun r => [VersionMapping.ofGraph r.graph none]
  else .ok []

/-- What the document of a project is written with. -/
def build (t : FileTree) (tool : Document.Tool) (projects : Table String Coordinates) : Build where
  tool := tool
  projects := projects
  measure? file := (t.read file).toOption.map Measurement.ofContent

/-- A document and where it is to be written. -/
structure Prepared where
  path : Path
  document : Document

/-- The document of a project. -/
def prepare (p : Project) (t : FileTree) (c : Config) (atHand : String) (o : PublishOptions) :
    Except ProjectError Prepared := do
  let repository ← (p.target o).mapError .manifest
  let publications ← (p.manifest.publications p.root).mapError .manifest
  let mappings ← p.mappings t c o
  let projects ← p.manifest.projectTable.mapError .manifest
  let own := { publications.own with mappings := mappings }
  let shared := build t (c.tool atHand) projects
  let document ← (own.document shared (own :: publications.others)).mapError .publication
  return ⟨repository.join (Layout.documentPath p.manifest.component.id).text, document⟩

/-- The document of the project of a manifest. -/
def prepareAt (t : FileTree) (c : Config) (atHand : String) (o : PublishOptions) (file : Path) :
    Except ProjectError Prepared :=
  match load t file with
  | .ok p => p.prepare t c atHand o
  | .error e => .error (.manifest e)

/-- Publishes the project of a manifest, and says where the document is. -/
def publish (t : FileTree) (c : Config) (atHand : String) (o : PublishOptions) (file : Path) :
    FileTree × Except ProjectError Path :=
  match prepareAt t c atHand o file with
  | .error e => (t, .error e)
  | .ok x =>
    match t.replace x.path .file (.ok x.document.write.toUTF8) with
    | (t, .ok ()) => (t, .ok x.path)
    | (t, .error e) => (t, .error e)

theorem publish_of_error {t : FileTree} {c : Config} {atHand : String} {o : PublishOptions}
    {file : Path} {e : ProjectError} (h : prepareAt t c atHand o file = .error e) :
    publish t c atHand o file = (t, .error e) := by
  simp [publish, h]

theorem publish_of_ok {t t' : FileTree} {c : Config} {atHand : String} {o : PublishOptions}
    {file : Path} {x : Prepared} (h : prepareAt t c atHand o file = .ok x)
    (hr : t.replace x.path ProjectError.file (.ok x.document.write.toUTF8) = (t', .ok ())) :
    publish t c atHand o file = (t', .ok x.path) := by
  simp only [publish, h]
  rw [hr]

end Project

end VariantGraph
