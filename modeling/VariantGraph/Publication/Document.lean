import VariantGraph.Digest.Md5
import VariantGraph.Digest.Sha1
import VariantGraph.Document.Meaning
import VariantGraph.Publication

/-!
# The document of a publication

A document is put together from a publication and the other publications of its build. It is
complete or there is none: whatever cannot be written makes the whole document fail.

The component is the owner's, if there is one. The variants of the component come first, in their
order, and then those of its children, as links to where they are published.
-/

namespace VariantGraph

/-- What is recorded of a file. -/
structure Measurement where
  size : UInt64
  sha1 : String
  md5 : String
deriving DecidableEq

/-- What is recorded of a file with some content. -/
def Measurement.ofContent (content : ByteArray) : Measurement :=
  ⟨content.size.toUInt64, Digest.sha1 content, Digest.md5 content⟩

/-- What the documents of a build are written with. -/
structure Build where
  tool : Document.Tool
  /-- The coordinates of the projects of the build. -/
  projects : Table String Coordinates := Table.empty
  /-- What is recorded of a file, if it can be read. -/
  measure? : Path → Option Measurement

/-- Why a document cannot be written. -/
inductive PublicationError where
  /-- A child of a component is not published. -/
  | unpublishedChild (child : String) (parent : Coordinates)
  | unwritable (value : Document.UnwritableValue)
  | unknownProject (name : String)
  | unreadableArtifact (file : Path)
deriving DecidableEq, Repr

/-- What a reader is told. -/
def PublicationError.message : PublicationError → String
  | unpublishedChild child parent =>
    "Invalid module metadata: Component '" ++ child ++ "' of " ++ parent.text ++ " is not published"
  | unwritable value => value.message
  | unknownProject name => "Project '" ++ name ++ "' has no publication"
  | unreadableArtifact file => "Invalid module metadata: Cannot read artifact " ++ file.text

namespace Publication

open Document

/-! ## Versions and excludes -/

/-- How a constraint is written. A version that a mapping gives is required, and none is preferred
then; a constraint that asks for nothing is not written. -/
def versionOf (c : VersionConstraint) (resolved : Option String) : Option Document.Version :=
  if c.isEmpty then none
  else some {
    strictly := c.strict
    requires := resolved <|> c.required
    prefers := if resolved.isSome then none else c.preferred
    rejects := c.rejects
    forSubgraph := c.forSubgraph }

/-- How an exclude rule is written. -/
def excludeOf (r : ExcludeRule) : Document.Exclude := ⟨r.groupText, r.nameText⟩

/-- The excludes of a dependency: everything if it is not transitive, else those of the variant and
then its own, each once. -/
def excludesOf (d : PublishedDependency) (global : List ExcludeRule) : List Document.Exclude :=
  (if d.transitive then (global ++ d.excludes).eraseDups else [ExcludeRule.all]).map excludeOf

/-- A reason that says something. -/
def reasonOf (reason : Option String) : Option String := reason.filter (· ≠ "")

/-! ## Dependencies and constraints -/

/-- Attributes as the document holds them. -/
def scalarsOf (a : Attributes) : Except PublicationError Scalars :=
  (ofAttributes a).mapError .unwritable

/-- The coordinates of a module after a mapping. -/
def mapped? (mapping : Option VersionMapping) (m : ModuleId) : Option Coordinates :=
  mapping.bind fun s => s.coordinates? m

/-- The module and the version that are written for a request. -/
def requestOf (mapping : Option VersionMapping) (m : ModuleId) (c : VersionConstraint) :
    ModuleId × Option Document.Version :=
  match mapped? mapping m with
  | some id => (id.module, versionOf c (some id.version))
  | none => (m, versionOf c none)

/-- The module and the version that are written for a project: its own version, or the one that a
mapping gives. -/
def projectRequest (mapping : Option VersionMapping) (id : Coordinates) :
    ModuleId × Option Document.Version :=
  let id := (mapped? mapping id.module).getD id
  (id.module, versionOf (VersionConstraint.require id.version) none)

/-- The module and the version that are written for what a dependency is on. -/
def targetOf (b : Build) (mapping : Option VersionMapping) (d : PublishedDependency) :
    Except PublicationError (ModuleId × Option Document.Version) :=
  match d.target with
  | .module m => .ok (requestOf mapping m d.constraint)
  | .project name =>
    match b.projects.get? name with
    | some id => .ok (projectRequest mapping id)
    | none => .error (.unknownProject name)

/-- How a dependency is written. -/
def dependencyOf (b : Build) (mapping : Option VersionMapping) (global : List ExcludeRule)
    (d : PublishedDependency) : Except PublicationError Document.Dependency := do
  let target ← targetOf b mapping d
  let attributes ← scalarsOf d.attributes
  return {
    group := target.1.group
    module := target.1.name
    version := target.2
    excludes := excludesOf d global
    attributes := attributes
    requestedCapabilities := d.capabilities.map fun c => ⟨c.group, c.name, none⟩
    reason := reasonOf d.reason }

/-- How a dependency constraint is written. -/
def constraintOf (mapping : Option VersionMapping) (c : DependencyConstraint) :
    Except PublicationError Document.Constraint := do
  let target := requestOf mapping c.module c.constraint
  let attributes ← scalarsOf c.attributes
  return {
    group := target.1.group
    module := target.1.name
    version := target.2
    attributes := attributes
    reason := reasonOf c.reason }

/-! ## Variants -/

/-- How an artifact is written. -/
def fileOf (b : Build) (a : Artifact) : Except PublicationError FileRef :=
  match b.measure? a.file with
  | some m => .ok ⟨a.name, a.url, m.size, m.sha1, m.md5⟩
  | none => .error (.unreadableArtifact a.file)

/-- How a variant of the component itself is written. -/
def localVariant (b : Build) (p : Publication) (v : PublishedVariant) :
    Except PublicationError Document.Variant := do
  let mapping := p.mappingFor? v
  let dependencies ← v.dependencies.mapM (dependencyOf b mapping v.excludes)
  let constraints ← v.constraints.mapM (constraintOf mapping)
  let files ← v.artifacts.mapM (fileOf b)
  let attributes ← scalarsOf v.attributes
  return {
    name := v.name
    attributes := attributes
    source := .here {
      dependencies := dependencies
      constraints := constraints
      files := files
      capabilities := v.capabilities } }

/-- The link to a module version. -/
def linkTo (c : Coordinates) : Document.Link :=
  { url := Layout.relativeUrl c, group := c.group, module := c.name, version := c.version }

/-- How a variant of a child is written. -/
def linkedVariant (child : Publication) (v : PublishedVariant) :
    Except PublicationError Document.Variant := do
  let attributes ← scalarsOf v.attributes
  return { name := v.name, attributes := attributes,
           source := .availableAt (linkTo child.coordinates) }

/-- How the variants of a child are written. -/
def childVariants (all : List Publication) (p : Publication) (child : String) :
    Except PublicationError (List Document.Variant) :=
  match named? all child with
  | some c => c.component.variants.mapM (linkedVariant c)
  | none => .error (.unpublishedChild child p.coordinates)

/-- The variants of a document. -/
def variantsOf (b : Build) (all : List Publication) (p : Publication) :
    Except PublicationError (List Document.Variant) := do
  let own ← p.component.variants.mapM (localVariant b p)
  let children ← p.component.children.mapM (childVariants all p)
  return own ++ children.flatten

/-! ## Documents -/

/-- The component under which a publication is written: its own, or that of its owner with the
address of the owner. -/
def componentOf (all : List Publication) (p : Publication) :
    Except PublicationError Document.Component := do
  let owner := ownerOf? all p.component.name
  let shown := owner.getD p
  let attributes ← scalarsOf shown.attributes
  return {
    url := owner.map fun o => Layout.relativeUrl o.coordinates
    group := shown.coordinates.group
    module := shown.coordinates.name
    version := shown.coordinates.version
    attributes := attributes }

/-- The document of a publication among all publications of its build. -/
def document (b : Build) (all : List Publication) (p : Publication) :
    Except PublicationError Document := do
  let component ← componentOf all p
  let variants ← variantsOf b all p
  return {
    formatVersion := Document.currentFormat
    component := component
    createdBy := some b.tool
    variants := variants }

end Publication

end VariantGraph
