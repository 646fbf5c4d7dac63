import VariantGraph.Manifest

/-!
# The dependencies of a manifest

What the declarations of a manifest mean to a resolution. A declaration is on a module, or on a
project of the build under whose coordinates it is resolved. A dependency on a project that asks for
no version requires the version of the project; a constraint asks for what it says and no more.

Main statement: `Declaration.dependency_constraint_of_module` says that a dependency on a module has
the constraint of its declaration.
-/

namespace VariantGraph.Manifest

/-- What a declaration is on. -/
inductive Target where
  | module (id : ModuleId)
  /-- A project of the build, with its coordinates. -/
  | project (name : String) (id : Coordinates)
deriving DecidableEq, Repr

/-- The module that is resolved for a target. -/
def Target.moduleId : Target → ModuleId
  | module id => id
  | project _ id => id.module

/-! ## Texts of a manifest -/

/-- A text that is read, or the error that says that it cannot be. -/
def readOr {α ε : Type} (error : ε) : Option α → Except ε α
  | some a => .ok a
  | none => .error error

/-- Reads the coordinates of a module. -/
def readModule (s : String) : Except ManifestError ModuleId :=
  readOr (.invalidModule s) (ModuleId.parse? s)

/-- Reads exclude rules. -/
def readExcludes (l : List String) : Except ManifestError (List ExcludeRule) :=
  l.mapM fun s => readOr (.invalidExclude s) (ExcludeRule.parse? s)

/-- Reads a capability without a version. -/
def readCapabilityId (s : String) : Except ManifestError CapabilityId :=
  readOr (.invalidCapability s) (CapabilityId.parse? s)

/-- Reads capabilities. -/
def readCapabilities (l : List String) : Except ManifestError (List Capability) :=
  l.mapM fun s => readOr (.invalidCapability s) (Capability.parse? s)

/-- Reads the coordinates of a project. -/
def readProject (name coordinates : String) : Except ManifestError Coordinates :=
  readOr (.invalidProject coordinates name) (Coordinates.parse? coordinates)

namespace Declaration

/-! ## Targets -/

/-- What a declaration is on, given the projects of the build. -/
def target (d : Declaration) (projects : Table String String) : Except ManifestError Target :=
  match d.module, d.project with
  | some m, none => (readModule m).map .module
  | none, some name =>
    match projects.get? name with
    | some coordinates => (readProject name coordinates).map (.project name)
    | none => .error (.unknownProject name)
  | some _, some _ => .error .ambiguousTarget
  | none, none => .error .missingTarget

/-! ## Dependencies and constraints -/

/-- A constraint that requires a version if it asks for none. -/
def requiring (c : VersionConstraint) (version : String) : VersionConstraint :=
  if c.requestedVersion.isNone then { c with required := some version } else c

/-- The constraint that a declaration has on a target. -/
def constraintOn (d : Declaration) : Target → VersionConstraint
  | .module _ => d.constraint
  | .project _ id => requiring d.constraint id.version

/-- The dependency that a declaration stands for. -/
def dependency (d : Declaration) (projects : Table String String) :
    Except ManifestError Dependency := do
  let target ← d.target projects
  let excludes ← readExcludes d.excludes
  let capabilities ← d.capabilities.mapM readCapabilityId
  return {
    module := target.moduleId
    constraint := d.constraintOn target
    excludes := OrderedSet.ofElements excludes
    transitive := d.transitive
    force := d.force
    attributes := d.attributes
    capabilities := capabilities
    reason := d.reason
    targetVariant := d.variant }

/-- The dependency constraint that a declaration stands for. -/
def dependencyConstraint (d : Declaration) (projects : Table String String) :
    Except ManifestError DependencyConstraint := do
  let target ← d.target projects
  return {
    module := target.moduleId
    constraint := d.constraint
    attributes := d.attributes
    reason := d.reason }

theorem dependency_constraint_of_module {d : Declaration} {projects : Table String String}
    {id : ModuleId} {x : Dependency} (ht : d.target projects = .ok (.module id))
    (h : d.dependency projects = .ok x) : x.module = id ∧ x.constraint = d.constraint := by
  unfold dependency at h
  rw [ht] at h
  cases he : readExcludes d.excludes with
  | error e => simp [he, bind, Except.bind] at h
  | ok excludes =>
    cases hc : d.capabilities.mapM readCapabilityId with
    | error e => simp [he, hc, bind, Except.bind] at h
    | ok capabilities =>
      simp only [he, hc, bind, Except.bind, pure, Except.pure, Except.ok.injEq] at h
      subst h
      exact ⟨rfl, rfl⟩

end Declaration

/-! ## The project -/

/-- The dependencies of the project. -/
def rootDependencies (m : Manifest) : Except ManifestError (List Dependency) :=
  m.dependencies.mapM fun d => d.dependency m.projects

/-- The dependency constraints of the project. -/
def rootConstraints (m : Manifest) : Except ManifestError (List DependencyConstraint) :=
  m.constraints.mapM fun d => d.dependencyConstraint m.projects

end VariantGraph.Manifest
