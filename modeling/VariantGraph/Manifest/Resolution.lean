import VariantGraph.Manifest.Dependencies
import VariantGraph.Resolution.Traversal

/-!
# The resolution of a manifest

What the manifest of a project asks of a resolution: the request, the rules and the schema. The
schema is the standard one, changed attribute by attribute.

Main statement: `Manifest.request_root` says that the component of the manifest is the root.
-/

namespace VariantGraph.Manifest

/-! ## Request -/

/-- What is resolved for the project. -/
def request (m : Manifest) : Except ManifestError ResolveRequest := do
  let dependencies ← m.rootDependencies
  let constraints ← m.rootConstraints
  return {
    root := m.component.id
    attributes := m.consumer
    dependencies := dependencies
    constraints := constraints }

theorem request_root {m : Manifest} {r : ResolveRequest} (h : m.request = .ok r) :
    r.root = m.component.id ∧ r.attributes = m.consumer := by
  unfold request at h
  cases hd : m.rootDependencies with
  | error e => simp [hd, bind, Except.bind] at h
  | ok dependencies =>
    cases hc : m.rootConstraints with
    | error e => simp [hd, hc, bind, Except.bind] at h
    | ok constraints =>
      simp only [hd, hc, bind, Except.bind, pure, Except.pure, Except.ok.injEq] at h
      subst h
      exact ⟨rfl, rfl⟩

/-! ## Rules -/

/-- Reads the coordinates of a forced version. -/
def readForced (s : String) : Except ManifestError (ModuleId × String) :=
  (readOr (.invalidForced s) (Coordinates.parse? s)).map fun c => (c.module, c.version)

/-- Reads what a module is replaced with: a module with a version, or else one without. -/
def readReplacement (s : String) : Except ManifestError (ModuleId × Option String) :=
  match Coordinates.parse? s with
  | some c => .ok (c.module, some c.version)
  | none => (readModule s).map fun m => (m, none)

/-- The substitution that an entry stands for. -/
def SubstitutionEntry.rule (e : SubstitutionEntry) : Except ManifestError Substitution := do
  let replacement ← readReplacement e.replacement
  let replaced ← readModule e.replaced
  return {
    replaced := replaced
    replacement := replacement.1
    version := replacement.2
    reason := e.reason }

/-- The version rule that an entry stands for. -/
def VersionEntry.rule (e : VersionEntry) : Except ManifestError VersionRule :=
  (readModule e.module).map fun m => { module := m, version := e.version, reason := e.reason }

/-- The capability rule that an entry stands for. -/
def CapabilityEntry.rule (e : CapabilityEntry) : Except ManifestError CapabilityRule := do
  let capability ← readCapabilityId e.capability
  let prefer ← readModule e.prefer
  return { capability := capability, prefer := prefer, reason := e.reason }

/-- The rules that the project is resolved with. -/
def resolutionRules (m : Manifest) : Except ManifestError Rules := do
  let forced ← m.rules.force.mapM readForced
  let substitutions ← m.rules.substitutions.mapM SubstitutionEntry.rule
  let versions ← m.rules.versions.mapM VersionEntry.rule
  let capabilities ← m.rules.capabilities.mapM CapabilityEntry.rule
  let subgraphs ← m.rules.subgraphs.mapM readModule
  return {
    forced := Table.ofList forced
    substitutions := substitutions.map Substitution.rule
    versionRules := versions.map VersionRule.rule
    capabilityRules := capabilities
    metadataRules := subgraphs.map fun m => SubgraphRule.rule ⟨m⟩ }

/-! ## Schema -/

/-- The rule of compatibility that a word stands for. -/
def AttributeEntry.compatibilityRule (e : AttributeEntry) : CompatibilityWord → Compatibility
  | .equal => .equality
  | .atMost => .atMost
  | .ordered => .ordered e.values

/-- The rule that a word for choosing between the values of an attribute stands for. -/
def AttributeEntry.disambiguationRule (e : AttributeEntry) (name : String) :
    DisambiguationWord → Except ManifestError Disambiguation
  | .highest => .ok .highest
  | .lowest => .ok .lowest
  | .prefer =>
    match e.value with
    | some v => .ok (.prefer v)
    | none => .error (.missingPreference name)
  | .ordered => .ok (.ordered e.values)

/-- A schema after the rules of an attribute. -/
def addAttribute (s : Schema) (e : String × AttributeEntry) : Except ManifestError Schema :=
  let s :=
    match e.2.compatibility with
    | some word => s.withCompatibility e.1 (e.2.compatibilityRule word)
    | none => s
  match e.2.disambiguation with
  | some word => (e.2.disambiguationRule e.1 word).map (s.withDisambiguation e.1)
  | none => .ok s

/-- The schema that the project is resolved with. -/
def attributeSchema (m : Manifest) : Except ManifestError Schema :=
  m.schema.toList.foldlM addAttribute Schema.standard

end VariantGraph.Manifest
