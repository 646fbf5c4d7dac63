import VariantGraph.Manifest
import VariantGraph.Toml.Fields
import VariantGraph.Toml.Reader

/-!
# Reading manifests

A manifest is a TOML text. What it does not know it passes over; apart from the component, from the
names of variants and files and from the parts of rules, everything may be left out.

Main statements: `Manifest.compatibilityWord?_text` and `Manifest.disambiguationWord?_text` say that
the words of a schema are read as they are written.
-/

namespace VariantGraph.Manifest

open VariantGraph.Toml

/-! ## Words and values -/

/-- How a rule of compatibility is written. -/
def CompatibilityWord.text : CompatibilityWord → String
  | equal => "equal"
  | atMost => "at-most"
  | ordered => "ordered"

/-- How a rule that chooses between values is written. -/
def DisambiguationWord.text : DisambiguationWord → String
  | highest => "highest"
  | lowest => "lowest"
  | prefer => "prefer"
  | ordered => "ordered"

/-- Reads a rule of compatibility. -/
def compatibilityWord? : Toml → Option CompatibilityWord :=
  word? ([CompatibilityWord.equal, .atMost, .ordered].map fun w => (w.text, w))

/-- Reads a rule that chooses between values. -/
def disambiguationWord? : Toml → Option DisambiguationWord :=
  word? ([DisambiguationWord.highest, .lowest, .prefer, .ordered].map fun w => (w.text, w))

theorem compatibilityWord?_text (w : CompatibilityWord) :
    compatibilityWord? (.text w.text) = some w := by
  cases w <;> rfl

theorem disambiguationWord?_text (w : DisambiguationWord) :
    disambiguationWord? (.text w.text) = some w := by
  cases w <;> rfl

/-- Reads the value of an attribute. -/
def value? : Toml → Option Value
  | .boolean b => some (.boolean b)
  | .integer i => some (.integer i)
  | .text s => some (.string s)
  | _ => none

/-- Reads the attributes among the fields of a table. -/
def attributesOf? (f : Fields Toml) : Option Attributes :=
  f.default? "attributes" Table.empty (table? value?)

/-- Reads a list of texts among the fields of a table. -/
def textsOf? (f : Fields Toml) (key : String) : Option (List String) :=
  f.default? key [] (list? text?)

/-! ## Dependencies -/

/-- The fields of a dependency. -/
def declarationFields : List String :=
  ["module", "project", "version", "strictly", "requires", "prefers", "rejects", "for-subgraph",
    "force", "transitive", "excludes", "attributes", "capabilities", "reason", "variant"]

/-- Reads a dependency or a dependency constraint. -/
def declaration? (v : Toml) : Option Declaration := do
  let f ← fields? declarationFields v
  return {
    module := ← f.optional? "module" text?
    project := ← f.optional? "project" text?
    version := ← f.optional? "version" text?
    strictly := ← f.optional? "strictly" text?
    requires := ← f.optional? "requires" text?
    prefers := ← f.optional? "prefers" text?
    rejects := ← textsOf? f "rejects"
    forSubgraph := ← f.default? "for-subgraph" false bool?
    force := ← f.default? "force" false bool?
    transitive := ← f.default? "transitive" true bool?
    excludes := ← textsOf? f "excludes"
    attributes := ← attributesOf? f
    capabilities := ← textsOf? f "capabilities"
    reason := ← f.optional? "reason" text?
    variant := ← f.optional? "variant" text? }

/-- Reads the dependencies or the constraints among the fields of a table. -/
def declarationsOf? (f : Fields Toml) (key : String) : Option (List Declaration) :=
  f.default? key [] (list? declaration?)

/-! ## Rules -/

/-- Reads a substitution. -/
def substitution? (v : Toml) : Option SubstitutionEntry := do
  let f ← fields? ["from", "to", "reason"] v
  return {
    replaced := ← f.required? "from" text?
    replacement := ← f.required? "to" text?
    reason := ← f.optional? "reason" text? }

/-- Reads a version rule. -/
def versionEntry? (v : Toml) : Option VersionEntry := do
  let f ← fields? ["module", "version", "reason"] v
  return {
    module := ← f.required? "module" text?
    version := ← f.required? "version" text?
    reason := ← f.optional? "reason" text? }

/-- Reads a capability rule. -/
def capabilityEntry? (v : Toml) : Option CapabilityEntry := do
  let f ← fields? ["capability", "prefer", "reason"] v
  return {
    capability := ← f.required? "capability" text?
    prefer := ← f.required? "prefer" text?
    reason := ← f.optional? "reason" text? }

/-- Reads the module whose dependencies bind their subgraphs. -/
def subgraph? (v : Toml) : Option String := do
  let f ← fields? ["module"] v
  f.required? "module" text?

/-- Reads the rules of a resolution. -/
def rules? (v : Toml) : Option RuleEntries := do
  let f ← fields? ["force", "substitute", "use-version", "capability", "subgraph"] v
  return {
    force := ← textsOf? f "force"
    substitutions := ← f.default? "substitute" [] (list? substitution?)
    versions := ← f.default? "use-version" [] (list? versionEntry?)
    capabilities := ← f.default? "capability" [] (list? capabilityEntry?)
    subgraphs := ← f.default? "subgraph" [] (list? subgraph?) }

/-! ## Schema -/

/-- Reads the rules of an attribute. -/
def attributeEntry? (v : Toml) : Option AttributeEntry := do
  let f ← fields? ["compatibility", "disambiguation", "value", "values"] v
  return {
    compatibility := ← f.optional? "compatibility" compatibilityWord?
    disambiguation := ← f.optional? "disambiguation" disambiguationWord?
    value := ← f.optional? "value" value?
    values := ← f.default? "values" [] (list? value?) }

/-! ## Variants and components -/

/-- Reads a file. -/
def fileEntry? (v : Toml) : Option FileEntry := do
  let f ← fields? ["path", "name", "url"] v
  return {
    path := ← f.required? "path" text?
    name := ← f.optional? "name" text?
    url := ← f.optional? "url" text? }

/-- The fields of a variant. -/
def variantFields : List String :=
  ["name", "attributes", "files", "capabilities", "inherit-dependencies", "dependencies",
    "constraints", "excludes", "available-at"]

/-- Reads a variant. -/
def variantEntry? (v : Toml) : Option VariantEntry := do
  let f ← fields? variantFields v
  return {
    name := ← f.required? "name" text?
    attributes := ← attributesOf? f
    files := ← f.default? "files" [] (list? fileEntry?)
    capabilities := ← textsOf? f "capabilities"
    inheritDependencies := ← f.default? "inherit-dependencies" false bool?
    dependencies := ← declarationsOf? f "dependencies"
    constraints := ← declarationsOf? f "constraints"
    excludes := ← textsOf? f "excludes"
    availableAt := ← f.optional? "available-at" text? }

/-- Reads a component. -/
def component? (v : Toml) : Option Component := do
  let f ← fields? ["group", "module", "version", "attributes", "owner"] v
  return {
    group := ← f.required? "group" text?
    module := ← f.required? "module" text?
    version := ← f.required? "version" text?
    attributes := ← attributesOf? f
    owner := ← f.optional? "owner" text? }

/-- Reads what a project asks of the variants of its dependencies. -/
def consumer? (v : Toml) : Option Attributes := do
  let f ← fields? ["attributes"] v
  attributesOf? f

/-! ## Manifests -/

/-- The fields of a manifest. -/
def manifestFields : List String :=
  ["repository", "component", "consumer", "dependencies", "constraints", "resolution", "schema",
    "projects", "variants"]

/-- Reads a manifest from a TOML value. -/
def ofToml? (v : Toml) : Option Manifest := do
  let f ← fields? manifestFields v
  return {
    repository := ← f.optional? "repository" text?
    component := ← f.required? "component" component?
    consumer := ← f.default? "consumer" Table.empty consumer?
    dependencies := ← declarationsOf? f "dependencies"
    constraints := ← declarationsOf? f "constraints"
    rules := ← f.default? "resolution" {} rules?
    schema := ← f.default? "schema" Table.empty (table? attributeEntry?)
    projects := ← f.default? "projects" Table.empty (table? text?)
    variants := ← f.default? "variants" [] (list? variantEntry?) }

/-- Reads a manifest. -/
def parse? (content : String) : Option Manifest := (Toml.parse? content).bind ofToml?

/-- Reads a manifest, or says that the text is none. -/
def read (content : String) : Except ManifestError Manifest :=
  match parse? content with
  | some m => .ok m
  | none => .error .malformed

end VariantGraph.Manifest
