import VariantGraph.Document
import VariantGraph.Json.Fields
import VariantGraph.Json.Reader

/-!
# Reading documents

A document is read from its JSON text. Unknown fields are passed over, a known field may not be
repeated, and only optional fields may be null. A variant is available at another module when its
link is one; otherwise it is read as holding its content, and a broken link counts as an unknown
field. Everything in a variant has to denote something, also what is passed over.
-/

namespace VariantGraph.Document

open VariantGraph.Json

/-! ## Parts of a document -/

/-- Reads an attribute value. -/
def scalar? (j : Json) : Option Scalar :=
  (bool? j).map .boolean <|> (int64? j).map .integer <|> (text? j).map .text

/-- Reads attributes; the last value of a name counts. -/
def scalars? (j : Json) : Option Scalars :=
  (members? j).bind fun l =>
    (l.mapM fun m => (scalar? m.2).map fun v => (m.1, v)).map Table.ofList

/-- The attributes among some fields. -/
def attributesOf? (f : Fields Json) : Option Scalars := f.default? "attributes" Table.empty scalars?

/-- Reads a capability. -/
def capability? (j : Json) : Option Capability := do
  let f ← fields? ["group", "name", "version"] j
  return {
    group := ← f.required? "group" text?
    name := ← f.required? "name" text?
    version := ← nullableField? f "version" text? }

/-- Reads a version constraint. -/
def version? (j : Json) : Option Version := do
  let f ← fields? ["strictly", "requires", "prefers", "rejects", "forSubgraph"] j
  return {
    strictly := ← nullableField? f "strictly" text?
    requires := ← nullableField? f "requires" text?
    prefers := ← nullableField? f "prefers" text?
    rejects := ← f.default? "rejects" [] (list? text?)
    forSubgraph := ← f.default? "forSubgraph" false bool? }

/-- Reads an exclude rule. -/
def exclude? (j : Json) : Option Exclude := do
  let f ← fields? ["group", "module"] j
  return { group := ← f.required? "group" text?, module := ← f.required? "module" text? }

/-- Reads a dependency. -/
def dependency? (j : Json) : Option Dependency := do
  let f ← fields?
    ["group", "module", "version", "excludes", "attributes", "requestedCapabilities", "reason"] j
  return {
    group := ← f.required? "group" text?
    module := ← f.required? "module" text?
    version := ← nullableField? f "version" version?
    excludes := ← f.default? "excludes" [] (list? exclude?)
    attributes := ← attributesOf? f
    requestedCapabilities := ← f.default? "requestedCapabilities" [] (list? capability?)
    reason := ← nullableField? f "reason" text? }

/-- Reads a dependency constraint. -/
def constraint? (j : Json) : Option Constraint := do
  let f ← fields? ["group", "module", "version", "attributes", "reason"] j
  return {
    group := ← f.required? "group" text?
    module := ← f.required? "module" text?
    version := ← nullableField? f "version" version?
    attributes := ← attributesOf? f
    reason := ← nullableField? f "reason" text? }

/-- Reads a file. -/
def file? (j : Json) : Option FileRef := do
  let f ← fields? ["name", "url", "size", "sha1", "md5"] j
  return {
    name := ← f.required? "name" text?
    url := ← f.required? "url" text?
    size := ← f.required? "size" uint64?
    sha1 := ← f.required? "sha1" text?
    md5 := ← f.required? "md5" text? }

/-- Reads a link. -/
def link? (j : Json) : Option Link := do
  let f ← fields? ["url", "group", "module", "version"] j
  return {
    url := ← f.required? "url" text?
    group := ← f.required? "group" text?
    module := ← f.required? "module" text?
    version := ← f.required? "version" text? }

/-! ## Variants -/

/-- The link of a variant, if its members hold a proper one. -/
def linkOf? (members : List (String × Json)) : Option Link := do
  let f ← fieldsOfMembers? ["available-at"] members
  f.required? "available-at" link?

/-- The content of a variant. -/
def contentOf? (members : List (String × Json)) : Option Content := do
  let f ← fieldsOfMembers?
    ["dependencies", "dependencyConstraints", "files", "capabilities"] members
  return {
    dependencies := ← f.default? "dependencies" [] (list? dependency?)
    constraints := ← f.default? "dependencyConstraints" [] (list? constraint?)
    files := ← f.default? "files" [] (list? file?)
    capabilities := ← f.default? "capabilities" [] (list? capability?) }

/-- Where a variant is: at another module if there is a proper link, else here. -/
def source? (members : List (String × Json)) : Option Source :=
  (linkOf? members).map .availableAt <|> (contentOf? members).map .here

/-- The number of levels that may be nested in a member of a variant. The document, its list of
variants and the variant are three of the 127 levels that a document may have. -/
def memberLevels : Nat := 127 - 3

/-- Reads a variant. -/
def variant? (j : Json) : Option Variant := do
  let members ← members? j
  let f ← fieldsOfMembers? ["name", "attributes"] members
  let others := members.filter fun m => m.1 != "name" && m.1 != "attributes"
  if others.all fun m => isSound memberLevels m.2 then
    return {
      name := ← f.required? "name" text?
      attributes := ← attributesOf? f
      source := ← source? others }
  else none

/-! ## Documents -/

/-- Reads a component. -/
def component? (j : Json) : Option Component := do
  let f ← fields? ["url", "group", "module", "version", "attributes"] j
  return {
    url := ← nullableField? f "url" text?
    group := ← f.required? "group" text?
    module := ← f.required? "module" text?
    version := ← f.required? "version" text?
    attributes := ← attributesOf? f }

/-- Reads the version and the build of a tool. -/
def toolFields? (j : Json) : Option Tool := do
  let f ← fields? ["version", "buildId"] j
  return { version := ← f.required? "version" text?, buildId := ← nullableField? f "buildId" text? }

/-- Reads the tool that wrote a document. -/
def tool? (j : Json) : Option Tool := do
  let f ← fields? ["gradle"] j
  f.required? "gradle" toolFields?

/-- Reads a document from its syntax tree. -/
def ofJson? (j : Json) : Option Document := do
  let f ← fields? ["formatVersion", "component", "createdBy", "variants"] j
  return {
    formatVersion := ← f.required? "formatVersion" text?
    component := ← f.required? "component" component?
    createdBy := ← nullableField? f "createdBy" tool?
    variants := ← f.default? "variants" [] (list? variant?) }

/-- Reads a document. -/
def parse? (content : String) : Option Document := (Json.parse? content).bind ofJson?

/-- Reads a document, or says that the text is none. -/
def read (content : String) : Except DocumentError Document :=
  match parse? content with
  | some d => .ok d
  | none => .error .malformed

end VariantGraph.Document
