import VariantGraph.Document
import VariantGraph.Json.Printer

/-!
# Writing documents

A document becomes a JSON object whose fields come in a fixed order. Optional fields and empty lists
are left out; the version of a capability is written even when there is none, as null. The text is
indented and ends with a line end.
-/

namespace VariantGraph.Document

/-! ## Fields -/

/-- A field that is always written. -/
def field (key : String) (value : Json) : List (String × Json) := [Json.member key value]

/-- A field that is written when there is a value. -/
def optionalField {α : Type} (key : String) (value : α → Json) : Option α → List (String × Json)
  | none => []
  | some v => field key (value v)

/-- A list that is written when it is not empty. -/
def listField {α : Type} (key : String) (item : α → Json) (l : List α) : List (String × Json) :=
  if l.isEmpty then [] else field key (.array (l.map item))

/-- Text as a value. -/
def textJson (s : String) : Json := Json.ofText s

/-! ## Parts of a document -/

/-- The JSON value of an attribute value. -/
def scalarJson : Scalar → Json
  | .boolean b => .bool b
  | .integer i => Json.ofInt i.toInt
  | .text s => textJson s

/-- The JSON value of attributes, with a member for each name. -/
def scalarsJson (a : Scalars) : Json :=
  .object (a.toList.map fun e => Json.member e.1 (scalarJson e.2))

/-- The attributes, if there are some. -/
def attributesField (a : Scalars) : List (String × Json) :=
  if a.isEmpty then [] else field "attributes" (scalarsJson a)

/-- The JSON value of a capability. -/
def capabilityJson (c : Capability) : Json :=
  .object (field "group" (textJson c.group) ++ field "name" (textJson c.name) ++
    field "version" ((c.version.map textJson).getD .null))

/-- The JSON value of a version constraint. -/
def versionJson (v : Version) : Json :=
  .object (optionalField "strictly" textJson v.strictly ++
    optionalField "requires" textJson v.requires ++ optionalField "prefers" textJson v.prefers ++
    listField "rejects" textJson v.rejects ++
    if v.forSubgraph then field "forSubgraph" (.bool true) else [])

/-- The JSON value of an exclude rule. -/
def excludeJson (e : Exclude) : Json :=
  .object (field "group" (textJson e.group) ++ field "module" (textJson e.module))

/-- The JSON value of a dependency. -/
def dependencyJson (d : Dependency) : Json :=
  .object (field "group" (textJson d.group) ++ field "module" (textJson d.module) ++
    optionalField "version" versionJson d.version ++ listField "excludes" excludeJson d.excludes ++
    attributesField d.attributes ++
    listField "requestedCapabilities" capabilityJson d.requestedCapabilities ++
    optionalField "reason" textJson d.reason)

/-- The JSON value of a dependency constraint. -/
def constraintJson (c : Constraint) : Json :=
  .object (field "group" (textJson c.group) ++ field "module" (textJson c.module) ++
    optionalField "version" versionJson c.version ++ attributesField c.attributes ++
    optionalField "reason" textJson c.reason)

/-- The JSON value of a file. -/
def fileJson (f : FileRef) : Json :=
  .object (field "name" (textJson f.name) ++ field "url" (textJson f.url) ++
    field "size" (Json.ofInt f.size.toNat) ++ field "sha1" (textJson f.sha1) ++
    field "md5" (textJson f.md5))

/-- The JSON value of a link. -/
def linkJson (l : Link) : Json :=
  .object (field "url" (textJson l.url) ++ field "group" (textJson l.group) ++
    field "module" (textJson l.module) ++ field "version" (textJson l.version))

/-- The fields of the content of a variant. -/
def contentFields (c : Content) : List (String × Json) :=
  listField "dependencies" dependencyJson c.dependencies ++
    listField "dependencyConstraints" constraintJson c.constraints ++
    listField "files" fileJson c.files ++ listField "capabilities" capabilityJson c.capabilities

/-- The fields that say where a variant is. -/
def sourceFields : Source → List (String × Json)
  | .availableAt link => field "available-at" (linkJson link)
  | .here content => contentFields content

/-- The JSON value of a variant. -/
def variantJson (v : Variant) : Json :=
  .object (field "name" (textJson v.name) ++ attributesField v.attributes ++ sourceFields v.source)

/-- The JSON value of a component. -/
def componentJson (c : Component) : Json :=
  .object (optionalField "url" textJson c.url ++ field "group" (textJson c.group) ++
    field "module" (textJson c.module) ++ field "version" (textJson c.version) ++
    attributesField c.attributes)

/-- The JSON value of the tool, under the name of the format's first tool. -/
def toolJson (t : Tool) : Json :=
  .object (field "gradle" (.object (field "version" (textJson t.version) ++
    optionalField "buildId" textJson t.buildId)))

/-- The JSON value of a document. -/
def toJson (d : Document) : Json :=
  .object (field "formatVersion" (textJson d.formatVersion) ++
    field "component" (componentJson d.component) ++
    optionalField "createdBy" toolJson d.createdBy ++
    listField "variants" variantJson d.variants)

/-- The text of a document. -/
def write (d : Document) : String := Json.pretty 0 d.toJson ++ "\n"

end VariantGraph.Document
