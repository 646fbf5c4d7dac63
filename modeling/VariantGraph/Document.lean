import VariantGraph.Path
import VariantGraph.Variant

/-!
# Module documents

The metadata of a published module version as it is written to a file: the identity of the
component, the tool that wrote it, and the variants, each either with its content or with a link to
the module version at which it is available.

Documents hold attribute values of three types only. Written constraints, excludes and coordinates
are kept as they are in the document; `VariantGraph.Document.Meaning` says what they mean.
-/

namespace VariantGraph

/-- An attribute value that documents can hold. -/
inductive Scalar where
  | boolean (value : Bool)
  | integer (value : Int64)
  | text (value : String)
deriving DecidableEq

namespace Document

/-- Attributes as a document holds them, by name. -/
abbrev Scalars := Table String Scalar

/-- A version constraint. -/
structure Version where
  strictly : Option String := none
  requires : Option String := none
  prefers : Option String := none
  rejects : List String := []
  forSubgraph : Bool := false
deriving DecidableEq

/-- An exclude rule, with `*` for anything. -/
structure Exclude where
  group : String
  module : String
deriving DecidableEq

/-- A dependency. -/
structure Dependency where
  group : String
  module : String
  version : Option Version := none
  excludes : List Exclude := []
  attributes : Scalars := Table.empty
  requestedCapabilities : List Capability := []
  reason : Option String := none
deriving DecidableEq

/-- A dependency constraint. -/
structure Constraint where
  group : String
  module : String
  version : Option Version := none
  attributes : Scalars := Table.empty
  reason : Option String := none
deriving DecidableEq

/-- What a variant contains. -/
structure Content where
  dependencies : List Dependency := []
  constraints : List Constraint := []
  files : List FileRef := []
  capabilities : List Capability := []
deriving DecidableEq

/-- A link to the module version that holds a variant. -/
structure Link where
  url : String
  group : String
  module : String
  version : String
deriving DecidableEq

/-- Where the content of a variant is. -/
inductive Source where
  | availableAt (link : Link)
  | here (content : Content)
deriving DecidableEq

/-- A variant. -/
structure Variant where
  name : String
  attributes : Scalars := Table.empty
  source : Source
deriving DecidableEq

/-- The identity of a component. The address is present when the component is owned by another
one, whose coordinates are given then. -/
structure Component where
  url : Option String := none
  group : String
  module : String
  version : String
  attributes : Scalars := Table.empty
deriving DecidableEq

/-- The tool that wrote a document. -/
structure Tool where
  version : String
  buildId : Option String := none
deriving DecidableEq

end Document

/-- A module document. -/
structure Document where
  formatVersion : String
  component : Document.Component
  createdBy : Option Document.Tool := none
  variants : List Document.Variant := []
deriving DecidableEq

/-- The version of the document format. -/
def Document.currentFormat : String := "1.1"

/-- Why a document could not be had. -/
inductive DocumentError where
  /-- The text is no document. -/
  | malformed
  /-- The file cannot be read. -/
  | unreadable (file : Path)
deriving DecidableEq, Repr

/-- What a reader is told. -/
def DocumentError.message : DocumentError → String
  | malformed => "Invalid module metadata: Failed to parse module document"
  | unreadable file => "Invalid module metadata: Failed to read " ++ file.text

end VariantGraph
