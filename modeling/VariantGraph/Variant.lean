import VariantGraph.Dependency

/-!
# Variants and module data

A module version publishes variants: views of it with their own attributes, capabilities,
dependencies and files. The content of a variant is either part of the module itself or published by
another module, at which it is available.
-/

namespace VariantGraph

/-- A file of a variant. -/
structure FileRef where
  name : String
  url : String
  size : UInt64
  sha1 : String
  md5 : String
deriving DecidableEq

/-- What a variant that belongs to the module itself contains. -/
structure LocalContent where
  dependencies : List Dependency := []
  constraints : List DependencyConstraint := []
  files : List FileRef := []
deriving DecidableEq

/-- Where the content of a variant lives. -/
inductive VariantSource where
  | here (content : LocalContent)
  /-- The content is a variant of another module. -/
  | availableAt (target : Coordinates)
deriving DecidableEq

/-- A published view of a module. -/
structure Variant where
  name : String
  attributes : Attributes
  capabilities : List Capability
  source : VariantSource
deriving DecidableEq

namespace Variant

/-- The content of a variant; a variant that lives elsewhere has none of its own. -/
def content (v : Variant) : LocalContent :=
  match v.source with
  | .here content => content
  | .availableAt _ => {}

/-- The dependencies that the variant declares itself. -/
def dependencies (v : Variant) : List Dependency := v.content.dependencies

/-- The dependency constraints that the variant declares itself. -/
def constraints (v : Variant) : List DependencyConstraint := v.content.constraints

/-- The files of the variant itself. -/
def files (v : Variant) : List FileRef := v.content.files

/-- The module version that holds the content, if it is another one. -/
def availableAt? (v : Variant) : Option Coordinates :=
  match v.source with
  | .here _ => none
  | .availableAt target => some target

/-- The capabilities that the variant provides as part of a module version. -/
def provided (v : Variant) (m : ModuleId) (version : String) : List Capability :=
  Capability.effective m version v.capabilities

/-- How a variant is shown. -/
def text (v : Variant) : String := v.name ++ " " ++ v.attributes.text

end Variant

/-- All that is known of a module version. -/
structure ModuleData where
  id : Coordinates
  attributes : Attributes := Table.empty
  variants : List Variant := []
  /-- Files that are used when there are no variants. -/
  artifacts : List FileRef := []
deriving DecidableEq

namespace ModuleData

/-- The first variant of a name. -/
def variant? (d : ModuleData) (name : String) : Option Variant :=
  d.variants.find? fun v => v.name == name

/-- The capabilities that a variant of the module provides. -/
def provided (d : ModuleData) (v : Variant) : List Capability :=
  v.provided d.id.module d.id.version

theorem name_of_variant? {d : ModuleData} {name : String} {v : Variant}
    (h : d.variant? name = some v) : v.name = name ∧ v ∈ d.variants := by
  have h1 := List.find?_some h
  exact ⟨by simpa using h1, List.mem_of_find?_eq_some h⟩

end ModuleData

end VariantGraph
