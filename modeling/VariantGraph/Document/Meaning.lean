import VariantGraph.Document

/-!
# What a document means

A document that was found under some coordinates gives the module data of these coordinates: the
identity that it states itself may be that of its owner and does not count. A strict version is also
a required one, and `*` in an exclude rule stands for anything.

Main statements: `moduleData_id` and `variants_moduleData`.
-/

namespace VariantGraph.Document

/-! ## Attributes -/

/-- The attribute value that a document holds. -/
def Scalar.toValue : Scalar → Value
  | .boolean b => .boolean b
  | .integer i => .integer i
  | .text s => .string s

/-- The attributes that a document holds. -/
def toAttributes (a : Scalars) : Attributes := a.mapValues Scalar.toValue

/-- An attribute value as a document can hold it. Names become texts. -/
def Scalar.ofValue? : Value → Option Scalar
  | .boolean b => some (.boolean b)
  | .integer i => some (.integer i)
  | .string s | .named s => some (.text s)
  | .foreign _ _ => none

/-- An attribute whose value no document can hold. -/
structure UnwritableValue where
  name : String
  /-- The value as it is shown. -/
  shown : String
  typeName : String
deriving DecidableEq, Repr

/-- What a reader is told. -/
def UnwritableValue.message (u : UnwritableValue) : String :=
  "Cannot write attribute " ++ u.name ++ " with unsupported value " ++ u.shown ++ " of type " ++
    u.typeName ++ "."

/-- The first attribute in the order of names whose value no document can hold. -/
def unwritable? (a : Attributes) : Option UnwritableValue :=
  a.toList.findSome? fun e =>
    match e.2 with
    | .foreign typeName shown => some ⟨e.1, shown, typeName⟩
    | _ => none

/-- Attributes as a document holds them. -/
def ofAttributes (a : Attributes) : Except UnwritableValue Scalars :=
  match unwritable? a with
  | some u => .error u
  | none => .ok (a.mapValues fun v => (Scalar.ofValue? v).getD (.text v.text))

/-! ## Dependencies -/

/-- The constraint that a written version means. -/
def Version.toConstraint (v : Version) : VersionConstraint where
  preferred := v.prefers
  required := v.requires <|> v.strictly
  strict := v.strictly
  rejects := v.rejects
  forSubgraph := v.forSubgraph

/-- The constraint of a dependency that may have no version. -/
def constraintOf (v : Option Version) : VersionConstraint :=
  (v.map Version.toConstraint).getD VersionConstraint.any

/-- The rule that a written exclude means. -/
def Exclude.toRule (e : Exclude) : ExcludeRule :=
  ⟨ExcludeRule.partOf e.group, ExcludeRule.partOf e.module⟩

/-- The dependency that is written. -/
def Dependency.meaning (d : Dependency) : VariantGraph.Dependency :=
  { module := ⟨d.group, d.module⟩
    constraint := constraintOf d.version
    excludes := OrderedSet.ofElements (d.excludes.map Exclude.toRule)
    attributes := toAttributes d.attributes
    capabilities := d.requestedCapabilities.map Capability.id
    reason := d.reason }

/-- The dependency constraint that is written. -/
def Constraint.meaning (c : Constraint) : DependencyConstraint :=
  { module := ⟨c.group, c.module⟩
    constraint := constraintOf c.version
    attributes := toAttributes c.attributes
    reason := c.reason }

/-! ## Variants and module data -/

/-- The coordinates that a link names. -/
def Link.coordinates (l : Link) : Coordinates := ⟨l.group, l.module, l.version⟩

/-- The variant that is written. One that is available elsewhere declares no capabilities. -/
def Variant.meaning (v : Variant) : VariantGraph.Variant :=
  match v.source with
  | .availableAt link =>
    { name := v.name
      attributes := toAttributes v.attributes
      capabilities := []
      source := .availableAt link.coordinates }
  | .here c =>
    { name := v.name
      attributes := toAttributes v.attributes
      capabilities := c.capabilities
      source := .here
        { dependencies := c.dependencies.map Dependency.meaning
          constraints := c.constraints.map Constraint.meaning
          files := c.files } }

/-- The module data of a document that was found under some coordinates. -/
def moduleData (d : Document) (id : Coordinates) : ModuleData :=
  { id := id
    attributes := toAttributes d.component.attributes
    variants := d.variants.map Variant.meaning }

@[simp] theorem moduleData_id (d : Document) (id : Coordinates) : (d.moduleData id).id = id := rfl

@[simp] theorem variants_moduleData (d : Document) (id : Coordinates) :
    (d.moduleData id).variants = d.variants.map Variant.meaning := rfl

end VariantGraph.Document
