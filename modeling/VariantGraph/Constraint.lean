/-!
# Version constraints

What a dependency says about the version of a module. A strict version implies a required one, and a
required one a preferred one: the first of these that is present defines the request. Rejected
selectors are taken out of the candidates, and a constraint for the subgraph binds every node below
the one that declares it.
-/

namespace VariantGraph

/-- A request for a version. -/
structure VersionConstraint where
  preferred : Option String := none
  required : Option String := none
  strict : Option String := none
  rejects : List String := []
  forSubgraph : Bool := false
deriving DecidableEq, Repr, Inhabited

namespace VersionConstraint

/-- The constraint that asks for nothing. -/
def any : VersionConstraint := {}

/-- The plain request for a version. -/
def require (version : String) : VersionConstraint := { required := some version }

/-- The request for exactly a version. -/
def strictly (version : String) : VersionConstraint :=
  { required := some version, strict := some version }

/-- Whether the constraint says nothing at all. -/
def isEmpty (c : VersionConstraint) : Bool :=
  c.preferred.isNone && c.required.isNone && c.strict.isNone && c.rejects.isEmpty &&
    !c.forSubgraph

/-- Whether the constraint is strict. -/
def isStrict (c : VersionConstraint) : Bool := c.strict.isSome

/-- Whether a version is demanded, and not only preferred or rejected. -/
def isRequired (c : VersionConstraint) : Bool := c.strict.isSome || c.required.isSome

/-- The version that defines the request: strict before required before preferred. -/
def requestedVersion (c : VersionConstraint) : Option String :=
  c.strict <|> c.required <|> c.preferred

/-- The parts of the text of a constraint. -/
def textParts (c : VersionConstraint) : List String :=
  (match c.strict, c.required with
    | some s, _ => ["strictly " ++ s]
    | none, some r => [r]
    | none, none => []) ++
  (c.preferred.toList.map fun p => "prefer " ++ p) ++
  (if c.rejects.isEmpty then [] else ["reject " ++ " | ".intercalate c.rejects]) ++
  (if c.forSubgraph then ["for subgraph"] else [])

/-- How a constraint is shown. -/
def text (c : VersionConstraint) : String :=
  if c.textParts.isEmpty then "<any>" else ", ".intercalate c.textParts

@[simp] theorem requestedVersion_require (v : String) :
    (require v).requestedVersion = some v := rfl

@[simp] theorem requestedVersion_strictly (v : String) :
    (strictly v).requestedVersion = some v := rfl

end VersionConstraint

end VariantGraph
