/-!
# Fields

What a structured value is read from: the values of its fields by their names. A field has to be
there, or has a value of its own when it is absent, or is optional.
-/

namespace VariantGraph

/-- Values by the names of fields. -/
abbrev Fields (ν : Type) := List (String × ν)

namespace Fields

variable {ν α : Type}

/-- The value of a field. -/
def get? (f : Fields ν) (key : String) : Option ν := f.lookup key

/-- A field that has to be there. -/
def required? (f : Fields ν) (key : String) (value : ν → Option α) : Option α :=
  (f.get? key).bind value

/-- A field that has a value of its own when it is absent. -/
def default? (f : Fields ν) (key : String) (absent : α) (value : ν → Option α) : Option α :=
  match f.get? key with
  | none => some absent
  | some v => value v

/-- A field that may be absent. -/
def optional? (f : Fields ν) (key : String) (value : ν → Option α) : Option (Option α) :=
  f.default? key none fun v => (value v).map some

end Fields

end VariantGraph
