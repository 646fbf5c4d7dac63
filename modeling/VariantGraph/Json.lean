/-!
# JSON values

The syntax tree of a JSON text. Strings and numbers are kept as they are written, escapes included,
because a text may hold members that nobody looks at and that need not denote anything: `Json.Text`
and `Json.Number` say what a string and a number denote.
-/

namespace VariantGraph

/-- The syntax tree of a JSON text. -/
inductive Json where
  | null
  | bool (value : Bool)
  /-- The digits, sign, fraction and exponent as written. -/
  | number (written : String)
  /-- The characters between the quotes as written. -/
  | string (written : String)
  | array (items : List Json)
  | object (members : List (String × Json))
deriving Inhabited

end VariantGraph
