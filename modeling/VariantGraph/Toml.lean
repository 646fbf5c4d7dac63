/-!
# TOML values

What a TOML text denotes: tables of values by their keys. Floating-point numbers are kept as they
are written, dates and times in their standard form.
-/

namespace VariantGraph

/-- A TOML value. -/
inductive Toml where
  | boolean (value : Bool)
  | integer (value : Int64)
  | float (written : String)
  /-- A date, a time or both, in its standard form. -/
  | dateTime (standard : String)
  | text (value : String)
  | array (items : List Toml)
  | table (entries : List (String × Toml))
deriving Inhabited

end VariantGraph
