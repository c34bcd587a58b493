import SolidityLint.Toml.DateTime

/-!
# TOML values

What a configuration file can hold. Integers have 64 bits, and floating point numbers
are kept as their bits, so that two values are equal exactly when they are written the
same way.
-/

namespace SolidityLint.Toml

/-- A TOML value. -/
inductive Value where
  | text (s : String)
  | integer (n : Int64)
  | boolean (b : Bool)
  /-- A floating point number in double precision. -/
  | float (bits : UInt64)
  | moment (d : DateTime)
  | array (items : List Value)
  | table (entries : List (String × Value))
  deriving Inhabited, Repr

end SolidityLint.Toml
