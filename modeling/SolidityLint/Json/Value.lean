import SolidityLint.Json.Number

/-!
# JSON values

Values keep their members in the order in which they are written. Numbers matter to the
linter only when they count something, so a number is either a natural number of 64
bits or the parts it was written with.
-/

namespace SolidityLint.Json

/-- A JSON value. -/
inductive Value where
  | null
  | bool (b : Bool)
  /-- A number written as plain digits that fits in 64 bits. -/
  | natural (n : UInt64)
  /-- Any other number. -/
  | decimal (n : Number)
  | text (s : String)
  | array (items : List Value)
  | object (members : List (String × Value))
  /-- A text or an object key with an escape that stands for no character. Only a
  tolerant reader yields it. -/
  | garbled
  deriving Inhabited, Repr

namespace Value

/-- The member of that name, if the value is an object and has one. -/
def member? (v : Value) (key : String) : Option Value :=
  match v with
  | object members => members.lookup key
  | _ => none

/-- The text a value is, if it is one. -/
def text? : Value → Option String
  | text s => some s
  | _ => none

/-- The truth value a value is, if it is one. -/
def bool? : Value → Option Bool
  | bool b => some b
  | _ => none

/-- The natural number a value is, if it is one. -/
def natural? : Value → Option UInt64
  | natural n => some n
  | _ => none

/-- The items of an array. -/
def items? : Value → Option (List Value)
  | array items => some items
  | _ => none

end Value

end SolidityLint.Json
