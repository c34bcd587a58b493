import SolidityLint.Json.Value

/-!
# Writing JSON

Values are written over several lines, two blanks to a level. Quotes, back slashes and
control characters are escaped; every other character stands for itself.
-/

namespace SolidityLint.Json

/-- How a character is written inside a text. -/
def escape (c : Char) : List Char :=
  if c = '"' then ['\\', '"']
  else if c = '\\' then ['\\', '\\']
  else if c = '\x08' then ['\\', 'b']
  else if c = '\x0c' then ['\\', 'f']
  else if c = '\n' then ['\\', 'n']
  else if c = '\r' then ['\\', 'r']
  else if c = '\t' then ['\\', 't']
  else if c < ' ' then ['\\', 'u', '0', '0'] ++ Digits.twoHex c.toNat
  else [c]

/-- A text between quotes. -/
def writeText (s : String) : List Char := '"' :: s.toList.flatMap escape ++ ['"']

/-- A number from its parts. -/
def Number.write (n : Number) : List Char :=
  (if n.negative then ['-'] else []) ++ n.whole
    ++ (match n.fraction with
      | some ds => '.' :: ds
      | none => [])
    ++ match n.exponent with
      | some e => 'e' :: (toString e).toList
      | none => []

/-- A line break, and the blanks before what stands at a level. -/
def newline (level : Nat) : List Char := '\n' :: List.replicate (2 * level) ' '

namespace Value

mutual

/-- A value that stands at a level. -/
def write (level : Nat) : Value → List Char
  | null => ['n', 'u', 'l', 'l']
  | bool b => if b then ['t', 'r', 'u', 'e'] else ['f', 'a', 'l', 's', 'e']
  | natural n => Nat.toDigits 10 n.toNat
  | decimal n => n.write
  | text s => writeText s
  | array [] => ['[', ']']
  | array (v :: vs) =>
    '[' :: newline (level + 1) ++ v.write (level + 1) ++ writeItems (level + 1) vs
      ++ newline level ++ [']']
  | object [] => ['{', '}']
  | object ((k, v) :: ms) =>
    '{' :: newline (level + 1) ++ writeText k ++ [':', ' '] ++ v.write (level + 1)
      ++ writeMembers (level + 1) ms ++ newline level ++ ['}']
  | garbled => ['n', 'u', 'l', 'l']

/-- The items after the first. -/
def writeItems (level : Nat) : List Value → List Char
  | [] => []
  | v :: vs => ',' :: newline level ++ v.write level ++ writeItems level vs

/-- The members after the first. -/
def writeMembers (level : Nat) : List (String × Value) → List Char
  | [] => []
  | (k, v) :: ms =>
    ',' :: newline level ++ writeText k ++ [':', ' '] ++ v.write level
      ++ writeMembers level ms

end

/-- The value as text. -/
def pretty (v : Value) : String := String.ofList (v.write 0)

end Value

end SolidityLint.Json
