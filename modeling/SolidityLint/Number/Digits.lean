/-!
# Digits

Digits of the bases up to sixteen, and the numbers that runs of them stand for.
-/

namespace SolidityLint.Digits

/-- The value of a hexadecimal digit. -/
def value? (c : Char) : Option Nat :=
  if '0' ≤ c ∧ c ≤ '9' then some (c.toNat - '0'.toNat)
  else if 'a' ≤ c ∧ c ≤ 'f' then some (c.toNat - 'a'.toNat + 10)
  else if 'A' ≤ c ∧ c ≤ 'F' then some (c.toNat - 'A'.toNat + 10)
  else none

/-- Whether a character is a digit in a base. -/
def isDigitIn (base : Nat) (c : Char) : Bool :=
  match value? c with
  | some d => d < base
  | none => false

/-- The number that a run of digits stands for in a base. -/
def toNat (base : Nat) (ds : List Char) : Nat :=
  ds.foldl (fun n d => n * base + (value? d).getD 0) 0

/-- The number that hexadecimal digits stand for, if they all are. -/
def ofHex? (cs : List Char) : Option Nat :=
  cs.foldlM (fun n c => (value? c).map (n * 16 + ·)) 0

/-- A number below 256 as two hexadecimal digits. -/
def twoHex (n : Nat) : List Char := [Nat.digitChar (n / 16), Nat.digitChar (n % 16)]

/-- Takes a sign off the front; whether it is a minus. -/
def splitSign : List Char → Bool × List Char
  | '+' :: cs => (false, cs)
  | '-' :: cs => (true, cs)
  | cs => (false, cs)

end SolidityLint.Digits
