import SolidityLint.Number.Binary64
import SolidityLint.Toml.Text
import SolidityLint.Toml.Value

/-!
# TOML numbers

Single underscores may stand between digits. Whole numbers have no leading zeros and fit
in 64 bits with a sign; those in another base have a mark in front and no sign. A number
with a fraction or an exponent is read as the nearest floating point value.
-/

namespace SolidityLint.Toml

/-- Reads the digits of a run after its first; those read so far are given, the latest
first. An underscore has to stand between two digits. -/
def runTail? (isDigit : Char → Bool) (acc : List Char) : List Char → Option (List Char × List Char)
  | '_' :: d :: cs => if isDigit d then runTail? isDigit (d :: acc) cs else none
  | ['_'] => none
  | c :: cs => if isDigit c then runTail? isDigit (c :: acc) cs else some (acc.reverse, c :: cs)
  | [] => some (acc.reverse, [])

/-- Reads a run of digits, without its underscores. -/
def run? (isDigit : Char → Bool) : List Char → Option (List Char × List Char)
  | c :: cs => if isDigit c then runTail? isDigit [c] cs else none
  | [] => none

/-- Reads decimal digits without a leading zero. -/
def whole? : List Char → Option (List Char × List Char)
  | '0' :: cs => some (['0'], cs)
  | cs => run? Char.isDigit cs

/-- The integer with a sign and a size, if it fits in 64 bits. -/
def signed? (negative : Bool) (n : Nat) : Option Value :=
  if negative then
    if n ≤ Int64.maxValue.toNatClampNeg + 1 then some (.integer (Int64.ofInt (-(n : Int))))
    else none
  else if n ≤ Int64.maxValue.toNatClampNeg then some (.integer (Int64.ofNat n))
  else none

/-- Reads an integer in a base, behind the mark for the base. -/
def based? (base : Nat) (cs : List Char) : Option (Value × List Char) := do
  let (ds, rest) ← run? (Digits.isDigitIn base) cs
  return (← signed? false (Digits.toNat base ds), rest)

/-- Reads an integer. -/
def integer? : List Char → Option (Value × List Char)
  | '0' :: 'x' :: cs => based? 16 cs
  | '0' :: 'o' :: cs => based? 8 cs
  | '0' :: 'b' :: cs => based? 2 cs
  | cs => do
    let (negative, cs) := Digits.splitSign cs
    let (ds, rest) ← whole? cs
    return (← signed? negative (Digits.toNat 10 ds), rest)

/-- Gives a floating point value a sign. -/
def withSign (negative : Bool) (bits : UInt64) : UInt64 :=
  if negative then bits ||| Binary64.signBit else bits

/-- Reads a value that is no ordinary number. -/
def special? (cs : List Char) : Option (Value × List Char) :=
  let (negative, cs) := Digits.splitSign cs
  match cs with
  | 'i' :: 'n' :: 'f' :: cs => some (.float (withSign negative Binary64.infinity), cs)
  | 'n' :: 'a' :: 'n' :: cs => some (.float (withSign negative Binary64.nan), cs)
  | _ => none

/-- Reads an exponent, if there is one. -/
def exponent? : List Char → Option (Option Int × List Char)
  | [] => some (none, [])
  | c :: cs =>
    if c = 'e' ∨ c = 'E' then do
      let (negative, cs) := Digits.splitSign cs
      let (ds, rest) ← run? Char.isDigit cs
      let n : Int := Digits.toNat 10 ds
      return (some (if negative then -n else n), rest)
    else some (none, c :: cs)

/-- Reads a fraction, if there is one. -/
def fraction? : List Char → Option (Option (List Char) × List Char)
  | '.' :: cs => do
    let (ds, rest) ← run? Char.isDigit cs
    return (some ds, rest)
  | cs => some (none, cs)

/-- Reads a number with a fraction or an exponent. One that is too large is refused
unless it is negative. -/
def float? (cs : List Char) : Option (Value × List Char) := do
  let (negative, cs) := Digits.splitSign cs
  let (whole, cs) ← whole? cs
  let (fraction, cs) ← fraction? cs
  let (exponent, cs) ← exponent? cs
  if fraction.isNone && exponent.isNone then none
  else
    let places := fraction.getD []
    let bits := Binary64.ofDecimal (Digits.toNat 10 (whole ++ places))
      (exponent.getD 0 - places.length)
    if bits = Binary64.infinity ∧ ¬ negative then none
    else return (.float (withSign negative bits), cs)

end SolidityLint.Toml
