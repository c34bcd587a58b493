import SolidityLint.Number.Binary64
import SolidityLint.Number.Digits

/-!
# JSON numbers

A number is an optional minus sign, digits without a leading zero, an optional fraction
and an optional exponent. A strict reader also refuses a number too large for double
precision, going by as many leading digits as fit in 64 bits.
-/

namespace SolidityLint.Json

/-- What is wrong with a text that is not JSON. -/
inductive SyntaxError where
  /-- The text ends before the value does. -/
  | unfinished
  /-- The text goes on in a way no value does. -/
  | malformed
  deriving DecidableEq, Repr

/-- The error of a place where more had to follow. -/
def SyntaxError.at : List Char → SyntaxError
  | [] => unfinished
  | _ :: _ => malformed

/-- The parts of a number as written. -/
structure Number where
  negative : Bool
  /-- The digits before the point. -/
  whole : List Char
  /-- The digits after the point, if there is one. -/
  fraction : Option (List Char)
  /-- The exponent, if there is one. -/
  exponent : Option Int
  deriving Repr

/-- Cuts a text behind its leading digits. -/
def spanDigits (cs : List Char) : List Char × List Char := cs.span Char.isDigit

namespace Number

/-- Reads at least one digit. -/
def digits1 (cs : List Char) : Except SyntaxError (List Char × List Char) :=
  match spanDigits cs with
  | ([], rest) => .error (SyntaxError.at rest)
  | (ds, rest) => .ok (ds, rest)

/-- Reads the digits before the point. -/
def readWhole (cs : List Char) : Except SyntaxError (List Char × List Char) := do
  let (ds, rest) ← digits1 cs
  match ds with
  | '0' :: _ :: _ => .error .malformed
  | _ => .ok (ds, rest)

/-- Reads a fraction, if there is one. -/
def readFraction : List Char → Except SyntaxError (Option (List Char) × List Char)
  | '.' :: cs => do
    let (ds, rest) ← digits1 cs
    return (some ds, rest)
  | cs => .ok (none, cs)

/-- Reads an exponent, if there is one. -/
def readExponent : List Char → Except SyntaxError (Option Int × List Char)
  | [] => .ok (none, [])
  | c :: cs =>
    if c = 'e' ∨ c = 'E' then do
      let (negative, cs) := Digits.splitSign cs
      let (ds, rest) ← digits1 cs
      let n : Int := Digits.toNat 10 ds
      return (some (if negative then -n else n), rest)
    else .ok (none, c :: cs)

/-- Reads a number. -/
def read (cs : List Char) : Except SyntaxError (Number × List Char) := do
  let (negative, cs) := match cs with
    | '-' :: cs => (true, cs)
    | cs => (false, cs)
  let (whole, cs) ← readWhole cs
  let (fraction, cs) ← readFraction cs
  let (exponent, cs) ← readExponent cs
  return (⟨negative, whole, fraction, exponent⟩, cs)

/-- The natural number of 64 bits that plain digits stand for. -/
def natural? (n : Number) : Option UInt64 :=
  if n.negative || n.fraction.isSome || n.exponent.isSome then none
  else
    let value := Digits.toNat 10 n.whole
    if value < UInt64.size then some value.toUInt64 else none

/-- Appends digits to a number for as long as it fits in 64 bits, and counts the digits
left over. -/
def gather (n : Nat) : List Char → Nat × Nat
  | [] => (n, 0)
  | d :: ds =>
    let next := n * 10 + (Digits.value? d).getD 0
    if next < UInt64.size then gather next ds else (n, ds.length + 1)

/-- Whether a number is too large for double precision. Digits before the point that do
not fit count as powers of ten; digits after it that do not fit count for nothing. -/
def outOfRange (n : Number) : Bool :=
  let fraction := n.fraction.getD []
  let (leading, shift) := gather 0 n.whole
  let (significand, ignored) := gather leading fraction
  let exponent : Int := shift - (fraction.length - ignored : Nat) + n.exponent.getD 0
  0 ≤ exponent && Binary64.productOverflows significand exponent.toNat

end Number

end SolidityLint.Json
