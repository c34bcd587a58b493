/-!
# Binary floating point, exactly

Decimal literals are read into the double precision format by exact arithmetic on
natural numbers: a quotient is rounded to the nearest representable value, and a value
half way between two goes to the one with the even last bit. A value is kept as its
64 bits.
-/

namespace SolidityLint.Binary64

/-- The nearest natural number to a quotient, a half going to the even neighbour. -/
def roundQuotient (num den : Nat) : Nat :=
  let q := num / den
  let twice := 2 * (num % den)
  if twice < den then q
  else if den < twice then q + 1
  else if q % 2 = 0 then q else q + 1

/-- The bits of positive infinity. -/
def infinity : UInt64 := 0x7ff0000000000000

/-- The bits of the quiet not-a-number value. -/
def nan : UInt64 := 0x7ff8000000000000

/-- The bit that holds the sign. -/
def signBit : UInt64 := 0x8000000000000000

/-- Whether the bits stand for no number. -/
def isNaN (bits : UInt64) : Bool := infinity < (bits &&& ~~~signBit)

/-- The bits of the value nearest to a quotient. With `num / den` between `2 ^ 52` and
`2 ^ 53` times `2 ^ e`, the quotient by `2 ^ e` is rounded to a whole number; `e` goes no
lower than the format allows, and what is too large becomes infinite. -/
def ofRatio (num den : Nat) : UInt64 :=
  if num = 0 then 0
  else
    let l : Int := (num.log2 : Int) - (den.log2 : Int)
    let scaledNum : Int → Nat := fun e => num <<< (-e).toNat
    let scaledDen : Int → Nat := fun e => den <<< e.toNat
    let below : Int → Bool := fun e => scaledNum e < scaledDen e <<< 53
    let e : Int := max (-1074) (if below (l - 53) then l - 53 else l - 52)
    let m := roundQuotient (scaledNum e) (scaledDen e)
    let bits := if m < 1 <<< 52 then m else (e + 1074).toNat <<< 52 + m
    if infinity.toNat ≤ bits then infinity else bits.toUInt64

/-- The bits of the value nearest to `significand * 10 ^ exponent`. Powers far outside
the format's range are settled without being computed. -/
def ofDecimal (significand : Nat) (exponent : Int) : UInt64 :=
  let magnitude : Int := exponent + (Nat.toDigits 10 significand).length
  if significand = 0 ∨ magnitude < -400 then 0
  else if 400 < magnitude then infinity
  else ofRatio (significand * Nat.pow 10 exponent.toNat) (Nat.pow 10 (-exponent).toNat)

/-- The representable whole number nearest to a natural number, as if exponents had no
upper limit. -/
def nearestNat (n : Nat) : Nat :=
  if n < 1 <<< 53 then n
  else
    let unit := 1 <<< (n.log2 - 52)
    roundQuotient n unit * unit

/-- Whether the product of a whole number with a power of ten, each rounded first, is
too large for the format. -/
def productOverflows (significand power : Nat) : Bool :=
  significand ≠ 0 &&
    (308 < power ||
      1 <<< 1024 - 1 <<< 970 ≤ nearestNat significand * nearestNat (Nat.pow 10 power))

end SolidityLint.Binary64
