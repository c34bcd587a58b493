/-!
# Text as the system gives it

Paths and arguments are bytes. They mostly encode a text but need not do so, and what they
lead to depends on the bytes alone. To be shown or recorded they are made a text, in which
one replacement character stands for each run of bytes that begins a character and does
not complete it, and for each byte that begins none.

Whatever has a meaning in a path or an argument, such as slashes, dots and dashes, is a
single byte with the number of its character. So the bytes can also be looked at as
characters, each as the character of its number, and what is defined for lists of
characters applies to them.
-/

namespace SolidityLint

/-- A path or an argument: bytes that need not encode a text. -/
structure RawText where
  bytes : List UInt8
  deriving DecidableEq, Repr

namespace RawText

instance : Append RawText := ⟨fun p q => ⟨p.bytes ++ q.bytes⟩⟩

/-- The bytes that encode a text. -/
def ofText (s : String) : RawText := ⟨s.toList.flatMap String.utf8EncodeChar⟩

/-- The bytes, each as the character of its number. -/
def units (p : RawText) : List Char := p.bytes.map fun b => Char.ofNat b.toNat

/-- The bytes whose numbers the characters have. -/
def ofUnits (cs : List Char) : RawText := ⟨cs.map fun c => UInt8.ofNat c.toNat⟩

/-- What is shown for bytes that make no character. -/
def replacement : Char := '\ufffd'

/-- A character that has begun: some of its bytes have been read, some are missing. -/
structure Begun where
  /-- How many bytes are missing. -/
  missing : Nat
  /-- The number that the bits read so far make. -/
  value : Nat
  /-- The least number that the next byte may have. -/
  low : Nat
  /-- The greatest number that the next byte may have. -/
  high : Nat
  deriving DecidableEq, Repr

/-- The least number that the byte behind a first byte may have. Characters that have a
shorter encoding are ruled out. -/
def Begun.secondLow (b : Nat) : Nat := if b = 0xe0 then 0xa0 else if b = 0xf0 then 0x90 else 0x80

/-- The greatest number that the byte behind a first byte may have. Halves of surrogate pairs
and numbers that are too large for a character are ruled out. -/
def Begun.secondHigh (b : Nat) : Nat := if b = 0xed then 0x9f else if b = 0xf4 then 0x8f else 0xbf

/-- The character of several bytes that a byte begins. -/
def Begun.ofByte? (b : Nat) : Option Begun :=
  if b < 0xc2 then none
  else if b < 0xe0 then some ⟨1, b - 0xc0, secondLow b, secondHigh b⟩
  else if b < 0xf0 then some ⟨2, b - 0xe0, secondLow b, secondHigh b⟩
  else if b < 0xf5 then some ⟨3, b - 0xf0, secondLow b, secondHigh b⟩
  else none

/-- What a byte shows that is not part of a character before it, and what it begins. -/
def readFirst (b : Nat) : List Char × Option Begun :=
  if b < 0x80 then ([Char.ofNat b], none)
  else match Begun.ofByte? b with
    | some p => ([], some p)
    | none => ([replacement], none)

/-- What a byte shows behind a character that has begun, and what has begun then. -/
def readNext (p : Begun) (b : Nat) : List Char × Option Begun :=
  if p.low ≤ b ∧ b ≤ p.high then
    let value := p.value * 64 + (b - 0x80)
    if p.missing = 1 then ([Char.ofNat value], none)
    else ([], some ⟨p.missing - 1, value, 0x80, 0xbf⟩)
  else
    let (shown, begun) := readFirst b
    (replacement :: shown, begun)

/-- What bytes show, given the character that has begun before them. -/
def decode : Option Begun → List UInt8 → List Char
  | none, [] => []
  | some _, [] => [replacement]
  | none, b :: bs =>
    let (shown, begun) := readFirst b.toNat
    shown ++ decode begun bs
  | some p, b :: bs =>
    let (shown, begun) := readNext p b.toNat
    shown ++ decode begun bs

/-- The text that is shown and recorded. -/
def display (p : RawText) : String := String.ofList (decode none p.bytes)

end RawText

end SolidityLint
