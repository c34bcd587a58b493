import SolidityLint.Json.Number

/-!
# JSON texts

A text stands between quotes. Control characters have to be escaped, and characters
beyond the first plane are escaped as two halves, a leading and a trailing one. A strict
reader refuses a half that has no partner; a tolerant one reads on and says that the
text stands for nothing.
-/

namespace SolidityLint.Json

/-- How far a reader goes along with what it reads. -/
inductive Mode where
  /-- Refuses lone halves of characters, numbers out of range and deep nesting. -/
  | strict
  /-- Checks the grammar only. -/
  | tolerant
  deriving DecidableEq, Repr

/-- A text read so far. -/
structure PartialText where
  /-- The characters read, the latest first. -/
  chars : List Char := []
  /-- The leading half of a character whose trailing half is still to come. -/
  half : Option Nat := none
  /-- Whether every half so far has found its partner. -/
  sound : Bool := true
  deriving Repr

namespace PartialText

/-- Gives up on a half without a partner. -/
def loseHalf (m : Mode) (t : PartialText) : Except SyntaxError PartialText :=
  match t.half, m with
  | none, _ => .ok t
  | some _, .strict => .error .malformed
  | some _, .tolerant => .ok { t with half := none, sound := false }

/-- Appends a character. -/
def push (m : Mode) (t : PartialText) (c : Char) : Except SyntaxError PartialText := do
  let t ← t.loseHalf m
  return { t with chars := c :: t.chars }

/-- The character two halves make. -/
def combine (leading trailing : Nat) : Char :=
  Char.ofNat (0x10000 + (leading - 0xd800) * 0x400 + (trailing - 0xdc00))

/-- Appends the character, or the half of one, with the given number. -/
def pushUnit (m : Mode) (t : PartialText) (n : Nat) : Except SyntaxError PartialText :=
  if 0xdc00 ≤ n ∧ n < 0xe000 then
    match t.half, m with
    | some h, _ => .ok { t with chars := combine h n :: t.chars, half := none }
    | none, .strict => .error .malformed
    | none, .tolerant => .ok { t with sound := false }
  else if 0xd800 ≤ n ∧ n < 0xdc00 then do
    let t ← t.loseHalf m
    return { t with half := some n }
  else t.push m (Char.ofNat n)

/-- The text at its closing quote. -/
def finish (m : Mode) (t : PartialText) : Except SyntaxError (Option String) := do
  let t ← t.loseHalf m
  return if t.sound then some (String.ofList t.chars.reverse) else none

end PartialText

/-- The character that a one-letter escape stands for. -/
def unescape? : Char → Option Char
  | '"' => some '"'
  | '\\' => some '\\'
  | '/' => some '/'
  | 'b' => some '\x08'
  | 'f' => some '\x0c'
  | 'n' => some '\n'
  | 'r' => some '\r'
  | 't' => some '\t'
  | _ => none

/-- Reads a text behind its opening quote. An escape by number takes four digits, and is
unfinished when fewer than four bytes follow. -/
def readText (m : Mode) (t : PartialText) :
    List Char → Except SyntaxError (Option String × List Char)
  | [] => .error .unfinished
  | c :: cs =>
    if c = '"' then do return (← t.finish m, cs)
    else if c = '\\' then
      match cs with
      | [] => .error .unfinished
      | e :: cs =>
        if e = 'u' then
          match cs with
          | d₁ :: d₂ :: d₃ :: d₄ :: cs =>
            match Digits.ofHex? [d₁, d₂, d₃, d₄] with
            | none => .error .malformed
            | some n =>
              match t.pushUnit m n with
              | .error e => .error e
              | .ok t => readText m t cs
          | few =>
            if (String.ofList few).utf8ByteSize < 4 then .error .unfinished
            else .error .malformed
        else
          match unescape? e with
          | none => .error .malformed
          | some c =>
            match t.push m c with
            | .error e => .error e
            | .ok t => readText m t cs
    else if c < ' ' then .error .malformed
    else
      match t.push m c with
      | .error e => .error e
      | .ok t => readText m t cs

end SolidityLint.Json
