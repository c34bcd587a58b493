import SolidityLint.Dictionary
import SolidityLint.Json.Value
import SolidityLint.Json.Text

/-!
# Reading JSON

The reader goes through the text once from left to right and stops at the first thing
that is wrong. In strict mode it settles members that are given more than once and
allows 127 brackets to be open at a time; in tolerant mode it keeps all members, so that
whoever reads the value can refuse repetitions.

Every step of the reader takes at least one character for every two calls, so twice the
length of the text is enough fuel.
-/

namespace SolidityLint.Json

/-- Whether a character may stand between two tokens. -/
def isBlank (c : Char) : Bool := c = ' ' || c = '\t' || c = '\n' || c = '\r'

/-- Drops the blanks at the front. -/
def skipBlanks (cs : List Char) : List Char := cs.dropWhile isBlank

/-- How many brackets may be open at a time in strict mode. -/
def maxDepth : Nat := 127

/-- Reads the rest of a word that stands for a value. -/
def readWord (value : Value) : (word cs : List Char) → Except SyntaxError (Value × List Char)
  | [], cs => .ok (value, cs)
  | _ :: _, [] => .error .unfinished
  | w :: word, c :: cs => if w = c then readWord value word cs else .error .malformed

/-- Reads a number. -/
def readNumber (m : Mode) (cs : List Char) : Except SyntaxError (Value × List Char) := do
  let (n, rest) ← Number.read cs
  match n.natural? with
  | some k => return (.natural k, rest)
  | none =>
    if m = .strict && n.outOfRange then throw .malformed
    return (.decimal n, rest)

/-- The text a reader made out, as a value. -/
def textValue : Option String → Value
  | some s => .text s
  | none => .garbled

/-- The object with the given members, the latest of which stands first. -/
def objectValue (m : Mode) (members : List (Option String × Value)) : Value :=
  match members.reverse.mapM fun (k, v) => k.map fun k => (k, v) with
  | none => .garbled
  | some members =>
    match m with
    | .strict => .object (Dictionary.settle members)
    | .tolerant => .object members

mutual

/-- Reads a value with room for that many more open brackets. -/
def readValue (m : Mode) : (fuel room : Nat) → List Char → Except SyntaxError (Value × List Char)
  | 0, _, _ => .error .malformed
  | fuel + 1, room, cs =>
    match skipBlanks cs with
    | [] => .error .unfinished
    | '{' :: cs =>
      if m = .strict ∧ room = 0 then .error .malformed
      else
        match skipBlanks cs with
        | [] => .error .unfinished
        | '}' :: cs => .ok (.object [], cs)
        | cs => readMembers m fuel (room - 1) [] cs
    | '[' :: cs =>
      if m = .strict ∧ room = 0 then .error .malformed
      else
        match skipBlanks cs with
        | [] => .error .unfinished
        | ']' :: cs => .ok (.array [], cs)
        | cs => readItems m fuel (room - 1) [] cs
    | '"' :: cs => do
      let (t, cs) ← readText m {} cs
      return (textValue t, cs)
    | 'n' :: cs => readWord .null ['u', 'l', 'l'] cs
    | 't' :: cs => readWord (.bool true) ['r', 'u', 'e'] cs
    | 'f' :: cs => readWord (.bool false) ['a', 'l', 's', 'e'] cs
    | c :: cs =>
      if c = '-' ∨ c.isDigit then readNumber m (c :: cs) else .error .malformed

/-- Reads items up to the closing bracket; those read so far are given, the latest
first. -/
def readItems (m : Mode) :
    (fuel room : Nat) → (items : List Value) → List Char →
      Except SyntaxError (Value × List Char)
  | 0, _, _, _ => .error .malformed
  | fuel + 1, room, items, cs =>
    match readValue m fuel room cs with
    | .error e => .error e
    | .ok (v, cs) =>
      match skipBlanks cs with
      | ',' :: cs => readItems m fuel room (v :: items) cs
      | ']' :: cs => .ok (.array (v :: items).reverse, cs)
      | cs => .error (SyntaxError.at cs)

/-- Reads members up to the closing bracket; those read so far are given, the latest
first. -/
def readMembers (m : Mode) :
    (fuel room : Nat) → (members : List (Option String × Value)) → List Char →
      Except SyntaxError (Value × List Char)
  | 0, _, _, _ => .error .malformed
  | fuel + 1, room, members, cs =>
    match skipBlanks cs with
    | '"' :: cs =>
      match readText m {} cs with
      | .error e => .error e
      | .ok (key, cs) =>
        match skipBlanks cs with
        | ':' :: cs =>
          match readValue m fuel room cs with
          | .error e => .error e
          | .ok (v, cs) =>
            match skipBlanks cs with
            | ',' :: cs => readMembers m fuel room ((key, v) :: members) cs
            | '}' :: cs => .ok (objectValue m ((key, v) :: members), cs)
            | cs => .error (SyntaxError.at cs)
        | cs => .error (SyntaxError.at cs)
    | cs => .error (SyntaxError.at cs)

end

/-- Reads a text that holds one value and nothing else. -/
def parse (m : Mode) (s : String) : Except SyntaxError Value := do
  let cs := s.toList
  let (v, rest) ← readValue m (2 * cs.length + 2) maxDepth cs
  match skipBlanks rest with
  | [] => return v
  | _ => throw .malformed

end SolidityLint.Json
