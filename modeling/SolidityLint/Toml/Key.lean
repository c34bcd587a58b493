import SolidityLint.Toml.Text

/-!
# TOML keys

A key is a bare word or a text that stays on its line. Keys joined by dots lead into
nested tables; no key leads deeper than 79 levels.
-/

namespace SolidityLint.Toml

/-- Whether a character may stand in a bare word. -/
def isBare (c : Char) : Bool := c.isAlphanum || c = '_' || c = '-'

/-- How many keys may be joined by dots. -/
def maxKeyParts : Nat := 79

/-- Reads a single key. -/
def simpleKey? (cs : List Char) : Option (String × List Char) :=
  match cs with
  | '"' :: _ => shortText? cs
  | '\'' :: _ => shortText? cs
  | _ =>
    match cs.span isBare with
    | ([], _) => none
    | (word, rest) => some (String.ofList word, rest)

/-- Reads keys joined by dots, at most so many. -/
def keyParts? : (room : Nat) → List Char → Option (List String × List Char)
  | 0, _ => none
  | room + 1, cs => do
    let (k, cs) ← simpleKey? (skipBlanks cs)
    match skipBlanks cs with
    | '.' :: cs => do
      let (ks, cs) ← keyParts? room cs
      return (k :: ks, cs)
    | cs => return ([k], cs)

/-- Reads keys joined by dots, with the last one apart. -/
def key? (cs : List Char) : Option (List String × String × List Char) := do
  let (ks, rest) ← keyParts? maxKeyParts cs
  return (ks.dropLast, ← ks.getLast?, rest)

end SolidityLint.Toml
