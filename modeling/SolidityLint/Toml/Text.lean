import SolidityLint.Number.Digits
import SolidityLint.Toml.Layout

/-!
# TOML texts

A text stands between double quotes, where it may hold escapes, or between single quotes,
where every character stands for itself. Three quotes of a kind make a text that runs
over several lines; a line break right after them is dropped, and one or two more quotes
may stand right before the closing three.
-/

namespace SolidityLint.Toml

/-- The character with the number that hexadecimal digits spell, if there is one. -/
def charOfHex? (digits : List Char) : Option Char := do
  let n ← Digits.ofHex? digits
  if n.isValidChar then some (Char.ofNat n) else none

/-- The character that a one-letter escape stands for. -/
def unescape? : Char → Option Char
  | 'b' => some '\x08'
  | 't' => some '\t'
  | 'n' => some '\n'
  | 'f' => some '\x0c'
  | 'r' => some '\r'
  | '"' => some '"'
  | '\\' => some '\\'
  | _ => none

/-- Reads a text between double quotes, behind the opening one. The characters read so
far are given, the latest first. -/
def basicText? (acc : List Char) : List Char → Option (String × List Char)
  | [] => none
  | '"' :: cs => some (String.ofList acc.reverse, cs)
  | '\\' :: 'u' :: a :: b :: c :: d :: cs =>
    match charOfHex? [a, b, c, d] with
    | some x => basicText? (x :: acc) cs
    | none => none
  | '\\' :: 'U' :: a :: b :: c :: d :: e :: f :: g :: h :: cs =>
    match charOfHex? [a, b, c, d, e, f, g, h] with
    | some x => basicText? (x :: acc) cs
    | none => none
  | '\\' :: e :: cs =>
    match unescape? e with
    | some x => basicText? (x :: acc) cs
    | none => none
  | c :: cs => if isPlain c && c ≠ '\\' then basicText? (c :: acc) cs else none

/-- Whether only blanks stand before the next line end. -/
def blankLine (cs : List Char) : Bool := (newline? (skipBlanks cs)).isSome

/-- Reads a text between three double quotes, behind the opening ones. A back slash at
the end of a line takes the break and all blanks and breaks after it out of the text;
`skipping` says that this is under way. -/
def longBasicText? (skipping : Bool) (acc : List Char) : List Char → Option (String × List Char)
  | [] => none
  | '"' :: '"' :: '"' :: '"' :: '"' :: cs => some (String.ofList ('"' :: '"' :: acc).reverse, cs)
  | '"' :: '"' :: '"' :: '"' :: cs => some (String.ofList ('"' :: acc).reverse, cs)
  | '"' :: '"' :: '"' :: cs => some (String.ofList acc.reverse, cs)
  | '\r' :: '\n' :: cs => longBasicText? skipping (if skipping then acc else '\n' :: acc) cs
  | '\n' :: cs => longBasicText? skipping (if skipping then acc else '\n' :: acc) cs
  | '\\' :: 'u' :: a :: b :: c :: d :: cs =>
    match charOfHex? [a, b, c, d] with
    | some x => longBasicText? false (x :: acc) cs
    | none => none
  | '\\' :: 'U' :: a :: b :: c :: d :: e :: f :: g :: h :: cs =>
    match charOfHex? [a, b, c, d, e, f, g, h] with
    | some x => longBasicText? false (x :: acc) cs
    | none => none
  | '\\' :: e :: cs =>
    if blankLine (e :: cs) then longBasicText? true acc cs
    else
      match unescape? e with
      | some x => longBasicText? false (x :: acc) cs
      | none => none
  | c :: cs =>
    if skipping && isBlank c then longBasicText? true acc cs
    else if isPlain c && c ≠ '\\' then longBasicText? false (c :: acc) cs
    else none

/-- Reads a text between single quotes, behind the opening one. -/
def literalText? (acc : List Char) : List Char → Option (String × List Char)
  | [] => none
  | '\'' :: cs => some (String.ofList acc.reverse, cs)
  | c :: cs => if isPlain c then literalText? (c :: acc) cs else none

/-- Reads a text between three single quotes, behind the opening ones. -/
def longLiteralText? (acc : List Char) : List Char → Option (String × List Char)
  | [] => none
  | '\'' :: '\'' :: '\'' :: '\'' :: '\'' :: cs =>
    some (String.ofList ('\'' :: '\'' :: acc).reverse, cs)
  | '\'' :: '\'' :: '\'' :: '\'' :: cs => some (String.ofList ('\'' :: acc).reverse, cs)
  | '\'' :: '\'' :: '\'' :: cs => some (String.ofList acc.reverse, cs)
  | '\r' :: '\n' :: cs => longLiteralText? ('\n' :: acc) cs
  | '\n' :: cs => longLiteralText? ('\n' :: acc) cs
  | c :: cs => if isPlain c then longLiteralText? (c :: acc) cs else none

/-- Reads a text that stays on its line. -/
def shortText? : List Char → Option (String × List Char)
  | '"' :: cs => basicText? [] cs
  | '\'' :: cs => literalText? [] cs
  | _ => none

/-- Reads a text of any kind. -/
def text? : List Char → Option (String × List Char)
  | '"' :: '"' :: '"' :: cs => longBasicText? false [] (skipNewline cs)
  | '\'' :: '\'' :: '\'' :: cs => longLiteralText? [] (skipNewline cs)
  | cs => shortText? cs

end SolidityLint.Toml
