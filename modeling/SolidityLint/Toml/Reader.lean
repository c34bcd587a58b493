import SolidityLint.Toml.Key
import SolidityLint.Toml.Moment
import SolidityLint.Toml.Table

/-!
# Reading TOML

A document is a sequence of lines. A line holds nothing, a header, which says into which
table the lines after it go, or a key with a value. No more than 79 arrays and inline
tables may stand inside one another.
-/

namespace SolidityLint.Toml

/-- How many arrays and inline tables may stand inside one another. -/
def maxDepth : Nat := 79

/-- Reads a value that holds no other values. -/
def scalar? (cs : List Char) : Option (Value × List Char) :=
  match cs with
  | 't' :: 'r' :: 'u' :: 'e' :: cs => some (.boolean true, cs)
  | 'f' :: 'a' :: 'l' :: 's' :: 'e' :: cs => some (.boolean false, cs)
  | [] => none
  | c :: _ =>
    if c = '"' ∨ c = '\'' then (text? cs).map fun (s, cs) => (.text s, cs)
    else
      ((moment? cs).map fun (d, cs) => (Value.moment d, cs)).orElse fun _ =>
        (float? cs).orElse fun _ => (special? cs).orElse fun _ => integer? cs

mutual

/-- Reads a value with room for that many more levels. -/
def value? : (fuel room : Nat) → List Char → Option (Value × List Char)
  | 0, _, _ => none
  | fuel + 1, room, cs =>
    match cs with
    | '[' :: cs =>
      match room with
      | 0 => none
      | room + 1 =>
        match skipGap false cs with
        | ']' :: cs => some (.array [], cs)
        | cs => items? fuel room [] cs
    | '{' :: cs =>
      match room with
      | 0 => none
      | room + 1 =>
        match skipBlanks cs with
        | '}' :: cs => some (.table [], cs)
        | cs => entries? fuel room ⟨.defined, []⟩ cs
    | cs => scalar? cs

/-- Reads items up to the closing bracket; those read so far are given, the latest
first. -/
def items? : (fuel room : Nat) → (items : List Value) → List Char → Option (Value × List Char)
  | 0, _, _, _ => none
  | fuel + 1, room, items, cs =>
    match value? fuel room cs with
    | none => none
    | some (v, cs) =>
      match skipGap false cs with
      | ']' :: cs => some (.array (v :: items).reverse, cs)
      | ',' :: cs =>
        match skipGap false cs with
        | ']' :: cs => some (.array (v :: items).reverse, cs)
        | cs => items? fuel room (v :: items) cs
      | _ => none

/-- Reads the entries of an inline table up to the closing bracket. -/
def entries? : (fuel room : Nat) → (table : Table) → List Char → Option (Value × List Char)
  | 0, _, _, _ => none
  | fuel + 1, room, table, cs =>
    match key? cs with
    | some (way, key, '=' :: cs) =>
      match value? fuel room (skipBlanks cs) with
      | none => none
      | some (v, cs) =>
        match table.insert way key v with
        | none => none
        | some table =>
          match skipBlanks cs with
          | '}' :: cs => some (.table table.toEntries, cs)
          | ',' :: cs => entries? fuel room table cs
          | _ => none
    | _ => none

end

/-- The table that lines go into, as the way from the outermost table. -/
inductive Target where
  | outermost
  | inner (way : List String) (key : String)
  deriving Repr

/-- Changes the table that lines go into. -/
def Target.update (f : Table → Option Table) (root : Table) : Target → Option Table
  | outermost => f root
  | inner way key => root.modifyAt false (Table.updateLatest key f) way

/-- Reads a header. -/
def header? (root : Table) : List Char → Option (Table × Target × List Char)
  | '[' :: '[' :: cs => do
    let (way, key, cs) ← key? cs
    match cs with
    | ']' :: ']' :: cs =>
      let root ← root.modifyAt false (Table.append key) way
      return (root, .inner way key, ← lineEnd? cs)
    | _ => none
  | '[' :: cs => do
    let (way, key, cs) ← key? cs
    match cs with
    | ']' :: cs =>
      let root ← root.modifyAt false (Table.define key) way
      return (root, .inner way key, ← lineEnd? cs)
    | _ => none
  | _ => none

/-- Reads a key with a value. -/
def keyValue? (root : Table) (target : Target) (cs : List Char) : Option (Table × List Char) := do
  let (way, key, cs) ← key? cs
  let cs ← char? '=' cs
  let cs := skipBlanks cs
  let (v, cs) ← value? (2 * cs.length + 2) maxDepth cs
  let root ← target.update (Table.insert way key v) root
  return (root, ← lineEnd? cs)

/-- Reads lines up to the end of the document. Every line takes at least one character. -/
def lines? : (fuel : Nat) → Table → Target → List Char → Option Table
  | 0, _, _, _ => none
  | fuel + 1, root, target, cs =>
    match skipBlanks cs with
    | [] => some root
    | c :: cs =>
      if c = '#' ∨ c = '\n' ∨ c = '\r' then
        match lineEnd? (c :: cs) with
        | none => none
        | some cs => lines? fuel root target cs
      else if c = '[' then
        match header? root (c :: cs) with
        | none => none
        | some (root, target, cs) => lines? fuel root target cs
      else
        match keyValue? root target (c :: cs) with
        | none => none
        | some (root, cs) => lines? fuel root target cs

/-- Drops the mark that may stand at the front of a file. -/
def skipMark : List Char → List Char
  | '\ufeff' :: cs => cs
  | cs => cs

/-- The entries of the outermost table of a document. -/
def parse? (text : String) : Option (List (String × Value)) :=
  let cs := skipMark text.toList
  (lines? (cs.length + 1) ⟨.defined, []⟩ .outermost cs).map Table.toEntries

end SolidityLint.Toml
