import SolidityLint.Path.Component
import SolidityLint.Text.Raw

/-!
# The source file of a syntax tree file

A tree stored as `contracts/Token.sol.json` was read from `contracts/Token.sol`. The
source file is found from the path itself by taking off the extension `json`; a path
with no such extension is its own source. Paths are given as characters here, which are
those of a text or stand for the bytes of a path that is none.
-/

namespace SolidityLint.Path

/-- Cuts a file name at its last dot. A name with no dot, with a dot only at its start,
or equal to `..` has no extension. -/
def splitExtension (name : Segment) : Segment × Option Segment :=
  if name = Segment.up then (name, none)
  else
    let extension := (name.reverse.takeWhile (· ≠ '.')).reverse
    let before := name.take (name.length - extension.length - 1)
    if extension.length = name.length ∨ before = [] then (name, none)
    else (before, some extension)

/-- The extension of the file a path leads to. -/
def extensionOf? (cs : List Char) : Option Segment :=
  (fileNameOf? cs).bind fun name => (splitExtension name).2

/-- Drops slashes and `/.` from the front of a reversed path. -/
def dropTrail : List Char → List Char
  | '/' :: cs => dropTrail cs
  | '.' :: '/' :: cs => dropTrail cs
  | cs => cs

/-- Cuts a path right after the stem of its file name. -/
def cutAfterStem (cs : List Char) : List Char :=
  match fileNameOf? cs with
  | none => cs
  | some name =>
    let upToName := (dropTrail cs.reverse).reverse
    let stem := (splitExtension name).1
    upToName.take (upToName.length - (name.length - stem.length))

/-- The extension of a stored syntax tree. -/
def treeExtension : Segment := ['j', 's', 'o', 'n']

/-- The path of the source a syntax tree was read from. As many characters as the
extension has are cut off the end of the text, and of what remains the extension is
taken off once more, which removes the dot and anything that trailed the name. -/
def sourceOfChars (cs : List Char) : List Char :=
  if extensionOf? cs = some treeExtension then
    cutAfterStem (cs.take (cs.length - treeExtension.length))
  else cs

/-- The path of the source, for a path that is a text. -/
def sourceOf (p : String) : String := String.ofList (sourceOfChars p.toList)

end SolidityLint.Path

namespace SolidityLint

/-- The path of the source a syntax tree was read from. -/
def RawText.source (p : RawText) : RawText := .ofUnits (Path.sourceOfChars p.units)

end SolidityLint
