import SolidityLint.Dictionary
import SolidityLint.Path.Segment
import SolidityLint.Text.Raw

/-!
# File systems

The linter reads files through two questions: what text a path leads to, and whether a
path leads to a file. Files held in memory answer them by following the path: from the
root if it starts with a slash, and from the working directory if it does not. A path and
each name in it may only be so long. Paths and names are bytes, looked at as characters.
-/

namespace SolidityLint

/-- Why a path yields no text. -/
inductive ReadError where
  | notFound
  | notADirectory
  | isADirectory
  | notUtf8
  /-- The path, or a name in it, is too long. -/
  | nameTooLong
  /-- The path holds a null character. -/
  | nullInPath
  /-- The system refuses for another reason, which has a number and words of its own. -/
  | refused (code : Nat) (words : String)
  deriving DecidableEq, Repr

/-- What is said about a path that yields no text. -/
def ReadError.message : ReadError → String
  | notFound => "No such file or directory (os error 2)"
  | notADirectory => "Not a directory (os error 20)"
  | isADirectory => "Is a directory (os error 21)"
  | notUtf8 => "stream did not contain valid UTF-8"
  | nameTooLong => "File name too long (os error 36)"
  | nullInPath => "file name contained an unexpected NUL byte"
  | refused code words => words ++ " (os error " ++ toString code ++ ")"

/-- How parsers put into words what is wrong with a text. -/
structure Wording where
  /-- What is said about a text that is not JSON. -/
  json : String → String
  /-- What is said about a text that is not a configuration. -/
  toml : String → String

/-- What the linter can ask about files. -/
structure FileSystem where
  /-- The path of the working directory. -/
  workingDirectory : RawText
  /-- The text a path leads to. -/
  read : RawText → Except ReadError String
  /-- Whether a path leads to a file. -/
  isFile : RawText → Bool

/-- An entry of a directory held in memory. -/
inductive Entry where
  /-- A file with its text, or with bytes that are no text. -/
  | file (content : Option String)
  | directory (entries : List (Path.Segment × Entry))
  deriving Inhabited

namespace Entry

/-- The entries of a directory; a file has none. -/
def entries : Entry → List (Path.Segment × Entry)
  | file _ => []
  | directory es => es

/-- Puts an entry below a directory, making directories on the way. A directory that is
already there is kept when a directory is put in its place. -/
def insert (new : Entry) : (way : List Path.Segment) → Entry → Entry
  | [], old =>
    match new, old with
    | directory [], directory es => directory es
    | _, _ => new
  | name :: way, old =>
    let inner := (old.entries.lookup name).getD (directory [])
    directory (Dictionary.assign name (insert new way inner) old.entries)

/-- How many bytes a name may have. -/
def maxNameBytes : Nat := 255

/-- Follows a path segment by segment. The entries on the way are given, the innermost
first; `..` leads out of the innermost one, and nowhere from the outermost. -/
def follow (current : Entry) (around : List Entry) :
    List Path.Segment → Except ReadError Entry
  | [] => .ok current
  | s :: rest =>
    match current with
    | file _ => .error .notADirectory
    | directory es =>
      if s = [] ∨ s = Path.Segment.here then follow current around rest
      else if s = Path.Segment.up then
        match around with
        | [] => follow current [] rest
        | outer :: around => follow outer around rest
      else if maxNameBytes < s.length then .error .nameTooLong
      else
        match es.lookup s with
        | none => .error .notFound
        | some e => follow e (current :: around) rest

end Entry

/-- Files held in memory. -/
structure MemoryFiles where
  /-- The names that lead from the root to the working directory. -/
  workingDirectory : List Path.Segment
  /-- The directory around all others. -/
  root : Entry := Entry.insert (.directory []) workingDirectory (.directory [])

namespace MemoryFiles

/-- How many bytes a path may have. -/
def maxPathBytes : Nat := 4095

/-- The segments that lead from the root to where a path leads. -/
def way (m : MemoryFiles) (path : List Char) : List Path.Segment :=
  match path with
  | '/' :: path => Path.split path
  | path => m.workingDirectory ++ Path.split path

/-- Puts an entry where segments lead from a directory, which is given by the names that
lead to it, the innermost first. Directories on the way are made, also those that a `..`
leads out of again. -/
def place (new : Entry) (root : Entry) (names : List Path.Segment) : List Path.Segment → Entry
  | [] => Entry.insert new names.reverse root
  | s :: rest =>
    if s = [] ∨ s = Path.Segment.here then place new root names rest
    else if s = Path.Segment.up then place new root names.tail rest
    else if rest.isEmpty then place new root (s :: names) rest
    else place new (Entry.insert (.directory []) (s :: names).reverse root) (s :: names) rest

/-- Puts an entry at a path. -/
def add (m : MemoryFiles) (path : RawText) (new : Entry) : MemoryFiles :=
  { m with root := place new m.root [] (m.way path.units) }

/-- The entry a path leads to. -/
def find (m : MemoryFiles) (path : RawText) : Except ReadError Entry :=
  let cs := path.units
  if '\x00' ∈ cs then .error .nullInPath
  else if cs = [] then .error .notFound
  else if maxPathBytes < cs.length then .error .nameTooLong
  else m.root.follow [] (m.way cs)

/-- The text a path leads to. -/
def read (m : MemoryFiles) (path : RawText) : Except ReadError String :=
  match m.find path with
  | .error e => .error e
  | .ok (.directory _) => .error .isADirectory
  | .ok (.file none) => .error .notUtf8
  | .ok (.file (some text)) => .ok text

/-- Whether a path leads to a file. -/
def isFile (m : MemoryFiles) (path : RawText) : Bool :=
  match m.find path with
  | .ok (.file _) => true
  | _ => false

/-- The path of the working directory. -/
def workingPath (m : MemoryFiles) : RawText :=
  .ofUnits ('/' :: Path.join m.workingDirectory)

/-- The file system that the files make. -/
def fileSystem (m : MemoryFiles) : FileSystem := ⟨m.workingPath, m.read, m.isFile⟩

end MemoryFiles

end SolidityLint
