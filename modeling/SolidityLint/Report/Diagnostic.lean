import SolidityLint.Report.Basic

/-!
# Diagnostics

A violation is shown next to the piece of source it is about. Positions count
characters, excerpts are cut by bytes, so the run of characters is mapped to the run of
bytes that encodes it. A run that does not lie within the source is shown without an
excerpt.

Sources are read once for every file, where two spellings of a path count as one file
and the first spelling is the one that is read.
-/

namespace SolidityLint

/-- What is shown about a violation. -/
structure Diagnostic where
  message : String
  /-- What is written at the marked piece of source. -/
  label : String
  /-- Where the marked piece starts: in bytes if there is a source, else in characters. -/
  offset : Nat
  /-- How long the marked piece is, in the same unit. -/
  length : Nat
  /-- The name of the source that is excerpted, if there is one. -/
  source : Option String
  /-- The whole text of that source. -/
  text : Option String
  deriving DecidableEq, Repr

/-- The numbers of bytes before each character of a text and at its end, given that so
many bytes stand before the text. -/
def byteBoundaries (before : Nat) : List Char → List Nat
  | [] => [before]
  | c :: cs => before :: byteBoundaries (before + c.utf8Size) cs

/-- The run of bytes that encodes a run of characters, as its start and its length. The
boundaries are gone through once: the end of the run is looked for behind its start, and
an empty run ends where it starts. -/
def byteRange? (text : String) (offset length : Nat) : Option (Nat × Nat) :=
  match (byteBoundaries 0 text.toList).drop offset with
  | [] => none
  | first :: later =>
    let last? := match length with
      | 0 => some first
      | n + 1 => later[n]?
    last?.map fun last => (first, last - first)

namespace Diagnostic

/-- The diagnostic of a violation, given the text of its file if that can be read. -/
def ofViolation (v : Violation) (source : Option String) : Diagnostic :=
  let l := v.location
  let message := "[" ++ v.rule ++ "] " ++ v.message
  let excerpt := source.bind fun text =>
    if l.length = 0 then none else byteRange? text l.offset.toNat l.length.toNat
  match excerpt with
  | some (offset, length) => ⟨message, v.nodeType, offset, length, some l.file, source⟩
  | none => ⟨message, v.nodeType, l.offset.toNat, l.length.toNat, none, none⟩

/-- The texts of the files read so far; `none` stands for one that cannot be read. -/
abbrev Cache := List (String × Option String)

/-- What the cache knows about a file under any spelling of its path. -/
def Cache.find? (cache : Cache) (file : String) : Option (Option String) :=
  (List.find? (fun entry => Path.same entry.1 file) cache).map Prod.snd

/-- The diagnostics of violations, given what was read before them. A file is read, with
whatever effects this has, only if the cache does not know it. -/
def ofViolations {m : Type → Type} [Monad m] (read : String → m (Option String))
    (cache : Cache) : List Violation → m (List Diagnostic)
  | [] => return []
  | v :: rest =>
    match cache.find? v.location.file with
    | some source => return ofViolation v source :: (← ofViolations read cache rest)
    | none => do
      let source ← read v.location.file
      let others ← ofViolations read ((v.location.file, source) :: cache) rest
      return ofViolation v source :: others

/-- The marked piece of source, if there is one. -/
def excerpt? (d : Diagnostic) : Option String := do
  String.fromUTF8? ((← d.text).toByteArray.extract d.offset (d.offset + d.length))

end Diagnostic

/-- The diagnostics of a report, in the order of its violations. -/
def Report.diagnostics (read : String → Option String) (r : Report) : List Diagnostic :=
  Id.run (Diagnostic.ofViolations (fun file => pure (read file)) [] r.violations)

end SolidityLint
