import SolidityLint.Path.Normal

/-!
# Ignored files

Rules that are not global leave some files alone: those below the directory `test`.
The decision is taken on the resolved path, so every spelling of a path is treated
alike. Entries whose name starts with a dot are not part of a directory's content
here, as in a shell.
-/

namespace SolidityLint

/-- All visible entries below a directory. -/
structure Pattern where
  /-- The name of the directory. -/
  directory : Path.Segment
  deriving DecidableEq, Repr

namespace Pattern

/-- The pattern as it is shown to users. -/
def text (p : Pattern) : String := String.ofList (p.directory ++ "/**/*".toList)

/-- Whether a name is that of a hidden entry. -/
def isHidden : Path.Segment → Bool
  | '.' :: _ => true
  | _ => false

/-- Whether a resolved path leads to a visible entry below the directory. -/
def accepts (p : Pattern) (r : Path.Resolved) : Bool :=
  !r.absolute &&
    match r.segments with
    | first :: second :: rest =>
      first == p.directory && (second :: rest).all fun s => !isHidden s
    | _ => false

end Pattern

namespace Ignore

/-- The patterns in force. -/
def patterns : List Pattern := [⟨"test".toList⟩]

/-- Whether a file is left alone by rules that are not global. -/
def covers (file : String) : Bool :=
  patterns.any fun p => p.accepts (Path.Resolved.ofText file)

end Ignore

end SolidityLint
