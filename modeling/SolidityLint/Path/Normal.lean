import SolidityLint.Path.Segment

/-!
# Lexical normal form of a path

A path is brought to one spelling by looking at its text only: back slashes count as
slashes, empty segments and `.` are dropped, and `..` cancels the name before it. A
`..` with nothing to cancel stays at the front of a relative path and is dropped from
an absolute one. The empty relative path is written `.`.
-/

namespace SolidityLint.Path

/-- Turns back slashes into slashes. -/
def unify (cs : List Char) : List Char :=
  cs.map fun c => if c = '\\' then '/' else c

/-- Whether a text with unified slashes names a path from the root. -/
def isAbsolute : List Char → Bool
  | '/' :: _ => true
  | _ => false

/-- Adds a segment to those kept so far, the latest of which stands first. -/
def keep (absolute : Bool) (kept : List Segment) (s : Segment) : List Segment :=
  if s = [] ∨ s = Segment.here then kept
  else if s = Segment.up then
    match kept with
    | [] => if absolute then [] else [Segment.up]
    | last :: before =>
      if last = Segment.up then (if absolute then kept else Segment.up :: kept)
      else before
  else s :: kept

/-- The segments that remain once every `.` and `..` that can be resolved is. -/
def resolve (absolute : Bool) (segments : List Segment) : List Segment :=
  (segments.foldl (keep absolute) []).reverse

/-- A path as a flag and the segments that remain of it. -/
structure Resolved where
  /-- Whether the path starts at the root. -/
  absolute : Bool
  /-- What is left of its segments, outermost first. -/
  segments : List Segment
  deriving DecidableEq, Repr

/-- Resolves the text of a path. -/
def Resolved.ofText (p : String) : Resolved :=
  let cs := unify p.toList
  ⟨isAbsolute cs, resolve (isAbsolute cs) (split cs)⟩

/-- The text of a resolved path. -/
def Resolved.text (r : Resolved) : String :=
  String.ofList <|
    if r.absolute then '/' :: join r.segments
    else if r.segments.isEmpty then Segment.here
    else join r.segments

/-- The lexical normal form of a path. -/
def normalize (p : String) : String := (Resolved.ofText p).text

end SolidityLint.Path
