import SolidityLint.Path.Segment

/-!
# Path components

Two spellings name the same path when they have the same components: repeated slashes,
a slash at the end, and every `.` but a leading one of a relative path do not count.
Paths are ordered component by component: the root first, then a leading `.`, then
`..`, then names by their characters.
-/

namespace SolidityLint.Path

/-- One step on the way a path describes. -/
inductive Component where
  /-- The root directory. -/
  | root
  /-- The current directory, as the first step of a relative path. -/
  | here
  /-- The directory above. -/
  | up
  /-- An entry of the directory reached so far. -/
  | name (s : Segment)
  deriving DecidableEq, Repr

/-- The step a segment inside a path stands for, if it counts. -/
def Component.ofSegment? (s : Segment) : Option Component :=
  if s = [] ∨ s = Segment.here then none
  else if s = Segment.up then some .up
  else some (.name s)

/-- The steps of a path text. -/
def componentsOf (cs : List Char) : List Component :=
  let inner := (split cs).filterMap Component.ofSegment?
  match split cs with
  | [] :: _ :: _ => .root :: inner
  | s :: _ => if s = Segment.here then .here :: inner else inner
  | [] => inner

/-- The steps of a path. -/
def components (p : String) : List Component := componentsOf p.toList

/-- Whether two spellings name the same path. -/
def same (p q : String) : Bool := components p == components q

/-- The place of a component in the order: its kind, then its characters. -/
def Component.key : Component → List Nat
  | root => [0]
  | here => [1]
  | up => [2]
  | name s => 3 :: s.map Char.toNat

/-- The place of a path in the order. -/
def key (p : String) : List (List Nat) := (components p).map Component.key

/-- The name of the file a path leads to; a path that ends at the root, at the current
directory or above it leads to none. -/
def fileNameOf? (cs : List Char) : Option Segment :=
  match (componentsOf cs).getLast? with
  | some (.name s) => some s
  | _ => none

end SolidityLint.Path
