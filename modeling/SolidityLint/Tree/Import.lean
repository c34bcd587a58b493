import SolidityLint.Json.Reader
import SolidityLint.Tree.Basic

/-!
# Syntax trees from JSON

Every object with a text member `type` becomes a node. It hangs on the nearest object
around it that became one. Arrays and other objects are looked through for nodes, in the
order in which they are written, but what stands under `loc` and `range` is about
positions and holds no nodes.

A position is read from `loc.start`, whose columns count from zero, and `range`, whose
two ends both belong to the node. Counting from one and measuring the range can leave
the 64 bits of a position, and then there is no tree.
-/

namespace SolidityLint

open Json (Value)

/-- Why a text or a value is not a syntax tree. -/
inductive ImportError where
  /-- This text is not JSON. -/
  | notJson (text : String) (e : Json.SyntaxError)
  /-- The value is not an object with a text member `type`. -/
  | notANode
  /-- A position does not fit in 64 bits. -/
  | positionOverflow
  /-- A node could not be added. -/
  | tree (e : TreeError)
  deriving DecidableEq, Repr

namespace Import

/-- The members that hold positions. -/
def positionMembers : List String := ["loc", "range"]

/-- The type name of an object with these members, if it is a node. -/
def typeName? (members : List (String × Value)) : Option String :=
  (members.lookup "type").bind Value.text?

/-- The number after this one, if it fits in 64 bits. -/
def next (n : UInt64) : Except ImportError UInt64 :=
  if n.toNat + 1 < UInt64.size then .ok (n + 1) else .error .positionOverflow

/-- The line and the column at which an object starts, counting from one and from zero. -/
def start? (members : List (String × Value)) : Option (UInt64 × UInt64) := do
  let start ← (← members.lookup "loc").member? "start"
  let line ← (← start.member? "line").natural?
  let column ← (← start.member? "column").natural?
  return (line, column)

/-- The numbers of the first and the last character of an object. -/
def range? (members : List (String × Value)) : Option (UInt64 × UInt64) := do
  match ← (← members.lookup "range").items? with
  | first :: last :: _ => return (← first.natural?, ← last.natural?)
  | _ => none

/-- The start and the length of a range; one that runs backwards counts as none. -/
def extent (range : Option (UInt64 × UInt64)) : Except ImportError (UInt64 × UInt64) :=
  match range with
  | some (first, last) =>
    if first ≤ last then (next (last - first)).map fun length => (first, length)
    else .ok (0, 0)
  | none => .ok (0, 0)

/-- The position of an object. -/
def span (members : List (String × Value)) : Except ImportError (Option Span) :=
  match start? members with
  | none => .ok none
  | some (line, column) => do
    let column ← next column
    let (offset, length) ← extent (range? members)
    return some { line, column, offset, length }

/-- The text member of that name. -/
def textMember? (key : String) (members : List (String × Value)) : Option String :=
  (members.lookup key).bind Value.text?

/-- The node an object of a given type becomes. -/
def node (typeName : String) (members : List (String × Value)) : Except ImportError Node := do
  let span ← span members
  return {
    typeName
    name := textMember? "name" members
    kind := textMember? "kind" members
    visibility := (textMember? "visibility" members).bind Visibility.ofKeyword?
    isConstant := ((members.lookup "isDeclaredConst").bind Value.bool?).getD false
    span }

/-- Adds a node where one is expected: under its parent, or as a root. -/
def attach (t : Tree) (parent : Option Nat) (n : Node) : Except ImportError Tree :=
  match parent with
  | some p => (t.pushChild p n).mapError .tree
  | none => .ok (t.pushRoot n)

/-- Adds the node an object is, if it is one, and says on what its inner nodes hang. -/
def enter (t : Tree) (parent : Option Nat) (members : List (String × Value)) :
    Except ImportError (Tree × Option Nat) :=
  match typeName? members with
  | none => .ok (t, parent)
  | some typeName => do
    let n ← node typeName members
    let id := t.size
    return (← attach t parent n, some id)

mutual

/-- Adds the nodes of a value. -/
def value (t : Tree) (parent : Option Nat) : Value → Except ImportError Tree
  | .object ms =>
    match enter t parent ms with
    | .error e => .error e
    | .ok (t, parent) => members t parent ms
  | .array is => items t parent is
  | _ => .ok t

/-- Adds the nodes of the items of an array. -/
def items (t : Tree) (parent : Option Nat) : List Value → Except ImportError Tree
  | [] => .ok t
  | v :: vs =>
    match value t parent v with
    | .error e => .error e
    | .ok t => items t parent vs

/-- Adds the nodes of the members of an object. -/
def members (t : Tree) (parent : Option Nat) :
    List (String × Value) → Except ImportError Tree
  | [] => .ok t
  | (key, v) :: rest =>
    if key ∈ positionMembers then members t parent rest
    else
      match value t parent v with
      | .error e => .error e
      | .ok t => members t parent rest

end

end Import

/-- Whether a value is an object with a text member `type`. -/
def Json.Value.isNode : Value → Bool
  | .object members => (Import.typeName? members).isSome
  | _ => false

/-- The syntax tree a value describes. -/
def Tree.ofValue (v : Value) : Except ImportError Tree :=
  if v.isNode then Import.value Tree.empty none v else .error .notANode

/-- The syntax tree a text describes. -/
def Tree.ofJson (text : String) : Except ImportError Tree :=
  match Json.parse .strict text with
  | .error e => .error (.notJson text e)
  | .ok v => Tree.ofValue v

end SolidityLint
