import SolidityLint.Tree.NodeType
import SolidityLint.Tree.Visibility

/-!
# Syntax tree nodes

A node carries what the parser said about it and its place in a tree: the number of its
parent and the numbers of its children. The category is read off the type name, so a
type name the linter does not know is kept as it was written.
-/

namespace SolidityLint

/-- A position in a source text: a line and a column that count from one, and a run of
characters given by its start and its length. A length of zero says that the run is
not known. -/
structure Span where
  line : UInt64
  column : UInt64
  offset : UInt64 := 0
  length : UInt64 := 0
  deriving DecidableEq, Repr

/-- A node of a syntax tree. -/
structure Node where
  /-- The type as the parser wrote it. -/
  typeName : String
  /-- The declared identifier, if there is one. -/
  name : Option String := none
  /-- The kind of declaration, such as `contract`, `interface` or `library`. -/
  kind : Option String := none
  /-- The declared visibility. -/
  visibility : Option Visibility := none
  /-- Whether a variable is declared constant. -/
  isConstant : Bool := false
  /-- Where the node stands in the source. -/
  span : Option Span := none
  /-- The number of the node it hangs on. -/
  parent : Option Nat := none
  /-- The numbers of the nodes that hang on it, in source order. -/
  children : Array Nat := #[]
  deriving DecidableEq, Repr

namespace Node

/-- The category of a node. -/
def nodeType (n : Node) : NodeType := NodeType.ofName n.typeName

/-- A node of a category, with nothing else said about it. -/
def ofType (t : NodeType) : Node := { typeName := t.name }

/-- The node without its place in a tree. -/
def detached (n : Node) : Node := { n with parent := none, children := #[] }

/-- The declared identifier; a node without one counts as having an empty one. -/
def nameD (n : Node) : String := n.name.getD ""

theorem nodeType_ofType (t : NodeType) : (ofType t).nodeType = t :=
  NodeType.ofName_name t

end Node

end SolidityLint
