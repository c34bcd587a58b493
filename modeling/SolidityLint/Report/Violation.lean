import SolidityLint.Tree.Basic

/-!
# Violations

What a rule has to say about a node, and where the node stands.
-/

namespace SolidityLint

/-- A place in a file. Line and column are zero when they are not known, and so is the
length of the run of characters. -/
structure Location where
  file : String
  line : UInt64
  column : UInt64
  offset : UInt64 := 0
  length : UInt64 := 0
  deriving DecidableEq, Repr

/-- The place of a node in a file. -/
def Location.ofNode (file : String) (n : Node) : Location :=
  match n.span with
  | some s => ⟨file, s.line, s.column, s.offset, s.length⟩
  | none => ⟨file, 0, 0, 0, 0⟩

/-- A breach of a rule. -/
structure Violation where
  /-- The id of the rule. -/
  rule : String
  /-- The type of the node, as the parser wrote it. -/
  nodeType : String
  location : Location
  message : String
  deriving DecidableEq, Repr

namespace Violation

/-- The breach of a rule by a node. -/
def ofNode (file rule : String) (n : Node) (message : String) : Violation :=
  ⟨rule, n.typeName, Location.ofNode file n, message⟩

/-- A natural number in decimal digits. -/
def decimal (n : UInt64) : String := String.ofList (Nat.toDigits 10 n.toNat)

/-- The violation on one line. -/
def line (v : Violation) : String :=
  v.location.file ++ ":" ++ decimal v.location.line ++ ":" ++ decimal v.location.column
    ++ ": [" ++ v.rule ++ "] " ++ v.message

end Violation

end SolidityLint
