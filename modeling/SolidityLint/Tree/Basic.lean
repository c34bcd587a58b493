import SolidityLint.Tree.Node

/-!
# Syntax trees

A tree numbers its nodes from zero in the order in which they were added. Every node
is added either as a root or as the last child of a node that is already there, and
what it brought along about an earlier place is dropped. So a parent always has a
smaller number than its children, which bounds the walk from a node down to the leaves.
-/

namespace SolidityLint

/-- A growing forest of syntax nodes. -/
structure Tree where
  /-- The nodes, each at the place of its number. -/
  nodes : Array Node := #[]
  deriving DecidableEq, Repr

/-- Why a node cannot be added. -/
inductive TreeError where
  /-- The tree has no node with the number given as parent. -/
  | unknownParent (id : Nat)
  deriving DecidableEq, Repr

/-- What is said about a node that cannot be added. -/
def TreeError.message : TreeError → String
  | unknownParent id => "parent node NodeId(" ++ toString id ++ ") does not exist"

namespace Tree

/-- The tree with no nodes. -/
def empty : Tree := {}

/-- The number of nodes, which is also the number the next node gets. -/
def size (t : Tree) : Nat := t.nodes.size

/-- Whether there are no nodes. -/
def isEmpty (t : Tree) : Bool := t.nodes.isEmpty

/-- Adds a node that hangs on no other. -/
def pushRoot (t : Tree) (n : Node) : Tree :=
  ⟨t.nodes.push n.detached⟩

/-- Adds a node as the last child of the node with a given number. -/
def pushChild (t : Tree) (parent : Nat) (n : Node) : Except TreeError Tree :=
  let id := t.size
  if parent < id then
    let linked := t.nodes.modify parent fun p => { p with children := p.children.push id }
    .ok ⟨linked.push { n.detached with parent := some parent }⟩
  else .error (.unknownParent parent)

/-- The node with a given number. -/
def get? (t : Tree) (id : Nat) : Option Node := t.nodes[id]?

/-- The number of the first node that hangs on no other. -/
def root? (t : Tree) : Option Nat := t.nodes.findIdx? fun n => n.parent.isNone

end Tree

-- ── Nodes seen in their tree ─────────────────────────────────────────────────

/-- A node seen in its tree. -/
structure Focus where
  /-- The tree the node stands in. -/
  tree : Tree
  /-- The number of the node. -/
  id : Fin tree.nodes.size

namespace Focus

/-- The node in focus. -/
def node (f : Focus) : Node := f.tree.nodes[f.id]

/-- Moves to another node of the same tree. -/
def moveTo? (f : Focus) (id : Nat) : Option Focus :=
  if h : id < f.tree.nodes.size then some ⟨f.tree, ⟨id, h⟩⟩ else none

/-- Moves to the parent. -/
def parent? (f : Focus) : Option Focus := f.node.parent.bind f.moveTo?

end Focus

namespace Tree

/-- Puts a node in focus. -/
def focus? (t : Tree) (id : Nat) : Option Focus :=
  if h : id < t.nodes.size then some ⟨t, ⟨id, h⟩⟩ else none

/-- Every node in focus, in the order in which they were added. -/
def focuses (t : Tree) : List Focus := (List.finRange t.nodes.size).map (Focus.mk t)

-- ── The walk from a node down to the leaves ──────────────────────────────────

/-- The numbers of the children of a node. -/
def childrenOf (t : Tree) (id : Nat) : List Nat :=
  match t.get? id with
  | some n => n.children.toList
  | none => []

/-- The numbers met when walking at most `depth` levels down from a node: the node
itself, then its children's subtrees one after the other. -/
def walkDown (t : Tree) : (depth : Nat) → (id : Nat) → List Nat
  | 0, _ => []
  | depth + 1, id => id :: (t.childrenOf id).flatMap (t.walkDown depth)

/-- The numbers met when walking the subtree below a node. No path in a tree is longer
than the tree has nodes. -/
def walkFrom (t : Tree) (id : Nat) : List Nat := t.walkDown t.size id

/-- The numbers met when walking the first tree of the forest. -/
def walk (t : Tree) : List Nat :=
  match t.root? with
  | some id => t.walkFrom id
  | none => []

end Tree

end SolidityLint
