import SolidityLint.Tree.Basic

/-!
# What a push does to a tree

A node is added as a root or under a node that is there. Either way three things can be
said, and they are all there is to say: the tree has one node more, the new node stands
under the next number without what it brought along about an earlier place, and of the
nodes that were there only the parent has changed, by one child at the end of its list.

`Pushed` holds these three facts. `pushRoot` and `pushChild` are opened here once;
everything above argues from `Pushed`.
-/

namespace SolidityLint

/-- The node with further children at the end of its list. -/
def Node.adopt (n : Node) (ids : List Nat) : Node :=
  { n with children := n.children ++ ids.toArray }

theorem Node.adopt_nil (n : Node) : n.adopt [] = n := by
  simp [Node.adopt]

/-- Children that come in two lots come to the same as all of them at once. -/
theorem Node.adopt_append (n : Node) (ids js : List Nat) :
    n.adopt (ids ++ js) = (n.adopt ids).adopt js := by
  simp [Node.adopt]

namespace Tree

/-- What node number `i` becomes when nodes with the numbers `ids` are added under
    `parent`. -/
def linked (parent : Option Nat) (ids : List Nat) (i : Nat) (n : Node) : Node :=
  if parent = some i then n.adopt ids else n

theorem linked_self (ids : List Nat) (i : Nat) (n : Node) :
    linked (some i) ids i n = n.adopt ids := if_pos rfl

theorem linked_of_ne {parent : Option Nat} {i : Nat} (h : parent ≠ some i)
    (ids : List Nat) (n : Node) : linked parent ids i n = n := if_neg h

theorem map_linked_of_ne {parent : Option Nat} {i : Nat} (h : parent ≠ some i)
    (ids : List Nat) (o : Option Node) : o.map (linked parent ids i) = o := by
  have hid : linked parent ids i = id := funext (linked_of_ne h ids)
  rw [hid, Option.map_id_fun, id]

/-- Without new numbers no node changes, the parent included. -/
theorem map_linked_nil (parent : Option Nat) (i : Nat) (o : Option Node) :
    o.map (linked parent [] i) = o := by
  by_cases h : parent = some i
  · have hid : linked parent [] i = id := by
      funext n
      rw [h, linked_self, Node.adopt_nil, id]
    rw [hid, Option.map_id_fun, id]
  · exact map_linked_of_ne h [] o

/-- Two additions under one parent are one addition of both lists of numbers. The import uses this
    to put the pushes of consecutive members together. -/
theorem linked_append (parent : Option Nat) (ids js : List Nat) (i : Nat) (n : Node) :
    linked parent (ids ++ js) i n = linked parent js i (linked parent ids i n) := by
  by_cases h : parent = some i
  · rw [h, linked_self, linked_self, linked_self, Node.adopt_append]
  · rw [linked_of_ne h, linked_of_ne h, linked_of_ne h]

-- ── Numbers and nodes ────────────────────────────────────────────────────────

theorem lt_size_of_get? {t : Tree} {i : Nat} {n : Node} (h : t.get? i = some n) :
    i < t.size := by
  obtain ⟨hi, -⟩ := Array.getElem?_eq_some_iff.mp h
  exact hi

/-- The children of a number are those that its node lists. -/
theorem childrenOf_of_get? {t : Tree} {i : Nat} {n : Node} (h : t.get? i = some n) :
    t.childrenOf i = n.children.toList := by
  rw [childrenOf, h]

/-- If the first node has no parent, it is the root: no earlier one can be found. -/
theorem root?_of_get? {t : Tree} {n : Node} (h : t.get? 0 = some n) (hn : n.parent = none) :
    t.root? = some 0 := by
  obtain ⟨hpos, hget⟩ := Array.getElem?_eq_some_iff.mp h
  rw [root?, Array.findIdx?_eq_some_iff_getElem]
  refine ⟨hpos, ?_, fun j hj => absurd hj (Nat.not_lt_zero j)⟩
  rw [hget, hn]
  rfl

-- ── One push ─────────────────────────────────────────────────────────────────

/-- `t'` is `t` with the node `n` added under `parent`, or as a root. -/
structure Pushed (t : Tree) (parent : Option Nat) (n : Node) (t' : Tree) : Prop where
  /-- The tree has one node more. -/
  size : t'.size = t.size + 1
  /-- The new node knows its parent and has no children yet. -/
  new : t'.get? t.size = some { n.detached with parent }
  /-- Only the parent has changed. -/
  old : ∀ i < t.size, t'.get? i = (t.get? i).map (linked parent [t.size] i)

/-- **Adding a root is a push without a parent.** -/
theorem pushRoot_pushed (t : Tree) (n : Node) : Pushed t none n (t.pushRoot n) := by
  refine ⟨?_, ?_, ?_⟩
  · show (t.nodes.push n.detached).size = t.nodes.size + 1
    exact Array.size_push _
  · show (t.nodes.push n.detached)[t.nodes.size]? = some n.detached
    exact Array.getElem?_push_size
  · intro i hi
    have hne : (none : Option Nat) ≠ some i := nofun
    rw [map_linked_of_ne hne]
    show (t.nodes.push n.detached)[i]? = t.nodes[i]?
    rw [Array.getElem?_push, if_neg (show i ≠ t.nodes.size from Nat.ne_of_lt hi)]

/-- **Adding a child is a push under its parent**, and it works only if the parent is there. The
    new number goes to the end of the one list that changes. -/
theorem pushChild_pushed {t t' : Tree} {p : Nat} {n : Node}
    (h : t.pushChild p n = .ok t') : p < t.size ∧ Pushed t (some p) n t' := by
  rw [pushChild] at h
  by_cases hp : p < t.size
  · refine ⟨hp, ?_⟩
    rw [if_pos hp] at h
    obtain rfl := Except.ok.inj h
    refine ⟨?_, ?_, ?_⟩
    · show (Array.push _ _).size = t.nodes.size + 1
      rw [Array.size_push, Array.size_modify]
    · show (Array.push _ _)[t.nodes.size]? = _
      rw [Array.getElem?_push, Array.size_modify, if_pos rfl]
    · intro i hi
      show (Array.push _ _)[i]? = t.nodes[i]?.map _
      rw [Array.getElem?_push, Array.size_modify,
        if_neg (show i ≠ t.nodes.size from Nat.ne_of_lt hi), Array.getElem?_modify]
      by_cases hpi : p = i
      · rw [if_pos hpi, hpi]
        refine congrArg (Option.map · t.nodes[i]?) (funext fun m => ?_)
        rw [linked_self, Node.adopt]
        simp
      · rw [if_neg hpi]
        have hne : some p ≠ some i := fun he => hpi (Option.some.inj he)
        exact (map_linked_of_ne hne [t.size] t.nodes[i]?).symm
  · rw [if_neg hp] at h
    exact nomatch h

end Tree

end SolidityLint
