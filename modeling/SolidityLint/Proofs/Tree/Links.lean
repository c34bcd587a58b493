import SolidityLint.Proofs.Tree.Push

/-!
# Trees made by pushes

A tree keeps its links twice: every node knows the number of its parent, and every node
lists the numbers of its children. The two are never out of step, because one of them
determines the other: the children of a node are the numbers, in increasing order, of the
nodes that name it as their parent (`Linked`). A push keeps this (`Pushed.linked`), and a
push that is rejected changes nothing, so it holds after any run of pushes, and whatever
else is said about links here is read off it.
-/

namespace SolidityLint

/-- A node that is to be added, as a root or under the node with a given number. -/
inductive Push where
  | root (n : Node)
  | child (parent : Nat) (n : Node)

namespace Tree

/-- The number of the node that a node hangs on. -/
def parentOf? (t : Tree) (i : Nat) : Option Nat := (t.get? i).bind Node.parent

/-- The tree after a push. A push that is rejected leaves the tree as it was. -/
def push (t : Tree) : Push → Tree
  | .root n => t.pushRoot n
  | .child p n =>
    match t.pushChild p n with
    | .ok t' => t'
    | .error _ => t

/-- The tree that a run of pushes makes out of nothing. -/
def ofPushes (pushes : List Push) : Tree := pushes.foldl push empty

-- ── What a push does to the links ────────────────────────────────────────────

theorem get?_eq_none {t : Tree} {i : Nat} (h : t.size ≤ i) : t.get? i = none :=
  Array.getElem?_eq_none h

theorem lt_size_of_parentOf? {t : Tree} {i p : Nat} (h : t.parentOf? i = some p) :
    i < t.size := by
  obtain ⟨n, hn, -⟩ := Option.bind_eq_some_iff.mp h
  exact lt_size_of_get? hn

theorem childrenOf_eq_nil {t : Tree} {p : Nat} (h : t.size ≤ p) : t.childrenOf p = [] := by
  rw [childrenOf, get?_eq_none h]

/-- Taking in children does not change whose child a node is. -/
theorem parent_linked (parent : Option Nat) (ids : List Nat) (i : Nat) (n : Node) :
    (linked parent ids i n).parent = n.parent := by
  by_cases h : parent = some i
  · rw [h, linked_self]
    rfl
  · rw [linked_of_ne h]

/-- A push changes no parent of a node that is there. -/
theorem Pushed.parentOf?_old {t t' : Tree} {parent : Option Nat} {n : Node}
    (h : Pushed t parent n t') {i : Nat} (hi : i < t.size) :
    t'.parentOf? i = t.parentOf? i := by
  rw [parentOf?, parentOf?, h.old i hi]
  cases t.get? i with
  | none => rfl
  | some m => exact parent_linked parent [t.size] i m

theorem Pushed.parentOf?_new {t t' : Tree} {parent : Option Nat} {n : Node}
    (h : Pushed t parent n t') : t'.parentOf? t.size = parent := by
  rw [parentOf?, h.new]
  rfl

/-- The parent gets the new number at the end of its list, and no other list changes. -/
theorem Pushed.childrenOf_eq {t t' : Tree} {parent : Option Nat} {n : Node}
    (h : Pushed t parent n t') (hparent : ∀ p, parent = some p → p < t.size) (p : Nat) :
    t'.childrenOf p = t.childrenOf p ++ if parent = some p then [t.size] else [] := by
  by_cases hp : p < t.size
  · obtain ⟨m, hm⟩ : ∃ m, t.get? p = some m := ⟨_, Array.getElem?_eq_getElem hp⟩
    have hm' : t'.get? p = some (linked parent [t.size] p m) := by
      rw [h.old p hp, hm]
      rfl
    rw [childrenOf_of_get? hm, childrenOf_of_get? hm']
    by_cases hpar : parent = some p
    · rw [if_pos hpar, hpar, linked_self, Node.adopt]
      simp
    · rw [if_neg hpar, linked_of_ne hpar, List.append_nil]
  · have hnone : parent ≠ some p := fun he => hp (hparent p he)
    rw [if_neg hnone, childrenOf_eq_nil (Nat.le_of_not_lt hp), List.append_nil]
    -- the new node has no children yet, and behind it there is no node
    by_cases hnew : p = t.size
    · rw [hnew, childrenOf_of_get? h.new]
      rfl
    · refine childrenOf_eq_nil ?_
      rw [h.size]
      omega

-- ── The invariant ────────────────────────────────────────────────────────────

/-- The links of a tree agree: a parent comes before its children, and the children of a
    node are those that name it as their parent, in increasing order. -/
structure Linked (t : Tree) : Prop where
  parent_lt : ∀ {i p : Nat}, t.parentOf? i = some p → p < i
  children_eq : ∀ p, t.childrenOf p
    = (List.range t.size).filter fun i => decide (t.parentOf? i = some p)

theorem linked_empty : Linked empty where
  parent_lt h := absurd (lt_size_of_parentOf? h) (Nat.not_lt_zero _)
  children_eq p := childrenOf_eq_nil (Nat.zero_le p)

/-- **A push keeps the links in step.** -/
theorem Pushed.linked {t t' : Tree} {parent : Option Nat} {n : Node} (ht : Linked t)
    (hparent : ∀ p, parent = some p → p < t.size) (h : Pushed t parent n t') : Linked t' where
  parent_lt := by
    intro i p hi
    have hlt : i < t.size + 1 := h.size ▸ lt_size_of_parentOf? hi
    rcases Nat.lt_succ_iff_lt_or_eq.mp hlt with hold | rfl
    · rw [h.parentOf?_old hold] at hi
      exact ht.parent_lt hi
    · rw [h.parentOf?_new] at hi
      exact hparent p hi
  children_eq := by
    intro p
    have hold : (List.range t.size).filter (fun i => decide (t'.parentOf? i = some p))
        = (List.range t.size).filter fun i => decide (t.parentOf? i = some p) := by
      refine List.filter_congr fun i hi => ?_
      rw [h.parentOf?_old (List.mem_range.mp hi)]
    have hnew : [t.size].filter (fun i => decide (t'.parentOf? i = some p))
        = if parent = some p then [t.size] else [] := by
      simp only [List.filter_cons, List.filter_nil, h.parentOf?_new, decide_eq_true_eq]
    rw [h.childrenOf_eq hparent, ht.children_eq, h.size, List.range_succ, List.filter_append,
      hold, hnew]

/-- A child is accepted under a node that is there. -/
theorem pushChild_of_lt {t : Tree} {p : Nat} (hp : p < t.size) (n : Node) :
    t.pushChild p n = .ok (t.push (.child p n)) := by
  have hok : ∃ t', t.pushChild p n = .ok t' := ⟨_, if_pos hp⟩
  obtain ⟨t', ht'⟩ := hok
  rw [push, ht']

/-- A child is rejected under a number without a node, and the error names that number. -/
theorem pushChild_of_le {t : Tree} {p : Nat} (hp : t.size ≤ p) (n : Node) :
    t.pushChild p n = .error (.unknownParent p) := if_neg (Nat.not_lt.mpr hp)

/-- A rejected child leaves the tree as it was. -/
theorem push_child_of_le {t : Tree} {p : Nat} (hp : t.size ≤ p) (n : Node) :
    t.push (.child p n) = t := by
  rw [push, pushChild_of_le hp n]

/-- **One push, accepted or not, keeps the links in step.** -/
theorem linked_push {t : Tree} (ht : Linked t) (a : Push) : Linked (t.push a) := by
  cases a with
  | root n =>
      refine (pushRoot_pushed t n).linked ht fun p hp => ?_
      exact nomatch hp
  | child p n =>
      by_cases hp : p < t.size
      · obtain ⟨-, hpushed⟩ := pushChild_pushed (pushChild_of_lt hp n)
        refine hpushed.linked ht fun q hq => ?_
        rw [← Option.some.inj hq]
        exact hp
      · rw [push_child_of_le (Nat.le_of_not_lt hp) n]
        exact ht

/-- The links stay in step over any run of pushes. -/
theorem linked_foldl_push (pushes : List Push) :
    ∀ {t : Tree}, Linked t → Linked (pushes.foldl push t) := by
  induction pushes with
  | nil => exact fun ht => ht
  | cons a pushes ih => exact fun ht => ih (linked_push ht a)

/-- **Whatever pushes make a tree, its links agree.** -/
theorem linked_ofPushes (pushes : List Push) : Linked (ofPushes pushes) :=
  linked_foldl_push pushes linked_empty

theorem ofPushes_concat (pushes : List Push) (a : Push) :
    ofPushes (pushes ++ [a]) = (ofPushes pushes).push a := by
  rw [ofPushes, List.foldl_append]
  rfl

-- ── What agreeing links amount to ────────────────────────────────────────────

/-- The links of a tree, seen from a child and from a parent. -/
structure WellFormed (t : Tree) : Prop where
  /-- A parent has a smaller number than its child. -/
  parent_lt : ∀ i p, t.parentOf? i = some p → p < i
  /-- A child stands once in the list of its parent. -/
  count_eq_one : ∀ i p, t.parentOf? i = some p → (t.childrenOf p).count i = 1
  /-- A node stands in no other list. -/
  not_mem : ∀ i q, t.parentOf? i ≠ some q → i ∉ t.childrenOf q
  /-- Children are listed in the order in which they were added. -/
  children_sorted : ∀ p, (t.childrenOf p).Pairwise (· < ·)
  /-- A list holds only nodes of the tree, and they name its owner as their parent. -/
  parent_of_mem : ∀ p, ∀ c ∈ t.childrenOf p, c < t.size ∧ t.parentOf? c = some p
  /-- The first node hangs on no other, and the walk starts there. -/
  root : ∀ n, t.get? 0 = some n → n.parent = none ∧ t.root? = some 0

namespace Linked

variable {t : Tree}

/-- A node lists another as its child just if the other names it as its parent. -/
theorem mem_childrenOf_iff (ht : Linked t) {i p : Nat} :
    i ∈ t.childrenOf p ↔ t.parentOf? i = some p := by
  rw [ht.children_eq, List.mem_filter, List.mem_range, decide_eq_true_iff]
  exact and_iff_right_of_imp lt_size_of_parentOf?

/-- Children are listed in the order in which they were added. -/
theorem childrenOf_sorted (ht : Linked t) (p : Nat) : (t.childrenOf p).Pairwise (· < ·) := by
  rw [ht.children_eq]
  exact List.pairwise_lt_range.filter _

/-- The first node has no parent, since a parent would have to come before it. -/
theorem parent_of_first (ht : Linked t) {n : Node} (h : t.get? 0 = some n) :
    n.parent = none := by
  have hparent : t.parentOf? 0 = n.parent := by
    rw [parentOf?, h]
    rfl
  cases hn : n.parent with
  | none => rfl
  | some p => exact absurd (ht.parent_lt (hparent.trans hn)) (Nat.not_lt_zero p)

/-- What is said of a well-formed tree can be read off its links. -/
theorem wellFormed (ht : Linked t) : t.WellFormed where
  parent_lt _ _ := ht.parent_lt
  count_eq_one i p hi := by
    have hnodup : (t.childrenOf p).Nodup := (ht.childrenOf_sorted p).imp Nat.ne_of_lt
    have hone : (t.childrenOf p).count i ≤ 1 := List.nodup_iff_count.mp hnodup i
    have hpos : 0 < (t.childrenOf p).count i :=
      List.count_pos_iff.mpr (ht.mem_childrenOf_iff.mpr hi)
    omega
  not_mem _ _ hi hmem := hi (ht.mem_childrenOf_iff.mp hmem)
  children_sorted := ht.childrenOf_sorted
  parent_of_mem p c hc :=
    have hparent := ht.mem_childrenOf_iff.mp hc
    ⟨lt_size_of_parentOf? hparent, hparent⟩
  root n hn := ⟨ht.parent_of_first hn, root?_of_get? hn (ht.parent_of_first hn)⟩

end Linked

end Tree

-- ── Moving along the links ───────────────────────────────────────────────────

/-- Moving along a link of the node in focus leads to the node with that number. -/
structure Focus.Connected (f : Focus) : Prop where
  parent?_eq : ∀ p, f.node.parent = some p → ∃ h, f.parent? = some ⟨f.tree, ⟨p, h⟩⟩
  /-- Only a node that hangs on no other has no parent to move to. -/
  parent_eq_none : f.parent? = none → f.node.parent = none
  moveTo?_eq : ∀ c ∈ f.node.children, ∃ h, f.moveTo? c = some ⟨f.tree, ⟨c, h⟩⟩

theorem Focus.moveTo?_of_lt {f : Focus} {i : Nat} (h : i < f.tree.size) :
    f.moveTo? i = some ⟨f.tree, ⟨i, h⟩⟩ := dif_pos h

theorem Focus.get?_id (f : Focus) : f.tree.get? f.id = some f.node :=
  Array.getElem?_eq_getElem f.id.isLt

/-- At every place of a tree whose links agree, going up and going down agree. -/
theorem Tree.Linked.connected {f : Focus} (ht : f.tree.Linked) : f.Connected := by
  have hparent : ∀ p, f.node.parent = some p → ∃ h, f.parent? = some ⟨f.tree, ⟨p, h⟩⟩ := by
    intro p hp
    have hlink : f.tree.parentOf? f.id = some p := by
      rw [Tree.parentOf?, f.get?_id]
      exact hp
    have hlt : p < f.tree.size := Nat.lt_trans (ht.parent_lt hlink) f.id.isLt
    refine ⟨hlt, ?_⟩
    rw [Focus.parent?, hp]
    exact Focus.moveTo?_of_lt hlt
  refine ⟨hparent, ?_, ?_⟩
  · intro hnone
    cases hp : f.node.parent with
    | none => rfl
    | some p =>
        obtain ⟨_, hsome⟩ := hparent p hp
        exact nomatch hnone.symm.trans hsome
  · intro c hc
    have hmem : c ∈ f.tree.childrenOf f.id := by
      rw [Tree.childrenOf_of_get? f.get?_id]
      exact Array.mem_toList_iff.mpr hc
    have hlt := Tree.lt_size_of_parentOf? (ht.mem_childrenOf_iff.mp hmem)
    exact ⟨hlt, Focus.moveTo?_of_lt hlt⟩

/-- **Whatever is pushed, the links of a tree agree.** After any run of pushes, accepted
    or not, the tree is well-formed, and every link of every node leads to a node. One more
    push adds the node, without the links it brought along, and changes nothing else but
    the list of its parent; it is rejected exactly if there is no such parent, and then
    the tree stays as it is. -/
theorem Tree.ofPushes_wellFormed (pushes : List Push) :
    (ofPushes pushes).WellFormed ∧
      (∀ f : Focus, f.tree = ofPushes pushes → f.Connected) ∧
      ∀ n, Pushed (ofPushes pushes) none n (ofPushes (pushes ++ [.root n])) ∧
        ∀ p,
          (p < (ofPushes pushes).size →
            (ofPushes pushes).pushChild p n = .ok (ofPushes (pushes ++ [.child p n])) ∧
              Pushed (ofPushes pushes) (some p) n (ofPushes (pushes ++ [.child p n]))) ∧
          ((ofPushes pushes).size ≤ p →
            (ofPushes pushes).pushChild p n = .error (.unknownParent p) ∧
              ofPushes (pushes ++ [.child p n]) = ofPushes pushes) := by
  have hlinked := linked_ofPushes pushes
  refine ⟨hlinked.wellFormed, ?_, ?_⟩
  · intro f hf
    exact Linked.connected (hf ▸ hlinked)
  · intro n
    refine ⟨?_, fun p => ⟨fun hp => ?_, fun hp => ?_⟩⟩
    · rw [ofPushes_concat]
      exact pushRoot_pushed _ n
    · rw [ofPushes_concat]
      have hok := pushChild_of_lt hp n
      exact ⟨hok, (pushChild_pushed hok).2⟩
    · rw [ofPushes_concat]
      exact ⟨pushChild_of_le hp n, push_child_of_le hp n⟩

-- a push without a parent to go to is rejected, and the links a node brings along are dropped
example :
    let t := Tree.ofPushes
      [.root { typeName := "SourceUnit" }, .child 5 { typeName := "Block" },
        .child 0 { typeName := "Block", parent := some 7, children := #[0] },
        .root { typeName := "SourceUnit" }, .child 0 { typeName := "Block" }]
    t.size = 4 ∧ t.childrenOf 0 = [1, 3] ∧ t.childrenOf 1 = [] ∧ t.parentOf? 1 = some 0 ∧
      t.parentOf? 2 = none := by
  decide

end SolidityLint
