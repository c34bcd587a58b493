import Mathlib.Data.List.Basic
import Mathlib.Logic.Relation
import SolidityLint.Proofs.Lint.Traversal
import SolidityLint.Proofs.Tree.Links

/-!
# The walk over a tree made by pushes

The walk goes from a node to its children by their numbers and keeps no account of where it
has been. In a tree that was made by pushes it needs none: a child has a larger number than
its parent, so going down comes to an end (`Linked.descend`), and a node has one parent, so
it is met in one place only.

`Walks` is the walk without a bound on its depth. That it ends, which nodes it meets and in
which order are all read off one equation, in which the bound does not occur
(`Linked.walkFrom_eq`): the walk from a node is the node and the walks from its children, in
the order in which they are listed. Climbing from parent to parent (`Climbs`) says where a
node belongs without going down: the walk from a node meets exactly the nodes from which one
climbs to it (`Linked.mem_walkFrom_iff`), and never an ancestor after its descendant
(`Linked.pairwise_walkFrom`).
-/

namespace SolidityLint

namespace Tree

variable {t : Tree}

/-- A walk down from a node that comes to an end: it meets the node, and then what the walks
    from its children meet, one after the other. -/
inductive Walks (t : Tree) : Nat → List Nat → Prop where
  | node {id : Nat} {below : Nat → List Nat} (h : ∀ c ∈ t.childrenOf id, Walks t c (below c)) :
      Walks t id (id :: (t.childrenOf id).flatMap below)

/-- Going from parent to parent, any number of times, leads from one node to another. -/
abbrev Climbs (t : Tree) : Nat → Nat → Prop :=
  Relation.ReflTransGen fun i p => t.parentOf? i = some p

/-- The chain of parents of a node ends at a given root. -/
def EndsAt (t : Tree) (i r : Nat) : Prop := t.Climbs i r ∧ t.parentOf? r = none

/-- A walk that ends meets the same nodes every time. -/
theorem Walks.unique {id : Nat} {ids ids' : List Nat} (h : t.Walks id ids)
    (h' : t.Walks id ids') : ids' = ids := by
  induction h generalizing ids' with
  | @node id below _ ih =>
      cases h' with
      | @node _ below' hbelow' =>
          refine congrArg (id :: ·) (List.flatMap_congr fun c hc => ?_)
          exact ih c hc (hbelow' c hc)

/-- From one node there is one way up. -/
theorem Climbs.total {i a b : Nat} (ha : t.Climbs i a) (hb : t.Climbs i b) :
    t.Climbs a b ∨ t.Climbs b a :=
  Relation.ReflTransGen.total_of_right_unique
    (fun _ _ _ h h' => Option.some.inj (h.symm.trans h')) ha hb

theorem Climbs.lt_size {i r : Nat} (h : t.Climbs i r) (hr : r < t.size) : i < t.size := by
  rcases h.cases_head with rfl | ⟨p, hp, -⟩
  · exact hr
  · exact lt_size_of_parentOf? hp

/-- There is nothing above the end of a chain. -/
theorem EndsAt.climbs {i r a : Nat} (hr : t.EndsAt i r) (ha : t.Climbs i a) : t.Climbs a r := by
  rcases ha.total hr.1 with h | h
  · exact h
  · rcases h.cases_head with rfl | ⟨p, hp, -⟩
    · exact .refl
    · exact nomatch hr.2.symm.trans hp

theorem EndsAt.unique {i r r' : Nat} (h : t.EndsAt i r) (h' : t.EndsAt i r') : r = r' := by
  rcases (h'.climbs h.1).cases_head with heq | ⟨p, hp, -⟩
  · exact heq
  · exact nomatch h.2.symm.trans hp

namespace Linked

/-- A child is a node of the tree and comes after its parent. -/
theorem lt_of_mem_childrenOf (ht : t.Linked) {i c : Nat} (hc : c ∈ t.childrenOf i) :
    i < c ∧ c < t.size := by
  have hparent := ht.mem_childrenOf_iff.mp hc
  exact ⟨ht.parent_lt hparent, lt_size_of_parentOf? hparent⟩

theorem le_of_climbs (ht : t.Linked) {i a : Nat} (h : t.Climbs i a) : a ≤ i := by
  induction h with
  | refl => exact Nat.le_refl i
  | tail _ hparent ih => exact Nat.le_trans (Nat.le_of_lt (ht.parent_lt hparent)) ih

/-- No child of a node is above another. -/
theorem eq_of_climbs_sibling (ht : t.Linked) {p c c' : Nat} (hc : t.parentOf? c = some p)
    (hc' : t.parentOf? c' = some p) (h : t.Climbs c c') : c = c' := by
  rcases h.cases_head with heq | ⟨q, hq, hclimb⟩
  · exact heq
  · obtain rfl : p = q := Option.some.inj (hc.symm.trans hq)
    exact absurd (ht.le_of_climbs hclimb) (Nat.not_le.mpr (ht.parent_lt hc'))

/-- Among the children of a node at most one is above a given node. -/
theorem sibling_unique (ht : t.Linked) {i p c c' : Nat} (hc : t.parentOf? c = some p)
    (hc' : t.parentOf? c' = some p) (h : t.Climbs i c) (h' : t.Climbs i c') : c = c' := by
  rcases h.total h' with hclimb | hclimb
  · exact ht.eq_of_climbs_sibling hc hc' hclimb
  · exact (ht.eq_of_climbs_sibling hc' hc hclimb).symm

-- ── Going down comes to an end ───────────────────────────────────────────────

/-- What holds of a node if it holds of its children holds of all nodes. -/
theorem descend (ht : t.Linked) {P : Nat → Prop}
    (h : ∀ i < t.size, (∀ c ∈ t.childrenOf i, P c) → P i) (i : Nat) (hi : i < t.size) : P i :=
  h i hi fun c hc => descend ht h c (ht.lt_of_mem_childrenOf hc).2
termination_by t.size - i
decreasing_by
  have hlt := ht.lt_of_mem_childrenOf hc
  omega

/-- All bounds that reach to the last number give the same walk. -/
theorem walkDown_congr (ht : t.Linked) {d d' id : Nat} (hid : id < t.size)
    (hd : t.size ≤ d + id) (hd' : t.size ≤ d' + id) : t.walkDown d id = t.walkDown d' id := by
  induction d generalizing d' id with
  | zero => omega
  | succ d ih =>
      cases d' with
      | zero => omega
      | succ d' =>
          refine congrArg (id :: ·) (List.flatMap_congr fun c hc => ?_)
          have hlt := ht.lt_of_mem_childrenOf hc
          exact ih hlt.2 (by omega) (by omega)

/-- **The walk from a node is the node and the walks from its children.** -/
theorem walkFrom_eq (ht : t.Linked) {i : Nat} (hi : i < t.size) :
    t.walkFrom i = i :: (t.childrenOf i).flatMap t.walkFrom := by
  -- with one level more the walk takes its first step, and the bound does not matter
  show t.walkDown t.size i = t.walkDown (t.size + 1) i
  exact ht.walkDown_congr hi (by omega) (by omega)

/-- **What the walk lists is a walk**, at every node of a tree whose links agree. -/
theorem walks_walkFrom (ht : t.Linked) : ∀ i < t.size, t.Walks i (t.walkFrom i) :=
  ht.descend fun i hi ih => by
    rw [ht.walkFrom_eq hi]
    exact .node ih

-- ── What the walk meets, and when ────────────────────────────────────────────

/-- **The walk from a node meets the nodes from which one climbs to it.** -/
theorem mem_walkFrom_iff (ht : t.Linked) {i j : Nat} (hi : i < t.size) :
    j ∈ t.walkFrom i ↔ t.Climbs j i := by
  refine ht.descend (P := fun i => ∀ j, j ∈ t.walkFrom i ↔ t.Climbs j i) ?_ i hi j
  intro i hi ih j
  rw [ht.walkFrom_eq hi, List.mem_cons, List.mem_flatMap, Climbs,
    Relation.ReflTransGen.cases_tail_iff]
  refine or_congr eq_comm (exists_congr fun c => ?_)
  constructor
  · rintro ⟨hc, hj⟩
    exact ⟨(ih c hc j).mp hj, ht.mem_childrenOf_iff.mp hc⟩
  · rintro ⟨hj, hparent⟩
    have hc := ht.mem_childrenOf_iff.mpr hparent
    exact ⟨hc, (ih c hc j).mpr hj⟩

/-- **Of two nodes that are met one after the other, the second is not above the first**, and
    in particular not the same. -/
theorem pairwise_walkFrom (ht : t.Linked) :
    ∀ i < t.size, (t.walkFrom i).Pairwise fun a b => ¬ t.Climbs a b := by
  refine ht.descend fun i hi ih => ?_
  have hmem : ∀ {c j}, c ∈ t.childrenOf i → j ∈ t.walkFrom c → t.Climbs j c := by
    intro c j hc hj
    exact (ht.mem_walkFrom_iff (ht.lt_of_mem_childrenOf hc).2).mp hj
  rw [ht.walkFrom_eq hi, List.pairwise_cons, List.pairwise_flatMap]
  refine ⟨?_, ih, ?_⟩
  · intro b hb hclimb
    obtain ⟨c, hc, hbc⟩ := List.mem_flatMap.mp hb
    have hle := ht.le_of_climbs (hmem hc hbc)
    have hle' := ht.le_of_climbs hclimb
    have hlt := ht.lt_of_mem_childrenOf hc
    omega
  · -- what is below one of two siblings does not climb to what is below the other
    refine (ht.childrenOf_sorted i).imp_of_mem ?_
    intro c c' hc hc' hlt a ha b hb hclimb
    have heq := ht.sibling_unique (ht.mem_childrenOf_iff.mp hc)
      (ht.mem_childrenOf_iff.mp hc') (hmem hc ha) (hclimb.trans (hmem hc' hb))
    exact absurd heq (Nat.ne_of_lt hlt)

/-- What is above a node is met before it. -/
theorem mem_before (ht : t.Linked) {r i a : Nat} (hr : r < t.size) {before after : List Nat}
    (hsplit : t.walkFrom r = before ++ i :: after) (hi : t.Climbs i a) (ha : t.Climbs a r)
    (hne : a ≠ i) : a ∈ before := by
  have hpairwise := ht.pairwise_walkFrom r hr
  have hmem := (ht.mem_walkFrom_iff hr).mpr ha
  rw [hsplit] at hpairwise hmem
  rcases List.mem_append.mp hmem with hmem | hmem
  · exact hmem
  · obtain ⟨-, hafter, -⟩ := List.pairwise_append.mp hpairwise
    rcases List.mem_cons.mp hmem with heq | hmem
    · exact absurd heq hne
    · exact absurd hi ((List.pairwise_cons.mp hafter).1 a hmem)

/-- The walk from a node that is met is a part of the walk that meets it. -/
theorem walkFrom_infix (ht : t.Linked) {i r : Nat} (h : t.Climbs i r) :
    t.walkFrom i <:+: t.walkFrom r := by
  induction h using Relation.ReflTransGen.head_induction_on with
  | refl => exact List.infix_refl _
  | @head i p hparent _ ih =>
      have hp : p < t.size := Nat.lt_trans (ht.parent_lt hparent) (lt_size_of_parentOf? hparent)
      obtain ⟨before, after, hchildren⟩ :=
        List.append_of_mem (ht.mem_childrenOf_iff.mpr hparent)
      have hinfix : t.walkFrom i <:+: t.walkFrom p := by
        rw [ht.walkFrom_eq hp, hchildren, List.flatMap_append, List.flatMap_cons]
        exact ⟨p :: before.flatMap t.walkFrom, after.flatMap t.walkFrom, by simp⟩
      exact hinfix.trans ih

theorem parentOf?_zero (ht : t.Linked) : t.parentOf? 0 = none := by
  cases h : t.parentOf? 0 with
  | none => rfl
  | some p => exact absurd (ht.parent_lt h) (Nat.not_lt_zero p)

end Linked

/-- What it means that a walk over a forest covers its first tree, and nothing else. -/
structure CoversFirst (t : Tree) (ids : List Nat) : Prop where
  /-- Going down from the first node without a bound comes to an end, and meets this. -/
  walks_iff : ∀ ids', t.Walks 0 ids' ↔ ids' = ids
  nodup : ids.Nodup
  lt_size : ∀ i ∈ ids, i < t.size
  /-- A node is met if and only if its chain of parents ends at the first node. -/
  mem_iff : ∀ i, i ∈ ids ↔ t.EndsAt i 0
  /-- No node of another tree is met. -/
  not_mem : ∀ i r, t.EndsAt i r → r ≠ 0 → i ∉ ids
  /-- A node is met after all that are above it. -/
  above_mem : ∀ before i after, ids = before ++ i :: after →
    ∀ a, t.Climbs i a → a ≠ i → a ∈ before
  /-- What is below a node is met in one go: the node, then what is below its children, one
      child after the other in the order in which they are listed. -/
  subtree : ∀ i ∈ ids, t.walkFrom i <:+: ids ∧ (∀ j, j ∈ t.walkFrom i ↔ t.Climbs j i) ∧
    t.walkFrom i = i :: (t.childrenOf i).flatMap t.walkFrom

/-- The walk from the first node goes over its whole tree, ancestors first. -/
theorem Linked.coversFirst (ht : t.Linked) (hpos : 0 < t.size) :
    t.CoversFirst (t.walkFrom 0) := by
  have hmem : ∀ {i}, i ∈ t.walkFrom 0 ↔ t.EndsAt i 0 := by
    intro i
    rw [ht.mem_walkFrom_iff hpos]
    exact (and_iff_left ht.parentOf?_zero).symm
  have hlt : ∀ i ∈ t.walkFrom 0, i < t.size := by
    intro i hi
    exact (hmem.mp hi).1.lt_size hpos
  refine ⟨?_, ?_, hlt, fun i => hmem, ?_, ?_, ?_⟩
  · intro ids'
    have hwalks := ht.walks_walkFrom 0 hpos
    exact ⟨hwalks.unique, fun heq => heq ▸ hwalks⟩
  · refine (ht.pairwise_walkFrom 0 hpos).imp fun hclimb heq => hclimb ?_
    rw [heq]
  · intro i r hr hne hi
    exact hne (hr.unique (hmem.mp hi))
  · intro before i after hsplit a hclimb hne
    have hi : t.EndsAt i 0 := by
      rw [← hmem, hsplit]
      exact List.mem_append_right before List.mem_cons_self
    exact ht.mem_before hpos hsplit hclimb (hi.climbs hclimb) hne
  · intro i hi
    have hsize := hlt i hi
    exact ⟨ht.walkFrom_infix (hmem.mp hi).1, fun j => ht.mem_walkFrom_iff hsize,
      ht.walkFrom_eq hsize⟩

-- ── The nodes that are shown to the rules ────────────────────────────────────

/-- The nodes that the walk shows to the rules, in this order. -/
def walked (t : Tree) : List Focus := t.walk.filterMap t.focus?

theorem map_id_filterMap_focus? {ids : List Nat} (h : ∀ i ∈ ids, i < t.size) :
    (ids.filterMap t.focus?).map (fun f => f.id.val) = ids := by
  induction ids with
  | nil => rfl
  | cons i ids ih =>
      obtain ⟨hi, hids⟩ := List.forall_mem_cons.mp h
      rw [List.filterMap_cons_some (focus?_of_lt hi), List.map_cons, ih hids]

end Tree

/-- What is reported on a walk is what its nodes give rise to, in that order. -/
theorem RuleSet.walk_eq_walked (s : RuleSet) (t : Tree) :
    s.walk t = t.walked.flatMap fun f => (s.dispatch f).violations := by
  rw [RuleSet.walk, Tree.walked]
  induction t.walk with
  | nil => rfl
  | cons i ids ih =>
      rw [List.flatMap_cons, ih, RuleSet.reportsOn]
      cases hfocus : t.focus? i with
      | none => rw [List.filterMap_cons_none hfocus, List.nil_append]
      | some f => rw [List.filterMap_cons_some hfocus, List.flatMap_cons]

/-- **Linting walks the first tree, every node of it once.** After any run of pushes that
    leaves a node there, the walk starts at the first node and comes to an end. It covers the
    tree of that node and nothing else, and what linting finds is what the rules record when
    they are shown the nodes that it meets, in this order. -/
theorem Tree.walk_coversFirst (pushes : List Push) (hpos : 0 < (ofPushes pushes).size) :
    (ofPushes pushes).root? = some 0 ∧
      (ofPushes pushes).CoversFirst (ofPushes pushes).walk ∧
      (ofPushes pushes).walked.map (fun f => f.id.val) = (ofPushes pushes).walk ∧
      ∀ (g : Registry) (job : Job) (s : RuleSet), g.instantiate job = .ok s →
        lintTree g job (ofPushes pushes)
          = .ok ⟨(ofPushes pushes).walked.flatMap fun f => (s.dispatch f).violations, 1⟩ := by
  have hlinked := linked_ofPushes pushes
  have hroot : (ofPushes pushes).root? = some 0 :=
    (hlinked.wellFormed.root _ (Array.getElem?_eq_getElem hpos)).2
  have hcovers : (ofPushes pushes).CoversFirst (ofPushes pushes).walk := by
    rw [walk, hroot]
    exact hlinked.coversFirst hpos
  refine ⟨hroot, hcovers, map_id_filterMap_focus? hcovers.lt_size, ?_⟩
  intro g job s hs
  rw [lintTree_eq, hs, ← RuleSet.walk_eq_walked]
  rfl

/-- Two roots, with children that were not added in the order of the walk. -/
def Tree.twoRoots : List Push :=
  [.root { typeName := "SourceUnit" }, .root { typeName := "SourceUnit" },
    .child 1 { typeName := "Block" }, .child 0 { typeName := "Block" },
    .child 0 { typeName := "Block" }, .child 3 { typeName := "Block" }]

/-- Of two roots only the first is walked, and children follow their parents although they were
    added later. -/
theorem Tree.walk_coversFirst_twoRoots :
    0 < (ofPushes twoRoots).size ∧ (ofPushes twoRoots).walk = [0, 3, 5, 4] ∧
      (ofPushes twoRoots).CoversFirst (ofPushes twoRoots).walk ∧
      ∃ s, Registry.builtin.instantiate { fileName := "a.sol" } = .ok s ∧
        lintTree Registry.builtin { fileName := "a.sol" } (ofPushes twoRoots)
          = .ok ⟨(ofPushes twoRoots).walked.flatMap fun f => (s.dispatch f).violations, 1⟩ := by
  have hset := Registry.instantiate_of_build Registry.build_builtin { fileName := "a.sol" }
  obtain ⟨-, hcovers, -, hlint⟩ := walk_coversFirst twoRoots (by decide)
  exact ⟨by decide, by decide +kernel, hcovers, _, hset, hlint _ _ _ hset⟩

end SolidityLint
