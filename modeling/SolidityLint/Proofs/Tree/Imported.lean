import SolidityLint.Proofs.Tree.Outline

/-!
# The imported tree

Importing a value writes its outline into the tree: the objects get the numbers that
follow each other when every object is written before those below it. `Placed` says that
an outline stands in a tree in this way, and `Grown` says what an import has done to the
tree it started from. It is the invariant of the import: a value, a list of items and a
list of members each take a tree to one that has grown by their outlines
(`value_grown`, `items_grown`, `members_grown`), because pushes compose (`Grown.append`)
and an object that is a node is pushed before its members are read (`Grown.node`).

From the whole import follows what the tree is: it unfolds from node 0 into the outline of
the value, and it has nothing else.
-/

namespace SolidityLint

open Json (Value)

namespace Tree

-- ── Outlines in a tree ───────────────────────────────────────────────────────

mutual

/-- An outline stands under `parent` in a tree, from the number `id` on. -/
def Placed (t : Tree) (parent : Option Nat) (id : Nat) : Outline → Prop
  | .node ms below =>
    (∃ n, t.get? id = some n ∧ Carries ms n ∧ n.parent = parent ∧
      n.children.toList = Outline.firsts (id + 1) below) ∧
    AllPlaced t (some id) (id + 1) below

/-- Outlines stand under `parent` in a tree one after the other, from the number `id` on. -/
def AllPlaced (t : Tree) (parent : Option Nat) (id : Nat) : List Outline → Prop
  | [] => True
  | o :: os => Placed t parent id o ∧ AllPlaced t parent (id + o.size) os

end

theorem allPlaced_append {t : Tree} {parent : Option Nat} {id : Nat} {os ps : List Outline} :
    t.AllPlaced parent id (os ++ ps) ↔
      t.AllPlaced parent id os ∧ t.AllPlaced parent (id + Outline.sizes os) ps := by
  induction os generalizing id with
  | nil => simp only [List.nil_append, AllPlaced, Outline.sizes, Nat.add_zero, true_and]
  | cons o os ih =>
      rw [List.cons_append, AllPlaced, AllPlaced, ih, and_assoc, Outline.sizes, Nat.add_assoc]

mutual

/-- Where an outline stands depends on the nodes with its numbers only. -/
theorem Placed.congr {t t' : Tree} {parent : Option Nat} {id : Nat} :
    ∀ {o : Outline}, (∀ i, id ≤ i → i < id + o.size → t'.get? i = t.get? i) →
      t.Placed parent id o → t'.Placed parent id o
  | .node ms below, hsame, hplaced => by
      rw [Placed] at hplaced ⊢
      rw [Outline.size] at hsame
      obtain ⟨⟨n, hn, hrest⟩, hbelow⟩ := hplaced
      refine ⟨⟨n, ?_, hrest⟩, AllPlaced.congr ?_ hbelow⟩
      · rw [hsame id (Nat.le_refl _) (by omega)]
        exact hn
      · intro i hle hlt
        exact hsame i (by omega) (by omega)

theorem AllPlaced.congr {t t' : Tree} {parent : Option Nat} {id : Nat} :
    ∀ {os : List Outline},
      (∀ i, id ≤ i → i < id + Outline.sizes os → t'.get? i = t.get? i) →
      t.AllPlaced parent id os → t'.AllPlaced parent id os
  | [], _, _ => trivial
  | o :: os, hsame, hplaced => by
      rw [AllPlaced] at hplaced ⊢
      rw [Outline.sizes] at hsame
      refine ⟨Placed.congr ?_ hplaced.1, AllPlaced.congr ?_ hplaced.2⟩
      · intro i hle hlt
        exact hsame i hle (by omega)
      · intro i hle hlt
        exact hsame i (by omega) (by omega)

end

-- ── The invariant of the import ──────────────────────────────────────────────

/-- `t'` is `t` grown by outlines that were added under `parent`: they stand behind the
    nodes that were there, and of those only the parent has changed. -/
structure Grown (t : Tree) (parent : Option Nat) (os : List Outline) (t' : Tree) : Prop where
  size : t'.size = t.size + Outline.sizes os
  placed : t'.AllPlaced parent t.size os
  old : ∀ i < t.size,
    t'.get? i = (t.get? i).map (linked parent (Outline.firsts t.size os) i)

theorem Grown.nil (t : Tree) (parent : Option Nat) : Grown t parent [] t := by
  refine ⟨rfl, trivial, ?_⟩
  intro i _
  rw [Outline.firsts, map_linked_nil]

/-- A parent that is there stays there. -/
theorem Grown.parent_lt {t t' : Tree} {parent : Option Nat} {os : List Outline}
    (h : Grown t parent os t') (hparent : ∀ p, parent = some p → p < t.size) :
    ∀ p, parent = some p → p < t'.size := by
  intro p hp
  rw [h.size]
  exact Nat.lt_add_right _ (hparent p hp)

/-- Growing twice under one parent is growing once. -/
theorem Grown.append {t t₁ t₂ : Tree} {parent : Option Nat} {os ps : List Outline}
    (hparent : ∀ p, parent = some p → p < t.size)
    (h₁ : Grown t parent os t₁) (h₂ : Grown t₁ parent ps t₂) :
    Grown t parent (os ++ ps) t₂ := by
  have hsize := h₁.size
  refine ⟨?_, ?_, ?_⟩
  · rw [h₂.size, hsize, Outline.sizes_append, Nat.add_assoc]
  · refine allPlaced_append.mpr ⟨AllPlaced.congr ?_ h₁.placed, ?_⟩
    · -- the second growth leaves alone what the first one added: the parent is older
      intro i hle hlt
      have hne : parent ≠ some i := fun hp => absurd (hparent i hp) (by omega)
      rw [h₂.old i (by omega), map_linked_of_ne hne]
    · rw [← hsize]
      exact h₂.placed
  · intro i hi
    rw [h₂.old i (by omega), h₁.old i hi, Option.map_map, Outline.firsts_append, ← hsize]
    refine congrArg (Option.map · (t.get? i)) (funext fun n => ?_)
    exact (linked_append parent _ _ i n).symm

/-- Pushing a node and growing under it is growing by one outline. -/
theorem Grown.node {t t₁ t₂ : Tree} {parent : Option Nat} {n : Node}
    {ms : List (String × Value)} {os : List Outline} (hn : Carries ms n)
    (hpush : Pushed t parent n t₁) (h : Grown t₁ (some t.size) os t₂) :
    Grown t parent [.node ms os] t₂ := by
  have hsize := hpush.size
  refine ⟨?_, ?_, ?_⟩
  · rw [h.size, hsize, Outline.sizes, Outline.sizes, Outline.size]
    omega
  · rw [AllPlaced, Placed]
    refine ⟨⟨⟨_, ?_, hn.replaced parent (Outline.firsts (t.size + 1) os).toArray, rfl, rfl⟩, ?_⟩,
      trivial⟩
    · rw [h.old t.size (by omega), hpush.new, Option.map_some, linked_self, hsize, Node.adopt]
      simp [Node.detached]
    · rw [← hsize]
      exact h.placed
  · intro i hi
    -- what grows below the new node does not touch the nodes that were there
    have hne : some t.size ≠ some i := fun he => absurd (Option.some.inj he) (by omega)
    rw [h.old i (by omega), map_linked_of_ne hne]
    exact hpush.old i hi

end Tree

namespace Import

open SolidityLint.Tree (Pushed Grown)

/-- Attaching a node is a push, as a root or under its parent. -/
theorem attach_pushed {t t' : Tree} {parent : Option Nat} {n : Node}
    (h : attach t parent n = .ok t') : Pushed t parent n t' := by
  cases parent with
  | none =>
      obtain rfl := Except.ok.inj h
      exact Tree.pushRoot_pushed t n
  | some p => exact (Tree.pushChild_pushed (Outcome.mapError_eq_ok_iff.mp h)).2

/-- An object either is a node, which is pushed and becomes the parent of what follows, or
    leaves everything as it is. -/
theorem enter_cases {t t' : Tree} {parent parent' : Option Nat} {ms : List (String × Value)}
    (h : enter t parent ms = .ok (t', parent')) :
    (∃ s n, ms.lookup "type" = some (.text s) ∧ Carries ms n ∧ Pushed t parent n t' ∧
        parent' = some t.size) ∨
      ((∀ s, ms.lookup "type" ≠ some (.text s)) ∧ t' = t ∧ parent' = parent) := by
  rw [enter] at h
  cases htype : typeName? ms with
  | none =>
      rw [htype] at h
      obtain ⟨rfl, rfl⟩ := Prod.mk.inj (Except.ok.inj h)
      refine Or.inr ⟨fun s hs => ?_, rfl, rfl⟩
      rw [typeName?_eq_some_iff.mpr hs] at htype
      exact nomatch htype
  | some s =>
      rw [htype] at h
      obtain ⟨n, hn, h⟩ := Outcome.bind_eq_ok_iff.mp h
      obtain ⟨t₁, ht₁, h⟩ := Outcome.bind_eq_ok_iff.mp h
      obtain ⟨rfl, rfl⟩ := Prod.mk.inj (Except.ok.inj h)
      have hs : ms.lookup "type" = some (.text s) := typeName?_eq_some_iff.mp htype
      exact Or.inl ⟨s, n, hs, node_carries hs hn, attach_pushed ht₁, rfl⟩

mutual

/-- **Importing a value grows the tree by its outlines.** -/
theorem value_grown {t t' : Tree} {parent : Option Nat}
    (hparent : ∀ p, parent = some p → p < t.size) :
    ∀ {v : Value}, value t parent v = .ok t' → Grown t parent (Outline.ofValue v) t'
  | .object ms, h => by
      rw [value] at h
      cases henter : enter t parent ms with
      | error e => rw [henter] at h; exact nomatch h
      | ok r =>
          obtain ⟨t₁, parent₁⟩ := r
          rw [henter] at h
          rcases enter_cases henter with ⟨s, n, hs, hn, hpush, rfl⟩ | ⟨hs, rfl, rfl⟩
          · rw [Outline.ofValue_typed hs]
            -- the members grow below the node that was just pushed
            refine Grown.node hn hpush (members_grown ?_ h)
            intro p hp
            obtain rfl := Option.some.inj hp
            rw [hpush.size]
            exact Nat.lt_succ_self _
          · rw [Outline.ofValue_untyped hs]
            exact members_grown hparent h
  | .array is, h => by
      rw [value] at h
      rw [Outline.ofValue]
      exact items_grown hparent h
  | .null, h | .bool _, h | .natural _, h | .decimal _, h | .text _, h | .garbled, h => by
      obtain rfl := Except.ok.inj h
      exact Grown.nil t parent

/-- The elements of an array grow the tree by their outlines, one after the other. -/
theorem items_grown {t t' : Tree} {parent : Option Nat}
    (hparent : ∀ p, parent = some p → p < t.size) :
    ∀ {is : List Value}, items t parent is = .ok t' → Grown t parent (Outline.ofItems is) t'
  | [], h => by
      rw [items] at h
      obtain rfl := Except.ok.inj h
      exact Grown.nil t parent
  | v :: vs, h => by
      rw [items] at h
      cases hv : value t parent v with
      | error e => rw [hv] at h; exact nomatch h
      | ok t₁ =>
          rw [hv] at h
          have hgrown := value_grown hparent hv
          rw [Outline.ofItems]
          exact Grown.append hparent hgrown (items_grown (hgrown.parent_lt hparent) h)

/-- So do the members of an object, where the position members are passed over. -/
theorem members_grown {t t' : Tree} {parent : Option Nat}
    (hparent : ∀ p, parent = some p → p < t.size) :
    ∀ {ms : List (String × Value)}, members t parent ms = .ok t' →
      Grown t parent (Outline.ofMembers ms) t'
  | [], h => by
      rw [members] at h
      obtain rfl := Except.ok.inj h
      exact Grown.nil t parent
  | (key, v) :: rest, h => by
      rw [members] at h
      rw [Outline.ofMembers]
      by_cases hkey : key = "loc" ∨ key = "range"
      · rw [if_pos (by simpa [positionMembers] using hkey)] at h
        rw [if_pos hkey]
        exact members_grown hparent h
      · rw [if_neg (by simpa [positionMembers] using hkey)] at h
        rw [if_neg hkey]
        cases hv : value t parent v with
        | error e => rw [hv] at h; exact nomatch h
        | ok t₁ =>
            rw [hv] at h
            have hgrown := value_grown hparent hv
            exact Grown.append hparent hgrown (members_grown (hgrown.parent_lt hparent) h)

end

end Import

namespace Tree

/-- An imported tree is the outline of its value, placed from node 0 on. -/
theorem placed_of_ofValue {v : Value} {t : Tree} (h : ofValue v = .ok t) :
    ∃ o, Outline.ofValue v = [o] ∧ t.size = o.size ∧ t.Placed none 0 o := by
  rw [ofValue] at h
  by_cases hnode : v.isNode = true
  · rw [if_pos hnode] at h
    have hparent : ∀ p, none = some p → p < empty.size := fun p hp => nomatch hp
    have hgrown : Grown empty none (Outline.ofValue v) t := Import.value_grown hparent h
    cases v with
    | object ms =>
        obtain ⟨s, hs⟩ := Option.isSome_iff_exists.mp hnode
        have hlookup := Import.typeName?_eq_some_iff.mp hs
        rw [Outline.ofValue_typed hlookup] at hgrown ⊢
        refine ⟨_, rfl, ?_, hgrown.placed.1⟩
        rw [hgrown.size, Outline.sizes, Outline.sizes, Nat.add_zero]
        exact Nat.zero_add _
    | _ => exact nomatch hnode
  · rw [if_neg hnode] at h
    exact nomatch h

-- ── Unfolding ────────────────────────────────────────────────────────────────

mutual

/-- A tree unfolds from node `id` into an outline: the node carries the object, hangs on
    `parent`, and its children, as they are listed, unfold into what is below. -/
def Unfolds (t : Tree) (parent : Option Nat) (id : Nat) : Outline → Prop
  | .node ms below =>
    ∃ n, t.get? id = some n ∧ Carries ms n ∧ n.parent = parent ∧
      AllUnfold t (some id) n.children.toList below

/-- Nodes unfold one by one into outlines. -/
def AllUnfold (t : Tree) (parent : Option Nat) (ids : List Nat) : List Outline → Prop
  | [] => ids = []
  | o :: os => ∃ id rest, ids = id :: rest ∧ Unfolds t parent id o ∧ AllUnfold t parent rest os

end

mutual

/-- A tree unfolds into an outline that is placed in it. The children of a node are the numbers at
    which the outlines below it start. -/
theorem Placed.unfolds {t : Tree} {parent : Option Nat} {id : Nat} :
    ∀ {o : Outline}, t.Placed parent id o → t.Unfolds parent id o
  | .node ms below, h => by
      rw [Placed] at h
      obtain ⟨⟨n, hn, hcarries, hparent, hchildren⟩, hbelow⟩ := h
      rw [Unfolds]
      refine ⟨n, hn, hcarries, hparent, ?_⟩
      rw [hchildren]
      exact AllPlaced.unfold hbelow

theorem AllPlaced.unfold {t : Tree} {parent : Option Nat} {id : Nat} :
    ∀ {os : List Outline}, t.AllPlaced parent id os →
      t.AllUnfold parent (Outline.firsts id os) os
  | [], _ => rfl
  | o :: os, h => by
      rw [AllPlaced] at h
      rw [AllUnfold, Outline.firsts]
      exact ⟨id, _, rfl, Placed.unfolds h.1, AllPlaced.unfold h.2⟩

end

/-- The nodes that can be reached from `top` through lists of children. -/
inductive Below (t : Tree) (top : Nat) : Nat → Prop where
  | refl : Below t top top
  | child {i j : Nat} : Below t top i → j ∈ t.childrenOf i → Below t top j

mutual

/-- Every number of a placed outline is reached from its first. -/
theorem Placed.below {t : Tree} {parent : Option Nat} {id top : Nat} (htop : t.Below top id) :
    ∀ {o : Outline}, t.Placed parent id o →
      ∀ i, id ≤ i → i < id + o.size → t.Below top i
  | .node ms below, h, i, hle, hlt => by
      rw [Placed] at h
      rw [Outline.size] at hlt
      obtain ⟨⟨n, hn, -, -, hchildren⟩, hbelow⟩ := h
      rcases Nat.eq_or_lt_of_le hle with rfl | hne
      · exact htop
      · refine AllPlaced.below (fun j hj => ?_) hbelow i hne (by omega)
        refine Below.child htop ?_
        rw [childrenOf_of_get? hn, hchildren]
        exact hj

/-- The same for outlines that stand side by side, if each of them starts at a node that can be
    reached. -/
theorem AllPlaced.below {t : Tree} {parent : Option Nat} {id top : Nat} :
    ∀ {os : List Outline}, (∀ j ∈ Outline.firsts id os, t.Below top j) →
      t.AllPlaced parent id os →
      ∀ i, id ≤ i → i < id + Outline.sizes os → t.Below top i
  | [], _, _, i, hle, hlt => absurd hlt (by rw [Outline.sizes]; omega)
  | o :: os, hfirsts, h, i, hle, hlt => by
      rw [AllPlaced] at h
      rw [Outline.sizes] at hlt
      rw [Outline.firsts] at hfirsts
      by_cases hi : i < id + o.size
      · exact Placed.below (hfirsts id List.mem_cons_self) h.1 i hle hi
      · refine AllPlaced.below (fun j hj => ?_) h.2 i (by omega) (by omega)
        exact hfirsts j (List.mem_cons_of_mem _ hj)

end

mutual

/-- Only the first node of a placed outline hangs on the parent from outside. -/
theorem Placed.exists_parent {t : Tree} {parent : Option Nat} {id : Nat} :
    ∀ {o : Outline}, t.Placed parent id o →
      ∀ i, id < i → i < id + o.size → ∃ n p, t.get? i = some n ∧ n.parent = some p
  | .node ms below, h, i, hle, hlt => by
      rw [Placed] at h
      rw [Outline.size] at hlt
      exact AllPlaced.exists_parent h.2 i hle (by omega)

/-- The same for outlines that stand side by side under a parent: each of their nodes has one. -/
theorem AllPlaced.exists_parent {t : Tree} {p id : Nat} :
    ∀ {os : List Outline}, t.AllPlaced (some p) id os →
      ∀ i, id ≤ i → i < id + Outline.sizes os → ∃ n q, t.get? i = some n ∧ n.parent = some q
  | [], _, i, hle, hlt => absurd hlt (by rw [Outline.sizes]; omega)
  | .node ms below :: os, h, i, hle, hlt => by
      rw [AllPlaced] at h
      rw [Outline.sizes] at hlt
      by_cases hi : i < id + (Outline.node ms below).size
      · rcases Nat.eq_or_lt_of_le hle with rfl | hne
        · have h₁ := h.1
          rw [Placed] at h₁
          obtain ⟨⟨n, hn, -, hparent, -⟩, -⟩ := h₁
          exact ⟨n, p, hn, hparent⟩
        · exact Placed.exists_parent h.1 i hne hi
      · exact AllPlaced.exists_parent h.2 i (by omega) (by omega)

end

/-- **The imported tree is the outline of the value.** It unfolds from node 0 into the
    typed objects of the value, each node carrying its object and hanging on the nearest
    typed object around it. It has as many nodes as there are objects, all of them below
    node 0, and node 0 alone hangs on no other. -/
theorem ofValue_unfolds {v : Value} {t : Tree} (h : ofValue v = .ok t) :
    ∃ o, Outline.ofValue v = [o] ∧ t.Unfolds none 0 o ∧ t.size = o.size ∧
      (∀ i < t.size, t.Below 0 i) ∧
      ∀ i n, t.get? i = some n → (n.parent = none ↔ i = 0) := by
  obtain ⟨o, ho, hsize, hplaced⟩ := placed_of_ofValue h
  refine ⟨o, ho, hplaced.unfolds, hsize, ?_, ?_⟩
  · intro i hi
    exact hplaced.below .refl i (Nat.zero_le i) (by omega)
  · intro i n hn
    have hi := lt_size_of_get? hn
    constructor
    · intro hnone
      by_cases hzero : i = 0
      · exact hzero
      · obtain ⟨m, p, hm, hp⟩ := hplaced.exists_parent i (by omega) (by omega)
        obtain rfl := Option.some.inj (hn.symm.trans hm)
        exact nomatch hnone.symm.trans hp
    · rintro rfl
      cases o with
      | node ms below =>
          rw [Placed] at hplaced
          obtain ⟨⟨m, hm, -, hparent, -⟩, -⟩ := hplaced
          obtain rfl := Option.some.inj (hn.symm.trans hm)
          exact hparent

/-- A function of a library, with an array and an untyped object around the library. What
    looks like a node below `loc` is none. -/
def libraryValue : Value :=
  .object
    [("type", .text "SourceUnit"),
      ("children", .array [.object [("wrapped", .object
        [("type", .text "ContractDefinition"), ("kind", .text "library"),
          ("subNodes", .array [.object
            [("type", .text "FunctionDefinition"), ("name", .text "_add"),
              ("visibility", .text "internal"),
              ("loc", .object [("type", .text "Block"),
                ("start", .object [("line", .natural 3), ("column", .natural 4)])]),
              ("range", .array [.natural 10, .natural 19])]])])]])]

/-- A source unit with a library and a function: three nodes, although the `loc` of the function
    names a type as well. -/
theorem ofValue_unfolds_libraryValue :
    ∃ t, ofValue libraryValue = .ok t ∧ t.size = 3 ∧
      ∃ o, Outline.ofValue libraryValue = [o] ∧ t.Unfolds none 0 o ∧ t.size = o.size ∧
        (∀ i < t.size, t.Below 0 i) ∧
        ∀ i n, t.get? i = some n → (n.parent = none ↔ i = 0) :=
  ⟨_, rfl, rfl, ofValue_unfolds rfl⟩

end Tree

end SolidityLint
