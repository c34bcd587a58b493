import SolidityLint.Lint
import SolidityLint.Proofs.Rule.Setup
import SolidityLint.Proofs.Tree.Imported

/-!
# The walk over an imported tree

The walk goes from a node to its children by their numbers, and in a tree at large it may
meet the numbers in any order, or leave some out. An imported tree is placed: every
subtree has consecutive numbers, and the children of a node start one after the other
right behind it. So the walk counts (`Placed.walkDown_eq`), and showing the nodes to the
rules on the walk is showing them in the order in which they were added.

What the rules record on the walk is added to what a reporter holds, which is nothing when the
rules are set up and nothing still when the walk begins, so the report lists just these records
(`lintTree_eq`).

The walk of the model goes down a bounded number of levels. The bound cuts nothing off
here: any bound that is not smaller than the number of nodes gives the same walk.
-/

namespace SolidityLint

open Json (Value)

namespace Tree

mutual

/-- The walk over a placed outline counts its numbers. -/
theorem Placed.walkDown_eq {t : Tree} {parent : Option Nat} {id : Nat} :
    ∀ {o : Outline} {depth : Nat}, t.Placed parent id o → o.size ≤ depth →
      t.walkDown depth id = List.range' id o.size
  | .node ms below, depth, h, hdepth => by
      rw [Placed] at h
      rw [Outline.size] at hdepth ⊢
      obtain ⟨⟨n, hn, -, -, hchildren⟩, hbelow⟩ := h
      obtain ⟨depth, rfl⟩ : ∃ d, depth = d + 1 := ⟨depth - 1, by omega⟩
      rw [walkDown, childrenOf_of_get? hn, hchildren,
        AllPlaced.walkDown_eq hbelow (Nat.le_of_succ_le_succ hdepth), List.range'_succ]

/-- The same for outlines that stand side by side: their numbers follow each other. -/
theorem AllPlaced.walkDown_eq {t : Tree} {parent : Option Nat} {id : Nat} :
    ∀ {os : List Outline} {depth : Nat}, t.AllPlaced parent id os →
      Outline.sizes os ≤ depth →
      (Outline.firsts id os).flatMap (t.walkDown depth) = List.range' id (Outline.sizes os)
  | [], _, _, _ => rfl
  | o :: os, depth, h, hdepth => by
      rw [AllPlaced] at h
      rw [Outline.sizes] at hdepth ⊢
      rw [Outline.firsts, List.flatMap_cons, Placed.walkDown_eq h.1 (by omega),
        AllPlaced.walkDown_eq h.2 (by omega), List.range'_append_1]

end

/-- **An imported tree is walked in the order in which it was built.** -/
theorem walk_of_ofValue {v : Value} {t : Tree} (h : ofValue v = .ok t) :
    t.root? = some 0 ∧
      (∀ depth, t.size ≤ depth → t.walkDown depth 0 = List.range t.size) ∧
      t.walk = List.range t.size := by
  obtain ⟨o, -, hsize, hplaced⟩ := placed_of_ofValue h
  have hroot : t.root? = some 0 := by
    cases o with
    | node ms below =>
        rw [Placed] at hplaced
        obtain ⟨⟨n, hn, -, hparent, -⟩, -⟩ := hplaced
        exact root?_of_get? hn hparent
  have hdown : ∀ depth, t.size ≤ depth → t.walkDown depth 0 = List.range t.size := by
    intro depth hdepth
    rw [hplaced.walkDown_eq (hsize ▸ hdepth), List.range_eq_range', hsize]
  refine ⟨hroot, hdown, ?_⟩
  rw [walk, hroot]
  exact hdown t.size (Nat.le_refl _)

theorem focus?_of_lt {t : Tree} {i : Nat} (h : i < t.size) :
    t.focus? i = some ⟨t, ⟨i, h⟩⟩ := dif_pos h

end Tree

-- ── Showing the nodes to the rules ───────────────────────────────────────────

/-- What the rules record on the node with a given number. -/
def RuleSet.reportsOn (s : RuleSet) (t : Tree) (id : Nat) : List Violation :=
  match t.focus? id with
  | some f => (s.dispatch f).violations
  | none => []

/-- What the rules record on the walk, node after node. -/
def RuleSet.walk (s : RuleSet) (t : Tree) : List Violation := t.walk.flatMap (s.reportsOn t)

/-- Linting a node puts what is reported on it behind what was recorded before. -/
theorem RuleSet.run_lintNode (s : RuleSet) (t : Tree) (id : Nat) (recorded : List Violation) :
    (s.lintNode t id).run recorded = ((), recorded ++ s.reportsOn t id) := by
  rw [lintNode, reportsOn]
  cases t.focus? id with
  | none => exact congrArg (Prod.mk ()) (List.append_nil recorded).symm
  | some f => rfl

/-- Showing nodes to the rules one after the other adds what they record to what the reporter
    holds. -/
theorem RuleSet.run_forM_lintNode (s : RuleSet) (t : Tree) (ids : List Nat)
    (recorded : List Violation) :
    (forM ids (s.lintNode t)).run recorded
      = ((), recorded ++ ids.flatMap (s.reportsOn t)) := by
  induction ids generalizing recorded with
  | nil => exact congrArg (Prod.mk ()) (List.append_nil recorded).symm
  | cons id ids ih =>
      rw [List.forM_cons, StateT.run_bind, run_lintNode, List.flatMap_cons, ← List.append_assoc]
      exact ih (recorded ++ s.reportsOn t id)

/-- **Linting in two steps.** What is reported are the records of the rules that were set up, from
    the first node of the walk to the last, and nothing besides. -/
theorem lintTree_eq (g : Registry) (job : Job) (t : Tree) :
    lintTree g job t = (g.instantiate job).map fun s => ⟨s.walk t, 1⟩ := by
  simp only [lintTree, ExceptT.run_bind, StateT.run_bind, g.silent_setUp job []]
  cases g.instantiate job with
  | error e => rfl
  | ok s =>
      show Except.ok (Report.mk ((s.lint t).run []).2 1) = .ok ⟨s.walk t, 1⟩
      rw [RuleSet.lint, RuleSet.run_forM_lintNode, List.nil_append, RuleSet.walk]

/-- Every number below the size has a node, so that none is passed over. -/
theorem RuleSet.flatMap_reportsOn (s : RuleSet) (t : Tree) :
    (List.range t.size).flatMap (s.reportsOn t)
      = t.focuses.flatMap fun f => (s.dispatch f).violations := by
  have hrange : List.range t.size = (List.finRange t.nodes.size).map Fin.val := by
    apply List.ext_getElem
    · rw [List.length_range, List.length_map, List.length_finRange]
      rfl
    · intro i h₁ h₂
      rw [List.getElem_range, List.getElem_map, List.getElem_finRange]
      rfl
  rw [hrange, Tree.focuses, List.flatMap_map, List.flatMap_map]
  refine congrArg (List.flatMap · (List.finRange t.nodes.size)) (funext fun i => ?_)
  rw [RuleSet.reportsOn, Tree.focus?_of_lt i.isLt]

/-- **Walking an imported tree is going through its nodes in order.** For every registry
    that builds and every file, its rules can be set up, and what linting finds is what
    they record when they are shown the nodes in the order in which they were added. -/
theorem lintTree_eq_focuses {v : Value} {t : Tree} (h : Tree.ofValue v = .ok t) :
    t.root? = some 0 ∧
      (∀ depth, t.size ≤ depth → t.walkDown depth 0 = List.range t.size) ∧
      t.walk = List.range t.size ∧
      ∀ rules g, Registry.build rules = .ok g → ∀ job, ∃ s, g.instantiate job = .ok s ∧
        lintTree g job t = .ok ⟨t.focuses.flatMap fun f => (s.dispatch f).violations, 1⟩ := by
  obtain ⟨hroot, hdown, hwalk⟩ := Tree.walk_of_ofValue h
  refine ⟨hroot, hdown, hwalk, ?_⟩
  intro rules g hbuild job
  have hset := Registry.instantiate_of_build hbuild job
  refine ⟨_, hset, ?_⟩
  rw [lintTree_eq, hset, ← RuleSet.flatMap_reportsOn, ← hwalk, ← RuleSet.walk]
  rfl

/-- The three nodes of a library are walked in the order in which they were imported. -/
theorem lintTree_eq_focuses_libraryValue :
    ∃ t, Tree.ofValue Tree.libraryValue = .ok t ∧ t.walk = [0, 1, 2] ∧
      Registry.build Rule.builtin = .ok Registry.builtin ∧
      ∃ s, Registry.builtin.instantiate { fileName := "a.sol" } = .ok s ∧
        lintTree Registry.builtin { fileName := "a.sol" } t
          = .ok ⟨t.focuses.flatMap fun f => (s.dispatch f).violations, 1⟩ := by
  obtain ⟨-, -, hwalk, hlint⟩ := lintTree_eq_focuses (v := Tree.libraryValue) rfl
  exact ⟨_, rfl, hwalk, Registry.build_builtin, hlint _ _ Registry.build_builtin _⟩

end SolidityLint
