import Mathlib.Data.List.Perm.Basic
import SolidityLint.Proofs.Lint.Traversal
import SolidityLint.Proofs.Rule.Builtin
import SolidityLint.Proofs.Tree.Links

/-!
# Rules do not interfere

Linting with registered rules has a closed form (`lintTree_eq_findings`): node by node on
the walk, and on each node rule by rule, what the rule records there. A rule records under
its own id only. So to keep, of everything that is found, what was found under some of the
ids is to lint with the rules that have these ids (`filter_findings`): rules take no notice
of each other, though they share one walk and one report. Since an id tells which rule is
meant, what is found under the id of a rule is what this rule finds alone.
-/

namespace SolidityLint

open Registry (Registrable)

/-- What a rule records on the node with a given number. -/
def Rule.reportsOn (r : Rule) (job : Job) (t : Tree) (id : Nat) : List Violation :=
  match t.focus? id with
  | some f => ((Instance.bound job r).visit f).getD []
  | none => []

/-- What rules find in a tree, in the order in which they report it. -/
def findings (rules : List Rule) (job : Job) (t : Tree) : List Violation :=
  t.walk.flatMap fun id => rules.flatMap fun r => r.reportsOn job t id

/-- On a node the rules report one after the other. -/
theorem RuleSet.reportsOn_bound (rules : List Rule) (job : Job) (t : Tree) (id : Nat) :
    RuleSet.reportsOn ⟨rules.map (Instance.bound job)⟩ t id
      = rules.flatMap fun r => r.reportsOn job t id := by
  cases hfocus : t.focus? id with
  | none =>
      have hnone : ∀ r : Rule, r.reportsOn job t id = [] := by
        intro r
        rw [Rule.reportsOn, hfocus]
      rw [RuleSet.reportsOn, hfocus]
      exact (List.flatMap_eq_nil_iff.mpr fun r _ => hnone r).symm
  | some f =>
      have hsome : ∀ r : Rule, r.reportsOn job t id
          = ((Instance.bound job r).visit f).getD [] := by
        intro r
        rw [Rule.reportsOn, hfocus]
      rw [RuleSet.reportsOn, hfocus]
      simp only [RuleSet.violations_dispatch, List.flatMap_map, hsome]

/-- **Linting in closed form.** Rules that can be registered find what each of them
    records, node by node. -/
theorem lintTree_eq_findings {rules : List Rule} (h : Registrable rules) (job : Job) (t : Tree) :
    lintTree ⟨rules⟩ job t = .ok ⟨findings rules job t, 1⟩ := by
  have hset := Registry.instantiate_of_build (Registry.build_eq_ok_iff.mpr ⟨h, rfl⟩) job
  have hwalk : RuleSet.walk ⟨rules.map (Instance.bound job)⟩ t = findings rules job t := by
    rw [RuleSet.walk, findings]
    exact congrArg (List.flatMap · t.walk) (funext (RuleSet.reportsOn_bound rules job t))
  rw [lintTree_eq, hset, ← hwalk]
  rfl

-- ── A rule records under its own id ──────────────────────────────────────────

/-- A rule reports under its own id. -/
theorem Rule.rule_of_mem_reportsOn {r : Rule} {job : Job} {t : Tree} {id : Nat} {v : Violation}
    (hv : v ∈ r.reportsOn job t id) : v.rule = r.descriptor.id := by
  rw [Rule.reportsOn] at hv
  cases hfocus : t.focus? id with
  | none =>
      rw [hfocus] at hv
      exact nomatch hv
  | some f =>
      rw [hfocus] at hv
      obtain ⟨m, rfl⟩ := Instance.eq_of_mem_visit hv
      rfl

-- ── Keeping what was found under some ids ────────────────────────────────────

/-- Of what a rule records on a node, all is kept or nothing, by the id of the rule. -/
theorem Rule.filter_reportsOn (r : Rule) (job : Job) (t : Tree) (id : Nat) (p : String → Bool) :
    (r.reportsOn job t id).filter (fun v => p v.rule)
      = if p r.descriptor.id then r.reportsOn job t id else [] := by
  by_cases hp : p r.descriptor.id = true
  · rw [if_pos hp, List.filter_eq_self]
    intro v hv
    rw [Rule.rule_of_mem_reportsOn hv, hp]
  · rw [if_neg hp, List.filter_eq_nil_iff]
    intro v hv
    rw [Rule.rule_of_mem_reportsOn hv]
    exact hp

/-- Choosing violations by id is choosing the rules that make them. -/
theorem filter_flatMap_reportsOn (rules : List Rule) (job : Job) (t : Tree) (id : Nat)
    (p : String → Bool) :
    (rules.flatMap fun r => r.reportsOn job t id).filter (fun v => p v.rule)
      = (rules.filter fun r => p r.descriptor.id).flatMap fun r => r.reportsOn job t id := by
  induction rules with
  | nil => rfl
  | cons r rest ih =>
      rw [List.flatMap_cons, List.filter_append, ih, Rule.filter_reportsOn, List.filter_cons]
      by_cases hp : p r.descriptor.id = true
      · rw [if_pos hp, if_pos hp, List.flatMap_cons]
      · rw [if_neg hp, if_neg hp, List.nil_append]

/-- **What is found under some ids is what the rules with these ids find.** -/
theorem filter_findings (rules : List Rule) (job : Job) (t : Tree) (p : String → Bool) :
    (findings rules job t).filter (fun v => p v.rule)
      = findings (rules.filter fun r => p r.descriptor.id) job t := by
  rw [findings, List.filter_flatMap, findings]
  refine congrArg (List.flatMap · t.walk) (funext fun id => ?_)
  exact filter_flatMap_reportsOn rules job t id p

/-- What is found under the id of a rule is what the rule finds alone. -/
theorem filter_findings_of_mem {rules : List Rule} (h : Registrable rules) {r : Rule}
    (hr : r ∈ rules) (job : Job) (t : Tree) :
    (findings rules job t).filter (fun v => v.rule = r.descriptor.id) = findings [r] job t := by
  rw [← h.filter_id_eq hr]
  exact filter_findings rules job t fun id => id = r.descriptor.id

/-- In another order, rules find the same, but for the order on a node. -/
theorem findings_perm {rules rules' : List Rule} (h : rules.Perm rules') (job : Job) (t : Tree) :
    (findings rules job t).Perm (findings rules' job t) :=
  List.Perm.flatMap_left t.walk fun id _ => h.flatMap_right fun r => r.reportsOn job t id

/-- **Rules do not interfere.** With rules that are registered, every tree can be linted,
    and what is found under the id of a rule is, in the same order, all that linting with
    this rule alone finds. In any other order the rules can be registered as well; each then
    finds what it found before, and all together find the same up to order. -/
theorem lintTree_rule_by_rule {rules : List Rule} {g : Registry}
    (h : Registry.build rules = .ok g) (job : Job) (t : Tree) :
    ∃ report, lintTree g job t = .ok report ∧
      (∀ r ∈ rules, ∃ g₁ alone, Registry.build [r] = .ok g₁ ∧ lintTree g₁ job t = .ok alone ∧
        report.violations.filter (fun v => v.rule = r.descriptor.id) = alone.violations) ∧
      ∀ rules', rules.Perm rules' → ∃ g' report',
        Registry.build rules' = .ok g' ∧ lintTree g' job t = .ok report' ∧
          (∀ r ∈ rules, report'.violations.filter (fun v => v.rule = r.descriptor.id)
            = report.violations.filter fun v => v.rule = r.descriptor.id) ∧
          report'.violations.Perm report.violations := by
  obtain ⟨hrules, rfl⟩ := Registry.build_eq_ok_iff.mp h
  refine ⟨_, lintTree_eq_findings hrules job t, ?_, ?_⟩
  · intro r hr
    have halone := hrules.singleton hr
    exact ⟨_, _, Registry.build_eq_ok_iff.mpr ⟨halone, rfl⟩, lintTree_eq_findings halone job t,
      filter_findings_of_mem hrules hr job t⟩
  · intro rules' hperm
    have hrules' := hrules.perm hperm
    refine ⟨_, _, Registry.build_eq_ok_iff.mpr ⟨hrules', rfl⟩,
      lintTree_eq_findings hrules' job t, ?_, findings_perm hperm.symm job t⟩
    intro r hr
    show (findings rules' job t).filter _ = (findings rules job t).filter _
    rw [filter_findings_of_mem hrules' (hperm.mem_iff.mp hr), filter_findings_of_mem hrules hr]

/-- A badly named interface with a badly named function. -/
def Tree.token : Tree :=
  ofPushes
    [.root { typeName := "ContractDefinition", name := some "Token", kind := some "interface" },
      .child 0
        { typeName := "FunctionDefinition", name := some "settle", visibility := some .priv }]

/-- The built-in rules find one violation each, alone and together and in either order. -/
theorem lintTree_rule_by_rule_token :
    Registry.build Rule.builtin = .ok Registry.builtin ∧
      ∃ report, lintTree Registry.builtin { fileName := "a.sol" } .token = .ok report ∧
        report.violations.map Violation.rule = [InterfaceNames.id, LeadingUnderscore.id] ∧
        (∃ g₁ alone, Registry.build [InterfaceNames.rule] = .ok g₁ ∧
          lintTree g₁ { fileName := "a.sol" } .token = .ok alone ∧
          report.violations.filter (fun v => v.rule = InterfaceNames.rule.descriptor.id)
            = alone.violations) ∧
        ∃ g' report', Registry.build [LeadingUnderscore.rule, InterfaceNames.rule] = .ok g' ∧
          lintTree g' { fileName := "a.sol" } .token = .ok report' ∧
          report'.violations.Perm report.violations := by
  obtain ⟨report, hreport, halone, hperm⟩ :=
    lintTree_rule_by_rule Registry.build_builtin { fileName := "a.sol" } .token
  have hrules : (lintTree Registry.builtin { fileName := "a.sol" } .token).toOption.map
      (fun r => r.violations.map Violation.rule)
        = some [InterfaceNames.id, LeadingUnderscore.id] := by
    decide +kernel
  rw [hreport] at hrules
  obtain ⟨g', report', hg', hreport', -, hsame⟩ := hperm _ (.swap ..)
  exact ⟨Registry.build_builtin, report, hreport, Option.some.inj hrules,
    halone _ List.mem_cons_self, g', report', hg', hreport', hsame⟩

end SolidityLint
