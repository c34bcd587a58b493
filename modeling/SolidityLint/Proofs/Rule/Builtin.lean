import SolidityLint.Proofs.Rule.Setup
import SolidityLint.Rule.Builtin

/-!
# What the built-in rules record

Showing a node to rules yields what each of them records, in the order of the rules. An
instance that leaves its file alone records nothing; any other records the messages of the
handler that its rule lists for the category of the node. The two built-in rules list three
categories between them, all different, so at most one handler has a say on a node. All that they
ever say are five messages, and each of them is said on some node (`builtinSays_iff`).
-/

namespace SolidityLint

/-- A known category is that of exactly one name. -/
theorem NodeType.ofName_eq_iff {s : String} {t : NodeType} (ht : t ≠ .unknown) :
    NodeType.ofName s = t ↔ s = t.name := by
  constructor
  · intro h
    rw [NodeType.ofName] at h
    cases hfind : NodeType.known.find? fun t => t.name == s with
    | none =>
        rw [hfind] at h
        exact absurd h.symm ht
    | some u =>
        rw [hfind] at h
        obtain rfl : u = t := h
        have hu := List.find?_some hfind
        exact (eq_of_beq hu).symm
  · rintro rfl
    exact NodeType.ofName_name t

-- ── Dispatch ─────────────────────────────────────────────────────────────────

/-- What is recorded on a node is what the instances record, one after the other. -/
theorem RuleSet.violations_dispatch (s : RuleSet) (f : Focus) :
    (s.dispatch f).violations = s.instances.flatMap fun i => (i.visit f).getD [] := by
  show (s.instances.filterMap fun i => i.visit f).flatten = _
  induction s.instances with
  | nil => rfl
  | cons i is ih =>
      rw [List.flatMap_cons, ← ih]
      cases hvisit : i.visit f with
      | none => simp only [List.filterMap_cons, hvisit, Option.getD_none, List.nil_append]
      | some vs => simp only [List.filterMap_cons, hvisit, List.flatten_cons, Option.getD_some]

/-- A rule that leaves its file alone records nothing. -/
theorem Context.flatMap_report_of_ignored {c : Context} (h : c.ignored = true) (f : Focus)
    (ms : List String) : ms.flatMap (c.report f) = [] := by
  rw [List.flatMap_eq_nil_iff]
  intro m _
  rw [Context.report, if_pos h]

/-- Any other rule records every message, on the node and under its own id. -/
theorem Context.flatMap_report {c : Context} (h : c.ignored = false) (f : Focus)
    (ms : List String) :
    ms.flatMap (c.report f) = ms.map (Violation.ofNode c.fileName c.ruleId f.node) := by
  induction ms with
  | nil => rfl
  | cons m ms ih =>
      rw [List.flatMap_cons, List.map_cons, ih, Context.report,
        if_neg (by rw [h]; exact Bool.false_ne_true)]
      rfl

/-- An instance that ignores its file records nothing, although its handler runs. -/
theorem Instance.visit_of_ignored {i : Instance} (h : i.context.ignored = true) (f : Focus) :
    (i.visit f).getD [] = [] := by
  rw [Instance.visit]
  cases i.rule.handler? f.node.nodeType with
  | none => rfl
  | some handler => exact Context.flatMap_report_of_ignored h f _

/-- Whatever is recorded for a message is at the node, under the rule and the file of
    the context. -/
theorem Context.eq_of_mem_report {c : Context} {f : Focus} {m : String} {v : Violation}
    (hv : v ∈ c.report f m) : v = Violation.ofNode c.fileName c.ruleId f.node m := by
  rw [Context.report] at hv
  cases hignored : c.ignored with
  | true =>
      rw [if_pos hignored] at hv
      exact absurd hv List.not_mem_nil
  | false =>
      rw [if_neg (by rw [hignored]; exact Bool.false_ne_true)] at hv
      exact List.mem_singleton.mp hv

/-- Whatever an instance records on a node is about that node, in its file and under the id
    of its rule. -/
theorem Instance.eq_of_mem_visit {i : Instance} {f : Focus} {v : Violation}
    (hv : v ∈ (i.visit f).getD []) :
    ∃ m, v = Violation.ofNode i.context.fileName i.context.ruleId f.node m := by
  rw [Instance.visit] at hv
  cases hhandler : i.rule.handler? f.node.nodeType with
  | none =>
      rw [hhandler] at hv
      exact absurd hv List.not_mem_nil
  | some handler =>
      rw [hhandler] at hv
      obtain ⟨m, -, hm⟩ := List.mem_flatMap.mp hv
      exact ⟨m, Context.eq_of_mem_report hm⟩

theorem Location.file_ofNode (file : String) (n : Node) : (Location.ofNode file n).file = file := by
  rw [Location.ofNode]
  cases n.span with
  | none => rfl
  | some s => rfl

/-- Whatever the rules record on a node is located where the node is. -/
theorem RuleSet.location_of_mem_dispatch {job : Job} {rules : List Rule} {f : Focus}
    {v : Violation}
    (hv : v ∈ (RuleSet.dispatch ⟨rules.map (Instance.bound job)⟩ f).violations) :
    v.location = Location.ofNode job.fileName f.node := by
  rw [RuleSet.violations_dispatch, List.mem_flatMap] at hv
  obtain ⟨i, hi, hv⟩ := hv
  obtain ⟨r, -, rfl⟩ := List.mem_map.mp hi
  obtain ⟨m, rfl⟩ := Instance.eq_of_mem_visit hv
  rfl

/-- What an instance that does not leave its file alone records on a node. -/
theorem Instance.visit_bound {job : Job} {r : Rule}
    (h : r.descriptor.ignores job.fileName = false) (f : Focus) :
    ((Instance.bound job r).visit f).getD []
      = ((r.handler? f.node.nodeType).map fun handler =>
          (handler (Instance.bound job r).context f).map
            (Violation.ofNode job.fileName r.descriptor.id f.node)).getD [] := by
  rw [Instance.visit]
  show ((r.handler? f.node.nodeType).map _).getD [] = _
  cases r.handler? f.node.nodeType with
  | none => rfl
  | some handler => exact Context.flatMap_report h f _

-- ── The tables of the built-in rules ─────────────────────────────────────────

/-- The rule about interfaces is asked about contracts only. -/
theorem InterfaceNames.handler?_rule (t : NodeType) :
    InterfaceNames.rule.handler? t
      = if t = .contractDefinition then some InterfaceNames.onContract else none := by
  by_cases h : t = .contractDefinition
  · rw [if_pos h, h]
    rfl
  · rw [if_neg h]
    have hne : (NodeType.contractDefinition == t) = false := beq_false_of_ne (Ne.symm h)
    simp [Rule.handler?, InterfaceNames.rule, hne]

/-- The rule about underscores is asked about variables and functions only. -/
theorem LeadingUnderscore.handler?_rule (t : NodeType) :
    LeadingUnderscore.rule.handler? t
      = if t = .variableDeclaration then some LeadingUnderscore.onVariable
        else if t = .functionDefinition then some LeadingUnderscore.onFunction
        else none := by
  by_cases hv : t = .variableDeclaration
  · rw [if_pos hv, hv]
    rfl
  · rw [if_neg hv]
    have hnv : (NodeType.variableDeclaration == t) = false := beq_false_of_ne (Ne.symm hv)
    by_cases hf : t = .functionDefinition
    · rw [if_pos hf, hf]
      rfl
    · rw [if_neg hf]
      have hnf : (NodeType.functionDefinition == t) = false := beq_false_of_ne (Ne.symm hf)
      simp [Rule.handler?, LeadingUnderscore.rule, hnv, hnf]

/-- The built-in rules, set up for a file. -/
def RuleSet.builtin (job : Job) : RuleSet := ⟨Rule.builtin.map (Instance.bound job)⟩

/-- The built-in rules can be set up for every job. -/
theorem Registry.instantiate_builtin (job : Job) :
    Registry.builtin.instantiate job = .ok (RuleSet.builtin job) :=
  Registry.instantiate_of_build Registry.build_builtin job

/-- The built-in rules record nothing on a file they leave alone. -/
theorem RuleSet.violations_builtin_of_covers {job : Job}
    (h : Ignore.covers job.fileName = true) (f : Focus) :
    ((RuleSet.builtin job).dispatch f).violations = [] := by
  rw [RuleSet.violations_dispatch, List.flatMap_eq_nil_iff]
  intro i hi
  obtain ⟨r, hr, rfl⟩ := List.mem_map.mp hi
  have hignored : (Instance.bound job r).context.ignored = true := by
    rcases List.mem_cons.mp hr with rfl | hr
    · exact h
    · rcases List.mem_cons.mp hr with rfl | hr
      · exact h
      · exact nomatch hr
  exact Instance.visit_of_ignored hignored f

/-- On any other file at most one handler has a say, by the category of the node. -/
theorem RuleSet.violations_builtin {job : Job} (h : Ignore.covers job.fileName = false)
    (f : Focus) :
    ((RuleSet.builtin job).dispatch f).violations
      = if f.node.nodeType = .contractDefinition then
          (InterfaceNames.onContract (Instance.bound job InterfaceNames.rule).context f).map
            (Violation.ofNode job.fileName InterfaceNames.id f.node)
        else if f.node.nodeType = .variableDeclaration then
          (LeadingUnderscore.onVariable (Instance.bound job LeadingUnderscore.rule).context f).map
            (Violation.ofNode job.fileName LeadingUnderscore.id f.node)
        else if f.node.nodeType = .functionDefinition then
          (LeadingUnderscore.onFunction (Instance.bound job LeadingUnderscore.rule).context f).map
            (Violation.ofNode job.fileName LeadingUnderscore.id f.node)
        else [] := by
  have hi : InterfaceNames.rule.descriptor.ignores job.fileName = false := h
  have hl : LeadingUnderscore.rule.descriptor.ignores job.fileName = false := h
  have hinstances : (RuleSet.builtin job).instances
      = [Instance.bound job InterfaceNames.rule, Instance.bound job LeadingUnderscore.rule] := rfl
  rw [RuleSet.violations_dispatch, hinstances, List.flatMap_cons, List.flatMap_cons,
    List.flatMap_nil, List.append_nil, Instance.visit_bound hi, Instance.visit_bound hl,
    InterfaceNames.handler?_rule, LeadingUnderscore.handler?_rule]
  by_cases hc : f.node.nodeType = .contractDefinition
  · rw [if_pos hc, if_pos hc, hc]
    exact List.append_nil _
  · rw [if_neg hc, if_neg hc]
    by_cases hv : f.node.nodeType = .variableDeclaration
    · rw [if_pos hv, if_pos hv]
      rfl
    · rw [if_neg hv, if_neg hv]
      by_cases hf : f.node.nodeType = .functionDefinition
      · rw [if_pos hf, if_pos hf]
        rfl
      · rw [if_neg hf, if_neg hf]
        rfl

-- ── The messages of the built-in rules ───────────────────────────────────────

/-- The built-in rules say something: on some node of some tree, in some file, they record a
    violation of that rule with that message. -/
def RuleSet.BuiltinSays (rule message : String) : Prop :=
  ∃ (job : Job) (f : Focus), ∃ v ∈ ((RuleSet.builtin job).dispatch f).violations,
    v.rule = rule ∧ v.message = message

/-- The messages of the built-in rules, each with the id of its rule. -/
def Rule.builtinMessages : List (String × String) :=
  [(InterfaceNames.id, InterfaceNames.message),
    (LeadingUnderscore.id, LeadingUnderscore.onConstant),
    (LeadingUnderscore.id, LeadingUnderscore.onPrivateVariable),
    (LeadingUnderscore.id, LeadingUnderscore.onPrivateFunction),
    (LeadingUnderscore.id, LeadingUnderscore.onLibraryFunction)]

theorem eq_of_mem_message {p : Prop} [Decidable p] {m text : String}
    (h : m ∈ if p then [text] else []) : m = text := by
  split at h
  · exact List.mem_singleton.mp h
  · exact nomatch h

/-- The rule about interfaces says nothing but its message. -/
theorem InterfaceNames.mem_builtinMessages {c : Context} {f : Focus} {m : String}
    (h : m ∈ InterfaceNames.onContract c f) :
    (InterfaceNames.id, m) ∈ Rule.builtinMessages := by
  obtain rfl := eq_of_mem_message h
  simp [Rule.builtinMessages]

theorem LeadingUnderscore.mem_builtinMessages_of_onVariable {c : Context} {f : Focus} {m : String}
    (h : m ∈ LeadingUnderscore.onVariable c f) :
    (LeadingUnderscore.id, m) ∈ Rule.builtinMessages := by
  rw [LeadingUnderscore.onVariable] at h
  split at h
  · obtain rfl := eq_of_mem_message h
    simp [Rule.builtinMessages]
  · obtain rfl := eq_of_mem_message h
    simp [Rule.builtinMessages]

theorem LeadingUnderscore.mem_builtinMessages_of_onFunction {c : Context} {f : Focus} {m : String}
    (h : m ∈ LeadingUnderscore.onFunction c f) :
    (LeadingUnderscore.id, m) ∈ Rule.builtinMessages := by
  rcases List.mem_append.mp h with h | h
  · obtain rfl := eq_of_mem_message h
    simp [Rule.builtinMessages]
  · obtain rfl := eq_of_mem_message h
    simp [Rule.builtinMessages]

/-- The built-in rules say nothing but their messages. -/
theorem RuleSet.mem_builtinMessages {job : Job} {f : Focus} {v : Violation}
    (hv : v ∈ ((RuleSet.builtin job).dispatch f).violations) :
    (v.rule, v.message) ∈ Rule.builtinMessages := by
  cases hcovers : Ignore.covers job.fileName with
  | true =>
      rw [violations_builtin_of_covers hcovers] at hv
      exact nomatch hv
  | false =>
      rw [violations_builtin hcovers] at hv
      split at hv
      · obtain ⟨m, hm, rfl⟩ := List.mem_map.mp hv
        exact InterfaceNames.mem_builtinMessages hm
      · split at hv
        · obtain ⟨m, hm, rfl⟩ := List.mem_map.mp hv
          exact LeadingUnderscore.mem_builtinMessages_of_onVariable hm
        · split at hv
          · obtain ⟨m, hm, rfl⟩ := List.mem_map.mp hv
            exact LeadingUnderscore.mem_builtinMessages_of_onFunction hm
          · exact nomatch hv

/-- A forest with a node for each message, and a library for the last of them. -/
def Tree.gallery : Tree where
  nodes := #[
    { typeName := "ContractDefinition", kind := some "interface" },
    { typeName := "VariableDeclaration", name := some "_x", isConstant := true },
    { typeName := "VariableDeclaration", name := some "x", visibility := some .priv },
    { typeName := "FunctionDefinition", name := some "f", visibility := some .priv },
    { typeName := "ContractDefinition", kind := some "library", children := #[5] },
    { typeName := "FunctionDefinition", name := some "_f", visibility := some .internal,
      parent := some 4 }]

/-- In the gallery every message is said once, in the order of the list. -/
theorem Tree.says_gallery :
    (Tree.gallery.focuses.flatMap fun f =>
        ((RuleSet.builtin { fileName := "a.sol" }).dispatch f).violations).map
        (fun v => (v.rule, v.message))
      = Rule.builtinMessages := by
  decide +kernel

/-- **What the built-in rules say are their messages**, and all of them. -/
theorem RuleSet.builtinSays_iff {rule message : String} :
    BuiltinSays rule message ↔ (rule, message) ∈ Rule.builtinMessages := by
  constructor
  · rintro ⟨job, f, v, hv, rfl, rfl⟩
    exact mem_builtinMessages hv
  · intro h
    -- one tree is enough to hear all of them
    rw [← Tree.says_gallery] at h
    obtain ⟨v, hv, heq⟩ := List.mem_map.mp h
    obtain ⟨f, -, hv⟩ := List.mem_flatMap.mp hv
    obtain ⟨rfl, rfl⟩ := Prod.mk.inj heq
    exact ⟨_, f, v, hv, rfl, rfl⟩

end SolidityLint
