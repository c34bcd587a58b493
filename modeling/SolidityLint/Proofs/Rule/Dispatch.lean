import Mathlib.Data.List.Forall2
import SolidityLint.Proofs.Rule.Builtin
import SolidityLint.Proofs.Rule.Validation

/-!
# Which handlers run on a node

A rule is asked for the first handler that it lists for the category of a node. This is a
question about the order of its table, unless each category is listed at most once. In a
registry that was built it is (`Listable`), so the first entry for a category is the only
one: `Rule.handler?_eq_some_iff` says what is looked up without a word about order, and
everything here follows from it.

What a table asks for is said by `Rule.handlersFor`, which takes all entries for a category,
and what the tables of several rules ask for by `calls`. Showing a node to rules that were
registered makes these calls (`RuleSet.made_bound`), no more and no fewer, in the order of the
rules.
-/

namespace SolidityLint

open Registry (Listable Registrable)

/-- All handlers that a rule lists for a category, wherever they stand in its table. -/
def Rule.handlersFor (r : Rule) (t : NodeType) : List Handler :=
  (r.handlers.filter fun entry => entry.1 = t).map Prod.snd

/-- A handler together with the instance that it is run for. -/
structure Call where
  target : Instance
  handler : Handler

/-- What a call records on a node. -/
def Call.records (f : Focus) (c : Call) : List Violation :=
  (c.handler c.target.context f).flatMap (c.target.context.report f)

/-- The calls that are made when a node is shown to rules that are set up. -/
def RuleSet.made (s : RuleSet) (f : Focus) : List Call :=
  s.instances.filterMap fun i => (i.rule.handler? f.node.nodeType).map (Call.mk i)

/-- The calls that the tables of rules ask for on a node of some category, rule by rule. -/
def calls (rules : List Rule) (job : Job) (t : NodeType) : List Call :=
  rules.flatMap fun r => (r.handlersFor t).map (Call.mk (Instance.bound job r))

/-- Showing a node to the instance runs the handler. -/
structure Instance.Runs (i : Instance) (f : Focus) (handler : Handler) : Prop where
  found : i.rule.handler? f.node.nodeType = some handler
  recorded : i.visit f = some (Call.records f ⟨i, handler⟩)

-- ── Looking a category up ────────────────────────────────────────────────────

theorem Rule.mem_categories_iff {r : Rule} {t : NodeType} :
    t ∈ r.categories ↔ ∃ handler, (t, handler) ∈ r.handlers := by
  rw [Rule.categories, List.mem_map]
  constructor
  · rintro ⟨entry, hentry, rfl⟩
    exact ⟨entry.2, hentry⟩
  · rintro ⟨handler, hentry⟩
    exact ⟨_, hentry, rfl⟩

/-- In a table that lists no category twice, what is looked up is what is listed. -/
theorem Rule.handler?_eq_some_iff {r : Rule} (h : Listable r.categories) {t : NodeType}
    {handler : Handler} : r.handler? t = some handler ↔ (t, handler) ∈ r.handlers := by
  rw [Rule.handler?, Option.map_eq_some_iff]
  constructor
  · rintro ⟨⟨t', handler'⟩, hfind, rfl⟩
    obtain ⟨hentry, rfl⟩ := (Registry.find?_key_eq_some_iff h.nodup).mp hfind
    exact hentry
  · intro hentry
    exact ⟨_, (Registry.find?_key_eq_some_iff h.nodup).mpr ⟨hentry, rfl⟩, rfl⟩

theorem Rule.handler?_eq_none_iff {r : Rule} (h : Listable r.categories) {t : NodeType} :
    r.handler? t = none ↔ t ∉ r.categories := by
  rw [Option.eq_none_iff_forall_ne_some, Rule.mem_categories_iff, not_exists]
  exact forall_congr' fun handler => not_congr (Rule.handler?_eq_some_iff h)

/-- Such a table has at most one handler for a category. -/
theorem Rule.handlersFor_eq {r : Rule} (h : Listable r.categories) (t : NodeType) :
    r.handlersFor t = (r.handler? t).toList := by
  by_cases ht : t ∈ r.categories
  · obtain ⟨handler, hentry⟩ := Rule.mem_categories_iff.mp ht
    rw [(Rule.handler?_eq_some_iff h).mpr hentry, Rule.handlersFor,
      Registry.filter_key_eq h.nodup hentry]
    rfl
  · rw [(Rule.handler?_eq_none_iff h).mpr ht, Rule.handlersFor, Option.toList_none,
      List.map_eq_nil_iff, List.filter_eq_nil_iff]
    intro entry hentry heq
    exact ht (of_decide_eq_true heq ▸ List.mem_map_of_mem hentry)

/-- A listed category has one handler, since none is listed twice. -/
theorem Rule.length_handlersFor {r : Rule} (h : Listable r.categories) (t : NodeType) :
    (r.handlersFor t).length = if t ∈ r.categories then 1 else 0 := by
  rw [Rule.handlersFor_eq h]
  by_cases ht : t ∈ r.categories
  · obtain ⟨handler, hhandler⟩ := Rule.mem_categories_iff.mp ht
    rw [if_pos ht, (Rule.handler?_eq_some_iff h).mpr hhandler]
    rfl
  · rw [if_neg ht, (Rule.handler?_eq_none_iff h).mpr ht]
    rfl

-- ── Showing a node to rules ──────────────────────────────────────────────────

/-- **A handler runs on a node just if it is listed for the category of the node.** -/
theorem Instance.runs_iff {i : Instance} (h : Listable i.rule.categories) (f : Focus)
    (handler : Handler) : i.Runs f handler ↔ (f.node.nodeType, handler) ∈ i.rule.handlers := by
  rw [← Rule.handler?_eq_some_iff h]
  constructor
  · intro hruns
    exact hruns.found
  · intro hfound
    refine ⟨hfound, ?_⟩
    rw [Instance.visit, hfound]
    rfl

theorem Instance.visit_eq_none_iff {i : Instance} (h : Listable i.rule.categories) (f : Focus) :
    i.visit f = none ↔ f.node.nodeType ∉ i.rule.categories := by
  rw [Instance.visit, Option.map_eq_none_iff, Rule.handler?_eq_none_iff h]

/-- Showing a node to rules is making the calls one after the other. -/
theorem RuleSet.dispatch_eq_made (s : RuleSet) (f : Focus) :
    s.dispatch f = ⟨(s.made f).length, (s.made f).flatMap (Call.records f)⟩ := by
  have hvisit : (s.instances.filterMap fun i => i.visit f) = (s.made f).map (Call.records f) := by
    rw [RuleSet.made, List.map_filterMap]
    refine List.filterMap_congr fun i _ => ?_
    rw [Instance.visit, Option.map_map]
    rfl
  rw [RuleSet.dispatch, hvisit, List.length_map, List.flatMap_def]

/-- The calls that are made are those that the tables ask for. -/
theorem RuleSet.made_bound {rules : List Rule} (h : ∀ r ∈ rules, Listable r.categories)
    (job : Job) (f : Focus) :
    RuleSet.made ⟨rules.map (Instance.bound job)⟩ f = calls rules job f.node.nodeType := by
  rw [RuleSet.made, List.filterMap_eq_flatMap_toList, List.flatMap_map, calls]
  refine List.flatMap_congr fun r hr => ?_
  rw [Rule.handlersFor_eq (h r hr), ← Option.toList_map]
  rfl

/-- There are as many calls as rules that list the category. -/
theorem length_calls {rules : List Rule} (h : ∀ r ∈ rules, Listable r.categories) (job : Job)
    (t : NodeType) :
    (calls rules job t).length = rules.countP fun r => t ∈ r.categories := by
  induction rules with
  | nil => rfl
  | cons r rest ih =>
      obtain ⟨hr, hrest⟩ := List.forall_mem_cons.mp h
      rw [calls, List.flatMap_cons, List.length_append, List.length_map, ← calls, ih hrest,
        Rule.length_handlersFor hr, List.countP_cons, Nat.add_comm]
      simp only [decide_eq_true_eq]

/-- Showing a node to rules whose tables are in order, in closed form. -/
theorem RuleSet.dispatch_eq_calls {rules : List Rule} (h : ∀ r ∈ rules, Listable r.categories)
    (job : Job) (f : Focus) :
    RuleSet.dispatch ⟨rules.map (Instance.bound job)⟩ f
      = ⟨rules.countP fun r => f.node.nodeType ∈ r.categories,
          (calls rules job f.node.nodeType).flatMap (Call.records f)⟩ := by
  rw [RuleSet.dispatch_eq_made, RuleSet.made_bound h, length_calls h]

/-- The calls are the listed handlers, each with the instance of its rule. -/
theorem mem_calls_iff {rules : List Rule} {job : Job} {t : NodeType} {c : Call} :
    c ∈ calls rules job t ↔
      ∃ r ∈ rules, c.target = Instance.bound job r ∧ (t, c.handler) ∈ r.handlers := by
  rw [calls, List.mem_flatMap]
  refine exists_congr fun r => and_congr_right fun _ => ?_
  rw [List.mem_map]
  constructor
  · rintro ⟨handler, hhandler, rfl⟩
    obtain ⟨⟨t', handler'⟩, hfilter, rfl⟩ := List.mem_map.mp hhandler
    obtain ⟨hentry, ht⟩ := List.mem_filter.mp hfilter
    obtain rfl : t' = t := of_decide_eq_true ht
    exact ⟨rfl, hentry⟩
  · rintro ⟨htarget, hentry⟩
    refine ⟨c.handler, List.mem_map.mpr ⟨_, List.mem_filter.mpr ⟨hentry, decide_eq_true rfl⟩, rfl⟩,
      ?_⟩
    rw [← htarget]

/-- Whatever a call records is about the node, under the id of the rule it is made for. -/
theorem Call.eq_of_mem_records {f : Focus} {c : Call} {v : Violation} (hv : v ∈ c.records f) :
    ∃ m, v = Violation.ofNode c.target.context.fileName c.target.context.ruleId f.node m := by
  obtain ⟨m, -, hm⟩ := List.mem_flatMap.mp hv
  exact ⟨m, Context.eq_of_mem_report hm⟩

-- ── Nodes of no known category ───────────────────────────────────────────────

/-- A name is unknown if no category is called so. -/
theorem NodeType.ofName_eq_unknown_iff {s : String} :
    NodeType.ofName s = .unknown ↔ ∀ t : NodeType, t ≠ .unknown → s ≠ t.name := by
  constructor
  · rintro h t ht rfl
    rw [NodeType.ofName_name] at h
    exact ht h
  · intro h
    by_contra hknown
    exact h _ hknown ((NodeType.ofName_eq_iff hknown).mp rfl)

/-- No rule that can be registered lists nodes of unknown kind, so none is called on them. -/
theorem calls_unknown {rules : List Rule} (h : ∀ r ∈ rules, Listable r.categories) (job : Job) :
    calls rules job .unknown = [] := by
  refine List.eq_nil_iff_forall_not_mem.mpr fun c hc => ?_
  obtain ⟨r, hr, -, hentry⟩ := mem_calls_iff.mp hc
  exact (h r hr).known (Rule.mem_categories_iff.mpr ⟨_, hentry⟩)

/-- On a node of no known category nothing runs. -/
theorem RuleSet.dispatch_of_unknown {rules : List Rule}
    (h : ∀ r ∈ rules, Listable r.categories) (job : Job) {f : Focus}
    (hf : f.node.nodeType = .unknown) :
    RuleSet.dispatch ⟨rules.map (Instance.bound job)⟩ f = ⟨0, []⟩ := by
  rw [RuleSet.dispatch_eq_calls h, ← length_calls h job, hf, calls_unknown h]
  rfl

-- ── The order of a table ─────────────────────────────────────────────────────

/-- The same rule, but for the order of its table. -/
structure Rule.Reordered (r r' : Rule) : Prop where
  descriptor : r'.descriptor = r.descriptor
  description : r'.description = r.description
  handlers : r'.handlers.Perm r.handlers

theorem Rule.Reordered.categories {r r' : Rule} (h : r.Reordered r') :
    r'.categories.Perm r.categories := h.handlers.map Prod.fst

theorem Rule.Reordered.listable {r r' : Rule} (h : r.Reordered r')
    (hr : Listable r.categories) : Listable r'.categories where
  known hmem := hr.known (h.categories.mem_iff.mp hmem)
  nodup := h.categories.nodup_iff.mpr hr.nodup

/-- The order of a table does not matter, since a category stands in it once. -/
theorem Rule.Reordered.handler?_eq {r r' : Rule} (h : r.Reordered r')
    (hr : Listable r.categories) (t : NodeType) : r'.handler? t = r.handler? t := by
  -- looking up takes the first entry for `t`, and there is no second
  refine Option.ext fun handler => ?_
  rw [Rule.handler?_eq_some_iff (h.listable hr), Rule.handler?_eq_some_iff hr,
    h.handlers.mem_iff]

theorem Rule.Reordered.visit_eq {r r' : Rule} (h : r.Reordered r') (hr : Listable r.categories)
    (job : Job) (f : Focus) :
    (Instance.bound job r').visit f = (Instance.bound job r).visit f := by
  have hcontext : (Instance.bound job r').context = (Instance.bound job r).context := by
    rw [Instance.bound, Instance.bound, h.descriptor]
  show (r'.handler? _).map _ = (r.handler? _).map _
  rw [h.handler?_eq hr, hcontext]

section Reordered

variable {rules rules' : List Rule}

theorem ids_eq_of_reordered (h : List.Forall₂ Rule.Reordered rules rules') :
    Registry.ids rules' = Registry.ids rules := by
  induction h with
  | nil => rfl
  | cons hr _ ih => rw [Registry.ids_cons, Registry.ids_cons, ih, hr.descriptor]

/-- Whether rules can be registered does not depend on the order of their tables. -/
theorem registrable_of_reordered (h : List.Forall₂ Rule.Reordered rules rules')
    (hrules : Registrable rules) : Registrable rules' where
  checked := by
    have hchecked := hrules.checked
    clear hrules
    induction h with
    | nil => exact nofun
    | cons hr _ ih =>
        obtain ⟨hhead, htail⟩ := List.forall_mem_cons.mp hchecked
        obtain ⟨hnamed, hlistable⟩ := Registry.checkRule_eq_ok_iff.mp hhead
        refine List.forall_mem_cons.mpr ⟨Registry.checkRule_eq_ok_iff.mpr ⟨?_, ?_⟩, ih htail⟩
        · rw [hr.descriptor]
          exact hnamed
        · exact hr.listable hlistable
  nodup_ids := by
    rw [ids_eq_of_reordered h]
    exact hrules.nodup_ids

/-- A node is dispatched alike whatever order the tables of the rules are in. -/
theorem RuleSet.dispatch_eq_of_reordered (h : List.Forall₂ Rule.Reordered rules rules')
    (hrules : ∀ r ∈ rules, Listable r.categories) (job : Job) (f : Focus) :
    RuleSet.dispatch ⟨rules'.map (Instance.bound job)⟩ f
      = RuleSet.dispatch ⟨rules.map (Instance.bound job)⟩ f := by
  have hvisit : (rules'.map (Instance.bound job)).filterMap (fun i => i.visit f)
      = (rules.map (Instance.bound job)).filterMap fun i => i.visit f := by
    induction h with
    | nil => rfl
    | cons hr _ ih =>
        obtain ⟨hhead, htail⟩ := List.forall_mem_cons.mp hrules
        rw [List.map_cons, List.map_cons, List.filterMap_cons, List.filterMap_cons, ih htail,
          hr.visit_eq hhead]
  rw [RuleSet.dispatch, RuleSet.dispatch, hvisit]

end Reordered

-- ── Registered rules ─────────────────────────────────────────────────────────

/-- **Showing a node to registered rules runs exactly what their tables list for it.** For
    every file there is one instance a rule, in the order of the rules. Each runs the
    handler that its table lists for the category of the node, and none if it lists none. All
    together they make the calls that the tables ask for, in the order of the rules, and the
    number of calls is the number of rules that list the category. On a node whose type is the
    name of no known category nothing runs. Whatever is recorded is about a node whose type is
    the name of a category that is listed by the rule it names. With the entries of the tables
    in any other order the rules are registered as well, and nothing else changes. -/
theorem Registry.dispatch_runs_listed {rules : List Rule} {g : Registry}
    (h : Registry.build rules = .ok g) (job : Job) :
    ∃ s, g.instantiate job = .ok s ∧ s.instances = rules.map (Instance.bound job) ∧
      (∀ f : Focus,
        (∀ i ∈ s.instances,
          (∀ handler, i.Runs f handler ↔ (f.node.nodeType, handler) ∈ i.rule.handlers) ∧
          (i.visit f = none ↔ f.node.nodeType ∉ i.rule.categories)) ∧
        s.made f = calls rules job f.node.nodeType ∧
        s.dispatch f = ⟨rules.countP fun r => f.node.nodeType ∈ r.categories,
          (calls rules job f.node.nodeType).flatMap (Call.records f)⟩ ∧
        ((∀ t : NodeType, t ≠ .unknown → f.node.typeName ≠ t.name) → s.dispatch f = ⟨0, []⟩) ∧
        (f.node.typeName = "Unknown" → s.dispatch f = ⟨0, []⟩) ∧
        ∀ v ∈ (s.dispatch f).violations, ∃ r ∈ rules, g.find? v.rule = some r ∧
          ∃ t ∈ r.categories, v.nodeType = t.name) ∧
      ∀ rules', List.Forall₂ Rule.Reordered rules rules' → ∃ g' s',
        Registry.build rules' = .ok g' ∧ g'.instantiate job = .ok s' ∧
          ∀ f, s'.dispatch f = s.dispatch f := by
  have hset := Registry.instantiate_of_build h job
  obtain ⟨hrules, rfl⟩ := Registry.build_eq_ok_iff.mp h
  have hlistable : ∀ r ∈ rules, Listable r.categories := fun r hr =>
    (Registry.checkRule_eq_ok_iff.mp (hrules.checked r hr)).2
  refine ⟨_, hset, rfl, fun f => ⟨?_, RuleSet.made_bound hlistable job f,
    RuleSet.dispatch_eq_calls hlistable job f, ?_, ?_, ?_⟩, ?_⟩
  · intro i hi
    obtain ⟨r, hr, rfl⟩ := List.mem_map.mp hi
    have hr' : Listable (Instance.bound job r).rule.categories := hlistable r hr
    exact ⟨Instance.runs_iff hr' f, Instance.visit_eq_none_iff hr' f⟩
  · intro hname
    exact RuleSet.dispatch_of_unknown hlistable job (NodeType.ofName_eq_unknown_iff.mpr hname)
  · intro hname
    refine RuleSet.dispatch_of_unknown hlistable job ?_
    rw [Node.nodeType, hname]
    exact NodeType.ofName_name .unknown
  · intro v hv
    rw [RuleSet.dispatch_eq_calls hlistable, List.mem_flatMap] at hv
    obtain ⟨c, hc, hv⟩ := hv
    obtain ⟨r, hr, htarget, hentry⟩ := mem_calls_iff.mp hc
    obtain ⟨m, rfl⟩ := Call.eq_of_mem_records hv
    have hmem : f.node.nodeType ∈ r.categories := Rule.mem_categories_iff.mpr ⟨_, hentry⟩
    have hknown : f.node.nodeType ≠ .unknown := fun heq => (hlistable r hr).known (heq ▸ hmem)
    refine ⟨r, hr, hrules.find?_eq_some_iff.mpr ⟨hr, ?_⟩, _, hmem, ?_⟩
    · show r.descriptor.id = c.target.context.ruleId
      rw [htarget]
      rfl
    · exact (NodeType.ofName_eq_iff hknown).mp rfl
  · intro rules' hreordered
    have hbuild := Registry.build_eq_ok_iff.mpr ⟨registrable_of_reordered hreordered hrules, rfl⟩
    refine ⟨_, _, hbuild, Registry.instantiate_of_build hbuild job, fun f => ?_⟩
    exact RuleSet.dispatch_eq_of_reordered hreordered hlistable job f

/-- A private function without an underscore, alone in its tree. -/
def Focus.settle : Focus where
  tree := Tree.empty.pushRoot
    { typeName := "FunctionDefinition", name := some "settle", visibility := some .priv }
  id := ⟨0, by decide⟩

/-- The rule on underscores with its table the other way round. -/
def LeadingUnderscore.turned : Rule :=
  { LeadingUnderscore.rule with handlers := LeadingUnderscore.rule.handlers.reverse }

/-- The private function `settle` is seen by one rule, and turning the table of that rule round
    does not change what it records. -/
theorem Registry.dispatch_runs_listed_settle :
    Registry.build Rule.builtin = .ok Registry.builtin ∧
      ∃ s, Registry.builtin.instantiate { fileName := "a.sol" } = .ok s ∧
        (s.dispatch .settle).invoked = 1 ∧
        (s.dispatch .settle).violations.map Violation.message
          = [LeadingUnderscore.onPrivateFunction] ∧
        (∃ i ∈ s.instances, i.Runs .settle LeadingUnderscore.onFunction) ∧
        ∃ g' s', Registry.build [InterfaceNames.rule, LeadingUnderscore.turned] = .ok g' ∧
          g'.instantiate { fileName := "a.sol" } = .ok s' ∧
          s'.dispatch .settle = s.dispatch .settle := by
  obtain ⟨s, hs, hinstances, hnode, horder⟩ :=
    Registry.dispatch_runs_listed Registry.build_builtin { fileName := "a.sol" }
  obtain ⟨hruns, -, hdispatch, -⟩ := hnode .settle
  obtain ⟨g', s', hg', hs', heq⟩ := horder [InterfaceNames.rule, LeadingUnderscore.turned]
    (.cons ⟨rfl, rfl, .refl _⟩ (.cons ⟨rfl, rfl, List.reverse_perm _⟩ .nil))
  refine ⟨Registry.build_builtin, s, hs, ?_, ?_, ?_, g', s', hg', hs', heq _⟩
  · rw [hdispatch]
    decide +kernel
  · rw [hdispatch]
    decide +kernel
  · refine ⟨Instance.bound { fileName := "a.sol" } LeadingUnderscore.rule, ?_, ?_⟩
    · rw [hinstances]
      exact List.mem_cons_of_mem _ List.mem_cons_self
    · refine ((hruns _ ?_).1 _).mpr ?_
      · rw [hinstances]
        exact List.mem_cons_of_mem _ List.mem_cons_self
      · exact List.mem_cons_of_mem _ List.mem_cons_self

end SolidityLint
