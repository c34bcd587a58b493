import SolidityLint.Proofs.Lint.Ignored

/-!
# What was reported stays true

Rules may be shown nodes while the tree is still growing, in any order and as often as one
likes. A handler sees its node and, through a number kept in it, the parent, and both may
have got further children by the time it is asked again. The built-in rules do not look at
children. So what a node gives rise to is settled when it is pushed, and the log that
builds up over a history can be computed afterwards, from the tree as it is at the end.

`Tree.Keeps` is the frame of a push: old nodes are found under their numbers with children
added at most. `Focus.view` is what a rule that takes no notice of children can see, and
`History.replay_eq_log` is the induction over a history.
-/

namespace SolidityLint

-- ── Trees that grow ──────────────────────────────────────────────────────────

/-- The nodes of `t` stand in `t'` under the same numbers, perhaps with further children. -/
def Tree.Keeps (t t' : Tree) : Prop :=
  ∀ i n, t.get? i = some n → ∃ ids, t'.get? i = some (n.adopt ids)

namespace Tree.Keeps

variable {t t' t'' : Tree}

theorem refl (t : Tree) : t.Keeps t := by
  intro i n hn
  exact ⟨[], by rw [n.adopt_nil]; exact hn⟩

theorem trans (h : t.Keeps t') (h' : t'.Keeps t'') : t.Keeps t'' := by
  intro i n hn
  obtain ⟨ids, hids⟩ := h i n hn
  obtain ⟨js, hjs⟩ := h' i _ hids
  exact ⟨ids ++ js, by rw [n.adopt_append]; exact hjs⟩

/-- **A push keeps the nodes that are there.** The parent has got one child more, the others
    nothing. -/
theorem of_pushed {parent : Option Nat} {n : Node} (h : Pushed t parent n t') : t.Keeps t' := by
  intro i m hm
  have hi := h.old i (lt_size_of_get? hm)
  rw [hm, Option.map_some] at hi
  by_cases hparent : parent = some i
  · rw [hparent, linked_self] at hi
    exact ⟨_, hi⟩
  · rw [linked_of_ne hparent] at hi
    exact ⟨[], by rw [m.adopt_nil]; exact hi⟩

theorem push (t : Tree) (p : Push) : t.Keeps (t.push p) := by
  cases p with
  | root n => exact of_pushed (pushRoot_pushed t n)
  | child p n =>
      by_cases hp : p < t.size
      · exact of_pushed (pushChild_pushed (pushChild_of_lt hp n)).2
      · rw [push_child_of_le (Nat.le_of_not_lt hp) n]
        exact refl t

theorem pushes (ps : List Push) : ∀ t : Tree, t.Keeps (ps.foldl Tree.push t) := by
  induction ps with
  | nil => exact refl
  | cons p ps ih => exact fun t => (push t p).trans (ih (t.push p))

theorem lt_size (h : t.Keeps t') {i : Nat} (hi : i < t.size) : i < t'.size := by
  obtain ⟨ids, hids⟩ := h i _ (Array.getElem?_eq_getElem hi)
  exact lt_size_of_get? hids

/-- A node in focus is found again, with the same content and the same parent. -/
theorem exists_focus (h : t.Keeps t') (id : Fin t.nodes.size) :
    ∃ hid : id < t'.nodes.size, ∃ ids,
      (Focus.mk t' ⟨id, hid⟩).node = (Focus.mk t id).node.adopt ids := by
  obtain ⟨ids, hids⟩ := h id _ (Array.getElem?_eq_getElem id.isLt)
  obtain ⟨hid, hnode⟩ := Array.getElem?_eq_some_iff.mp hids
  exact ⟨hid, ids, hnode⟩

end Tree.Keeps

-- ── What can be seen without looking at children ─────────────────────────────

/-- What a focus shows of its node and of the parent, their places in the tree left out. -/
def Focus.view (f : Focus) : Node × Option Node :=
  (f.node.detached, f.parent?.map fun p => p.node.detached)

/-- As long as parents come before their children, a node looks the same in a tree that
    has grown. -/
theorem Tree.Keeps.view_eq {t t' : Tree} (h : t.Keeps t') (ht : t.Linked)
    (id : Fin t.nodes.size) (hid : id < t'.nodes.size) :
    (Focus.mk t' ⟨id, hid⟩).view = (Focus.mk t id).view := by
  obtain ⟨_, ids, hnode⟩ := h.exists_focus id
  have hlink : (Focus.mk t' ⟨id, hid⟩).node.parent = (Focus.mk t id).node.parent := by
    rw [hnode]
    rfl
  refine Prod.ext ?_ ?_
  · show (Focus.mk t' ⟨id, hid⟩).node.detached = (Focus.mk t id).node.detached
    rw [hnode]
    rfl
  · show (Focus.mk t' ⟨id, hid⟩).parent?.map _ = (Focus.mk t id).parent?.map _
    rw [Focus.parent?, Focus.parent?, hlink]
    cases hparent : (Focus.mk t id).node.parent with
    | none => rfl
    | some p =>
        have hp : p < t.nodes.size := by
          obtain ⟨hp, -⟩ := (ht.connected (f := ⟨t, id⟩)).parent?_eq p hparent
          exact hp
        obtain ⟨hp', js, hpnode⟩ := h.exists_focus ⟨p, hp⟩
        have hfocus : (Focus.mk t id).moveTo? p = some ⟨t, ⟨p, hp⟩⟩ := Focus.moveTo?_of_lt hp
        have hfocus' : (Focus.mk t' ⟨id, hid⟩).moveTo? p = some ⟨t', ⟨p, hp'⟩⟩ :=
          Focus.moveTo?_of_lt hp'
        rw [Option.bind_some, Option.bind_some, hfocus, hfocus', Option.map_some,
          Option.map_some, hpnode]
        rfl

/-- The rule says of a node what can be seen without looking at children. -/
def Rule.ReadsView (r : Rule) : Prop :=
  ∀ entry ∈ r.handlers, ∀ c f f', Focus.view f = Focus.view f' → entry.2 c f = entry.2 c f'

/-- Where a violation is and what it says does not depend on the links of the node. -/
theorem Violation.ofNode_detached (file rule : String) (n : Node) (m : String) :
    Violation.ofNode file rule n.detached m = Violation.ofNode file rule n m := rfl

/-- Such a rule records the same on nodes that look the same. -/
theorem Instance.visit_eq_of_view {i : Instance} (hi : i.rule.ReadsView) {f f' : Focus}
    (h : f.view = f'.view) : i.visit f = i.visit f' := by
  have hnode : f.node.detached = f'.node.detached := congrArg Prod.fst h
  have htype : f.node.nodeType = f'.node.nodeType := (congrArg Node.nodeType hnode :)
  rw [Instance.visit, Instance.visit, htype]
  cases hhandler : i.rule.handler? f'.node.nodeType with
  | none => rfl
  | some handler =>
      rw [Rule.handler?, Option.map_eq_some_iff] at hhandler
      obtain ⟨entry, hentry, rfl⟩ := hhandler
      have hreport : i.context.report f = i.context.report f' := by
        funext m
        rw [Context.report, Context.report, ← Violation.ofNode_detached, hnode,
          Violation.ofNode_detached]
      rw [Option.map_some, Option.map_some, hreport,
        hi entry (List.mem_of_find?_eq_some hentry) i.context f f' h]

/-- Nodes that look the same without their children are dispatched alike. -/
theorem RuleSet.dispatch_eq_of_view {s : RuleSet} (hs : ∀ i ∈ s.instances, i.rule.ReadsView)
    {f f' : Focus} (h : f.view = f'.view) : s.dispatch f = s.dispatch f' := by
  have hvisit : (s.instances.filterMap fun i => i.visit f)
      = s.instances.filterMap fun i => i.visit f' :=
    List.filterMap_congr fun i hi => Instance.visit_eq_of_view (hs i hi) h
  rw [RuleSet.dispatch, RuleSet.dispatch, hvisit]

-- ── Histories ────────────────────────────────────────────────────────────────

/-- What was done so far with rules that are set up and a tree that was empty at first. A
    push may be rejected. A node is shown to all rules or to one of them, and it has to be
    in the tree by then. -/
inductive History (s : RuleSet) : Tree → Type where
  | start : History s Tree.empty
  | push {t : Tree} (before : History s t) (p : Push) : History s (t.push p)
  | dispatch {t : Tree} (before : History s t) (id : Fin t.nodes.size) : History s t
  | visit {t : Tree} (before : History s t) (i : Instance) (hi : i ∈ s.instances)
      (id : Fin t.nodes.size) : History s t

/-- What an instance records on the node with a given number. -/
def Instance.reportsOn (i : Instance) (t : Tree) (id : Nat) : List Violation :=
  match t.focus? id with
  | some f => (i.visit f).getD []
  | none => []

namespace History

variable {s : RuleSet}

/-- What was recorded, each time on the tree as it was then. -/
def log : {t : Tree} → History s t → List Violation
  | _, start => []
  | _, push before _ => before.log
  | t, dispatch before id => before.log ++ (s.dispatch ⟨t, id⟩).violations
  | t, visit before i _ id => before.log ++ (i.visit ⟨t, id⟩).getD []

/-- What would have been recorded if the tree had been `final` all the time. -/
def replay (final : Tree) : {t : Tree} → History s t → List Violation
  | _, start => []
  | _, push before _ => before.replay final
  | _, dispatch before id => before.replay final ++ s.reportsOn final id
  | _, visit before i _ id => before.replay final ++ i.reportsOn final id

/-- At every point of a history the links of the tree agree. -/
theorem linked {t : Tree} (h : History s t) : t.Linked := by
  induction h with
  | start => exact Tree.linked_empty
  | push _ p ih => exact Tree.linked_push ih p
  | dispatch _ _ ih => exact ih
  | visit _ _ _ _ ih => exact ih

/-- **What was recorded can be read off any later tree**, if no rule looks at children. -/
theorem replay_eq_log (hs : ∀ i ∈ s.instances, i.rule.ReadsView) {t : Tree} (h : History s t)
    {final : Tree} (hfinal : t.Keeps final) : h.replay final = h.log := by
  induction h with
  | start => rfl
  | @push t before p ih => exact ih ((Tree.Keeps.push t p).trans hfinal)
  | @dispatch t before id ih =>
      have hid := hfinal.lt_size id.isLt
      rw [replay, log, ih hfinal, RuleSet.reportsOn, Tree.focus?_of_lt hid]
      simp only
      rw [RuleSet.dispatch_eq_of_view hs (hfinal.view_eq before.linked id hid)]
  | @visit t before i hi id ih =>
      have hid := hfinal.lt_size id.isLt
      rw [replay, log, ih hfinal, Instance.reportsOn, Tree.focus?_of_lt hid]
      simp only
      rw [Instance.visit_eq_of_view (hs i hi) (hfinal.view_eq before.linked id hid)]

/-- Rules that leave the file alone record nothing over any history. -/
theorem log_eq_nil (hs : ∀ i ∈ s.instances, i.context.ignored = true) {t : Tree}
    (h : History s t) : h.log = [] := by
  induction h with
  | start => rfl
  | push before p ih => exact ih
  | @dispatch t before id ih =>
      rw [log, ih, RuleSet.violations_dispatch, List.nil_append, List.flatMap_eq_nil_iff]
      intro i hi
      exact Instance.visit_of_ignored (hs i hi) _
  | @visit t before i hi id ih =>
      rw [log, ih, List.nil_append]
      exact Instance.visit_of_ignored (hs i hi) _

end History

-- ── The built-in rules ───────────────────────────────────────────────────────

/-- The rule about interfaces does not look at children. -/
theorem InterfaceNames.readsView_rule : InterfaceNames.rule.ReadsView := by
  intro entry hentry c f f' h
  obtain rfl := List.mem_singleton.mp hentry
  have hnode : f.node.detached = f'.node.detached := congrArg Prod.fst h
  have hkind : f.node.kind = f'.node.kind := (congrArg Node.kind hnode :)
  have hname : f.node.nameD = f'.node.nameD := (congrArg Node.nameD hnode :)
  simp only [InterfaceNames.onContract, hkind, hname]

/-- The rule about underscores looks at the parent, but not at children. -/
theorem LeadingUnderscore.readsView_rule : LeadingUnderscore.rule.ReadsView := by
  intro entry hentry c f f' h
  have hnode : f.node.detached = f'.node.detached := congrArg Prod.fst h
  have hname : f.node.nameD = f'.node.nameD := (congrArg Node.nameD hnode :)
  have hvisibility : f.node.visibility = f'.node.visibility := (congrArg Node.visibility hnode :)
  rcases List.mem_cons.mp hentry with rfl | hentry
  · have hconstant : f.node.isConstant = f'.node.isConstant := (congrArg Node.isConstant hnode :)
    simp only [LeadingUnderscore.onVariable, hconstant, hname, hvisibility]
  · obtain rfl := List.mem_singleton.mp hentry
    -- of the parent only the kind is asked for
    have houter : (f.parent?.bind fun p => p.node.kind)
        = f'.parent?.bind fun p => p.node.kind := by
      have hparent := congrArg (fun v => v.2.bind Node.kind) h
      simp only [Focus.view, Option.bind_map] at hparent
      exact hparent
    simp only [LeadingUnderscore.onFunction, hname, hvisibility, houter]

theorem RuleSet.exists_rule_of_mem_builtin {job : Job} {i : Instance}
    (hi : i ∈ (RuleSet.builtin job).instances) :
    i = Instance.bound job InterfaceNames.rule ∨
      i = Instance.bound job LeadingUnderscore.rule := by
  rcases List.mem_cons.mp hi with rfl | hi
  · exact .inl rfl
  · exact .inr (List.mem_singleton.mp hi)

theorem RuleSet.readsView_builtin (job : Job) :
    ∀ i ∈ (RuleSet.builtin job).instances, i.rule.ReadsView := by
  intro i hi
  rcases RuleSet.exists_rule_of_mem_builtin hi with rfl | rfl
  · exact InterfaceNames.readsView_rule
  · exact LeadingUnderscore.readsView_rule

/-- The categories that a built-in rule has a handler for. -/
def NodeType.checked : List NodeType :=
  [.contractDefinition, .variableDeclaration, .functionDefinition]

/-- One handler runs on a node of a checked category, and none on any other: no two built-in rules
    list the same category. -/
theorem RuleSet.invoked_builtin (job : Job) (f : Focus) :
    ((RuleSet.builtin job).dispatch f).invoked
      = if f.node.nodeType ∈ NodeType.checked then 1 else 0 := by
  have hcount := RuleSet.invoked_dispatch_bound Rule.builtin job f
  rw [RuleSet.builtin, hcount, Rule.builtin, List.countP_cons, List.countP_cons, List.countP_nil,
    InterfaceNames.handler?_rule, LeadingUnderscore.handler?_rule]
  cases f.node.nodeType <;> rfl

/-- **The log does not depend on when nodes were shown.** Over any history of the built-in
    rules on any file, what was recorded is, in the same order, what the nodes give rise to
    in the tree as it is at the end, and it is nothing if the file is to be left alone.
    Whatever is pushed, a node that is there keeps its number, and showing it again has the
    same outcome: the same handlers run and record the same. On a node of a category that is
    checked one handler runs, on any other none. -/
theorem History.log_eq_replay {job : Job} {t : Tree} (h : History (RuleSet.builtin job) t) :
    Registry.builtin.instantiate job = .ok (RuleSet.builtin job) ∧
      h.log = h.replay t ∧
      (Ignore.covers job.fileName = true → h.log = []) ∧
      (∀ (ps : List Push) (id : Fin t.nodes.size), ∃ f,
        (ps.foldl Tree.push t).focus? id = some f ∧
          (RuleSet.builtin job).dispatch f = (RuleSet.builtin job).dispatch ⟨t, id⟩ ∧
          ∀ i ∈ (RuleSet.builtin job).instances, i.visit f = i.visit ⟨t, id⟩) ∧
      ∀ id : Fin t.nodes.size, ((RuleSet.builtin job).dispatch ⟨t, id⟩).invoked
        = if (Focus.mk t id).node.nodeType ∈ NodeType.checked then 1 else 0 := by
  have hs := RuleSet.readsView_builtin job
  refine ⟨Registry.instantiate_builtin job, ?_, ?_, ?_, ?_⟩
  · exact (h.replay_eq_log hs (Tree.Keeps.refl t)).symm
  · intro hcovers
    refine h.log_eq_nil fun i hi => ?_
    rcases RuleSet.exists_rule_of_mem_builtin hi with rfl | rfl
    · exact hcovers
    · exact hcovers
  · intro ps id
    have hkeeps := Tree.Keeps.pushes ps t
    have hid := hkeeps.lt_size id.isLt
    have hview := hkeeps.view_eq h.linked id hid
    exact ⟨_, Tree.focus?_of_lt hid, RuleSet.dispatch_eq_of_view hs hview,
      fun i hi => Instance.visit_eq_of_view (hs i hi) hview⟩
  · intro id
    exact RuleSet.invoked_builtin job ⟨t, id⟩

-- a function is shown, a push is rejected, its contract gets another child, it is shown again
example :
    let contract : Node := { typeName := "ContractDefinition", kind := some "library" }
    let function : Node :=
      { typeName := "FunctionDefinition", name := some "_add", visibility := some .internal }
    let h : History (RuleSet.builtin { fileName := "a.sol" }) _ :=
      ((((History.start.push (.root contract)).push (.child 0 function)).dispatch
        ⟨1, by decide⟩).push (.child 7 function)).push (.child 0 contract)
    (h.dispatch ⟨1, by decide⟩).log.map Violation.message
      = [LeadingUnderscore.onLibraryFunction, LeadingUnderscore.onLibraryFunction] := by
  decide +kernel

end SolidityLint
