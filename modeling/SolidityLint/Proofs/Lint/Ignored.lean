import SolidityLint.Proofs.Lint.Independence

/-!
# Linting a file that is left alone

On a file that is to be left alone only global rules record anything, so what is found there
is what the global rules find (`findings_of_covers`). A rule that says of a node only what
the node and its parent tell it finds the same in every file, but for the name of the file
(`findings_eq_inFile`). Put together with `filter_findings`: what is found in an ignored
file is what is found in any other under the ids of the global rules, moved to the ignored
file.

Handlers run on ignored files too, so the number of handlers that ran tells nothing about
the file.
-/

namespace SolidityLint

open Registry (Registrable)

/-- Whether an id is that of a global rule. -/
def Registry.isGlobal (g : Registry) (id : String) : Bool :=
  g.rules.any fun r => r.descriptor.isGlobal && r.descriptor.id == id

/-- The rule says of a node what the node and its parent tell it, and nothing else. -/
def Rule.IsLocal (r : Rule) : Prop :=
  ∀ entry ∈ r.handlers, ∃ say : Node → Option Node → List String,
    ∀ (c : Context) (f : Focus), entry.2 c f = say f.node (f.parent?.map Focus.node)

/-- The violation with its place moved to another file. -/
def Violation.inFile (file : String) (v : Violation) : Violation :=
  { v with location := { v.location with file } }

/-- A violation that is moved to another file is the one that would have been recorded there. -/
theorem Violation.inFile_ofNode (file file' rule : String) (n : Node) (m : String) :
    (Violation.ofNode file' rule n m).inFile file = Violation.ofNode file rule n m := by
  rw [Violation.ofNode, Violation.ofNode, Violation.inFile, Location.ofNode, Location.ofNode]
  cases n.span with
  | none => rfl
  | some s => rfl

-- ── Rules that leave the file alone ──────────────────────────────────────────

theorem Descriptor.ignores_eq_false_of_isGlobal {d : Descriptor} (h : d.isGlobal = true)
    (file : String) : d.ignores file = false := by
  rw [Descriptor.ignores, h]
  rfl

theorem Descriptor.ignores_eq_false {file : String} (h : Ignore.covers file = false)
    (d : Descriptor) : d.ignores file = false := by
  rw [Descriptor.ignores, h, Bool.and_false]

/-- A rule that ignores the file reports nothing. -/
theorem Rule.reportsOn_eq_nil {r : Rule} {job : Job}
    (h : r.descriptor.ignores job.fileName = true) (t : Tree) (id : Nat) :
    r.reportsOn job t id = [] := by
  rw [Rule.reportsOn]
  cases t.focus? id with
  | none => rfl
  | some f =>
      have hignored : (Instance.bound job r).context.ignored = true := h
      exact Instance.visit_of_ignored hignored f

/-- What is found in a file that is left alone is what the global rules find there. -/
theorem findings_of_covers {job : Job} (h : Ignore.covers job.fileName = true)
    (rules : List Rule) (t : Tree) :
    findings rules job t = findings (rules.filter fun r => r.descriptor.isGlobal) job t := by
  rw [findings, findings]
  refine congrArg (List.flatMap · t.walk) (funext fun id => ?_)
  induction rules with
  | nil => rfl
  | cons r rest ih =>
      rw [List.flatMap_cons, ih, List.filter_cons]
      by_cases hglobal : r.descriptor.isGlobal = true
      · rw [if_pos hglobal, List.flatMap_cons]
      · have hignores : r.descriptor.ignores job.fileName = true := by
          rw [Descriptor.ignores, h, Bool.eq_false_iff.mpr hglobal]
          rfl
        rw [if_neg hglobal, Rule.reportsOn_eq_nil hignores, List.nil_append]

-- ── Rules that do not ─────────────────────────────────────────────────────────

theorem Rule.IsLocal.handler?_eq {r : Rule} (hr : r.IsLocal) {t : NodeType} {handler : Handler}
    (h : r.handler? t = some handler) (c c' : Context) (f : Focus) :
    handler c f = handler c' f := by
  rw [Rule.handler?, Option.map_eq_some_iff] at h
  obtain ⟨entry, hentry, rfl⟩ := h
  obtain ⟨say, hsay⟩ := hr entry (List.mem_of_find?_eq_some hentry)
  rw [hsay, hsay]

/-- In two files that it does not ignore, a rule that looks at the node and its parent only
    reports the same, but for the name of the file. -/
theorem Rule.IsLocal.reportsOn_eq {r : Rule} (hr : r.IsLocal) {job job' : Job}
    (h : r.descriptor.ignores job.fileName = false)
    (h' : r.descriptor.ignores job'.fileName = false) (t : Tree) (id : Nat) :
    r.reportsOn job t id = (r.reportsOn job' t id).map (Violation.inFile job.fileName) := by
  rw [Rule.reportsOn, Rule.reportsOn]
  cases t.focus? id with
  | none => rfl
  | some f =>
      show ((Instance.bound job r).visit f).getD []
        = (((Instance.bound job' r).visit f).getD []).map _
      rw [Instance.visit_bound h, Instance.visit_bound h']
      cases hhandler : r.handler? f.node.nodeType with
      | none => rfl
      | some handler =>
          show List.map _ _ = List.map _ (List.map _ _)
          rw [List.map_map, hr.handler?_eq hhandler _ (Instance.bound job' r).context]
          refine List.map_congr_left fun m _ => ?_
          exact (Violation.inFile_ofNode _ _ _ _ _).symm

/-- Rules that look at nodes and their parents only find the same in any two files that
    they do not leave alone, but for the name of the file. -/
theorem findings_eq_inFile {rules : List Rule} {job job' : Job}
    (hlocal : ∀ r ∈ rules, r.IsLocal)
    (h : ∀ r ∈ rules, r.descriptor.ignores job.fileName = false)
    (h' : ∀ r ∈ rules, r.descriptor.ignores job'.fileName = false) (t : Tree) :
    findings rules job t = (findings rules job' t).map (Violation.inFile job.fileName) := by
  rw [findings, findings, List.map_flatMap]
  refine congrArg (List.flatMap · t.walk) (funext fun id => ?_)
  rw [List.map_flatMap]
  exact List.flatMap_congr fun r hr => (hlocal r hr).reportsOn_eq (h r hr) (h' r hr) t id

/-- Of registered rules, the global ones are those whose id is that of a global rule. -/
theorem Registry.Registrable.filter_isGlobal {rules : List Rule} (h : Registrable rules) :
    (rules.filter fun r => (Registry.mk rules).isGlobal r.descriptor.id)
      = rules.filter fun r => r.descriptor.isGlobal := by
  refine List.filter_congr fun r hr => ?_
  rw [Bool.eq_iff_iff, Registry.isGlobal, List.any_eq_true]
  constructor
  · rintro ⟨r', hr', hglobal⟩
    obtain ⟨hglobal, hid⟩ := Bool.and_eq_true_iff.mp hglobal
    rw [h.eq_of_id_eq hr hr' (eq_of_beq hid)] at hglobal
    exact hglobal
  · intro hglobal
    exact ⟨r, hr, Bool.and_eq_true_iff.mpr ⟨hglobal, beq_self_eq_true _⟩⟩

-- ── Handlers run on every file ───────────────────────────────────────────────

/-- As many handlers run on a node as there are rules that list its category. -/
theorem RuleSet.invoked_dispatch_bound (rules : List Rule) (job : Job) (f : Focus) :
    (RuleSet.dispatch ⟨rules.map (Instance.bound job)⟩ f).invoked
      = rules.countP fun r => (r.handler? f.node.nodeType).isSome := by
  show ((rules.map (Instance.bound job)).filterMap fun i => i.visit f).length = _
  rw [List.length_filterMap_eq_countP, List.countP_map]
  refine List.countP_congr fun r _ => ?_
  show (Option.isSome ((r.handler? f.node.nodeType).map _)) = true ↔ _
  rw [Option.isSome_map]

/-- **To ignore a file is to keep what global rules find.** Let the rules that are
    registered look at nodes and their parents only. What is found in a file that is to be
    left alone is then, in the same order, what is found in any other file under the ids of
    global rules, moved to the first. On every node the same number of handlers runs, either
    way. -/
theorem lintTree_eq_filter_isGlobal {rules : List Rule} {g : Registry}
    (h : Registry.build rules = .ok g) (hlocal : ∀ r ∈ rules, r.IsLocal) (ignored seen : Job)
    (hignored : Ignore.covers ignored.fileName = true)
    (hseen : Ignore.covers seen.fileName = false) (t : Tree) :
    (∃ kept all, lintTree g ignored t = .ok kept ∧ lintTree g seen t = .ok all ∧
      kept.violations = (all.violations.filter fun v => g.isGlobal v.rule).map
        (Violation.inFile ignored.fileName)) ∧
      ∃ s s', g.instantiate ignored = .ok s ∧ g.instantiate seen = .ok s' ∧
        ∀ f, (s.dispatch f).invoked = (s'.dispatch f).invoked := by
  have hset := Registry.instantiate_of_build h
  obtain ⟨hrules, rfl⟩ := Registry.build_eq_ok_iff.mp h
  refine ⟨⟨_, _, lintTree_eq_findings hrules _ t, lintTree_eq_findings hrules _ t, ?_⟩,
    _, _, hset ignored, hset seen, ?_⟩
  · show findings rules ignored t = ((findings rules seen t).filter _).map _
    -- either side is what the global rules find, in one file and in the other
    rw [filter_findings, hrules.filter_isGlobal, findings_of_covers hignored]
    refine findings_eq_inFile ?_ ?_ ?_ t
    · intro r hr
      exact hlocal r (List.mem_filter.mp hr).1
    · intro r hr
      exact Descriptor.ignores_eq_false_of_isGlobal (List.mem_filter.mp hr).2 _
    · intro r _
      exact Descriptor.ignores_eq_false hseen _
  · intro f
    rw [RuleSet.invoked_dispatch_bound, RuleSet.invoked_dispatch_bound]

/-- A rule that reports every contract by its name. -/
def Rule.onEveryContract (descriptor : Descriptor) : Rule where
  descriptor
  handlers := [(.contractDefinition, fun _ f => [f.node.nameD])]

/-- Such a rule for all files and another for those that are not ignored. -/
def Rule.everywhereAndElsewhere : List Rule :=
  [Rule.onEveryContract { id := "everywhere", isGlobal := true },
    Rule.onEveryContract { id := "elsewhere" }]

/-- Of two rules the global one is left in an ignored file. -/
theorem lintTree_eq_filter_isGlobal_token :
    ∃ g kept all, Registry.build Rule.everywhereAndElsewhere = .ok g ∧
      lintTree g { fileName := "test/a.sol" } .token = .ok kept ∧
      lintTree g { fileName := "a.sol" } .token = .ok all ∧
      all.violations.map Violation.rule = ["everywhere", "elsewhere"] ∧
      kept.violations = (all.violations.filter fun v => g.isGlobal v.rule).map
        (Violation.inFile "test/a.sol") := by
  have hbuild : Registry.build Rule.everywhereAndElsewhere
      = .ok ⟨Rule.everywhereAndElsewhere⟩ := rfl
  have hlocal : ∀ r ∈ Rule.everywhereAndElsewhere, r.IsLocal := by
    have hrule : ∀ d, (Rule.onEveryContract d).IsLocal := by
      intro d entry hentry
      rw [List.mem_singleton.mp hentry]
      exact ⟨fun n _ => [n.nameD], fun _ _ => rfl⟩
    intro r hr
    rcases List.mem_cons.mp hr with rfl | hr
    · exact hrule _
    · rw [List.mem_singleton.mp hr]
      exact hrule _
  obtain ⟨⟨kept, all, hkept, hall, heq⟩, -⟩ := lintTree_eq_filter_isGlobal hbuild hlocal
    { fileName := "test/a.sol" } { fileName := "a.sol" } (by decide +kernel) (by decide +kernel)
    .token
  have hrules : (lintTree ⟨Rule.everywhereAndElsewhere⟩ { fileName := "a.sol" }
      .token).toOption.map (fun r => r.violations.map Violation.rule)
        = some ["everywhere", "elsewhere"] := by
    decide +kernel
  rw [hall] at hrules
  exact ⟨_, kept, all, hbuild, hkept, hall, Option.some.inj hrules, heq⟩

end SolidityLint
