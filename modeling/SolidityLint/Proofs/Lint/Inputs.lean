import Mathlib.Data.List.Basic
import SolidityLint.Proofs.Check.ClosedForm
import SolidityLint.Proofs.Path.Encoded
import SolidityLint.Proofs.Tree.Objects

/-!
# What linting a file depends on

Two files are read to lint one: the syntax tree, which has to be there and to hold a value that
can be imported, and the source, which may be missing but not be unreadable. Going through the
ways in which this can fail leaves one for each path (`FileSystem.treeFailure_or_holds`), so it
is settled which failure is reported when there are several.

The source is handed to every rule, and no rule looks at it: the handlers of the built-in rules
say the same in every context (`Rule.IsBlind`). So with the value at hand and the name of the
file, which every violation carries, the report is fixed (`Json.Value.report`).
-/

namespace SolidityLint

open Json (Value)

-- ── Rules that do not look around ────────────────────────────────────────────

/-- The rule says the same of a node whatever it is told about the file. -/
def Rule.IsBlind (r : Rule) : Prop :=
  ∀ entry ∈ r.handlers, ∀ (c c' : Context) (f : Focus), entry.2 c f = entry.2 c' f

theorem InterfaceNames.isBlind_rule : InterfaceNames.rule.IsBlind := by
  intro entry hentry c c' f
  obtain rfl := List.mem_singleton.mp hentry
  rfl

theorem LeadingUnderscore.isBlind_rule : LeadingUnderscore.rule.IsBlind := by
  intro entry hentry c c' f
  rcases List.mem_cons.mp hentry with rfl | hentry
  · rfl
  · obtain rfl := List.mem_singleton.mp hentry
    rfl

theorem Rule.isBlind_of_mem_builtin {r : Rule} (hr : r ∈ Rule.builtin) : r.IsBlind := by
  rcases List.mem_cons.mp hr with rfl | hr
  · exact InterfaceNames.isBlind_rule
  · obtain rfl := List.mem_singleton.mp hr
    exact LeadingUnderscore.isBlind_rule

/-- What a rule that does not look around records depends on the name of the file only. -/
theorem Rule.IsBlind.visit_eq {r : Rule} (hr : r.IsBlind) (job : Job) (f : Focus) :
    (Instance.bound job r).visit f
      = (Instance.bound { fileName := job.fileName } r).visit f := by
  show (r.handler? f.node.nodeType).map _ = (r.handler? f.node.nodeType).map _
  cases hhandler : r.handler? f.node.nodeType with
  | none => rfl
  | some handler =>
      rw [Rule.handler?, Option.map_eq_some_iff] at hhandler
      obtain ⟨entry, hentry, rfl⟩ := hhandler
      have hsay := hr entry (List.mem_of_find?_eq_some hentry)
      show some (List.flatMap _ (entry.2 (Instance.bound job r).context f)) = _
      rw [hsay _ (Instance.bound { fileName := job.fileName } r).context f]
      rfl

/-- The built-in rules see nothing of the source and of the configuration. -/
theorem RuleSet.dispatch_builtin_eq (job : Job) (f : Focus) :
    (RuleSet.builtin job).dispatch f
      = (RuleSet.builtin { fileName := job.fileName }).dispatch f := by
  have hvisits : (Rule.builtin.map (Instance.bound job)).filterMap (fun i => i.visit f)
      = (Rule.builtin.map (Instance.bound { fileName := job.fileName })).filterMap
        fun i => i.visit f := by
    rw [List.filterMap_map, List.filterMap_map]
    refine List.filterMap_congr fun r hr => ?_
    exact (Rule.isBlind_of_mem_builtin hr).visit_eq job f
  simp only [RuleSet.dispatch, RuleSet.builtin, hvisits]

/-- **Linting a tree depends on the tree and the name of the file.** -/
theorem lintTree_builtin_eq (job : Job) (t : Tree) :
    lintTree Registry.builtin job t
      = .ok ⟨(RuleSet.builtin { fileName := job.fileName }).walk t, 1⟩ := by
  have hwalk : (RuleSet.builtin job).walk t
      = (RuleSet.builtin { fileName := job.fileName }).walk t := by
    rw [RuleSet.walk, RuleSet.walk]
    refine congrArg (List.flatMap · t.walk) (funext fun id => ?_)
    rw [RuleSet.reportsOn, RuleSet.reportsOn]
    cases t.focus? id with
    | none => rfl
    | some f =>
        exact congrArg Dispatch.violations (RuleSet.dispatch_builtin_eq job f)
  rw [lintTree_eq, Registry.instantiate_builtin, ← hwalk]
  rfl

-- ── Values that can be imported ──────────────────────────────────────────────

/-- A value describes a syntax tree: it is an object with a text member `type`, and the position
    of none of its typed objects leaves 64 bits. -/
def Json.Value.IsTree (v : Value) : Prop := v.IsTyped ∧ ∀ ms ∈ typedObjects v, ¬ Overflows ms

theorem Tree.ofValue_of_isTree {v : Value} (h : v.IsTree) : ∃ t, Tree.ofValue v = .ok t := by
  have hdecided := Tree.decided_ofValue h.1
  generalize Tree.ofValue v = x at hdecided
  cases hdecided with
  | overflow hms hover => exact absurd hover (h.2 _ hms)
  | success _ t => exact ⟨t, rfl⟩

/-- A typed object that overflows makes the import of the whole value fail. -/
theorem Tree.ofValue_of_overflows {v : Value} (h : v.IsTyped) {ms : List (String × Value)}
    (hms : ms ∈ typedObjects v) (hover : Overflows ms) :
    Tree.ofValue v = .error .positionOverflow := by
  have hdecided := Tree.decided_ofValue h
  generalize Tree.ofValue v = x at hdecided
  cases hdecided with
  | overflow => rfl
  | success hnone => exact absurd hover (hnone ms hms)

/-- The report on a value, given no more than the name of the file. -/
def Json.Value.report (v : Value) (file : String) : Report :=
  match Tree.ofValue v with
  | .ok t => ⟨(RuleSet.builtin { fileName := file }).walk t, 1⟩
  | .error _ => Report.empty

-- ── Reading the syntax tree ──────────────────────────────────────────────────

namespace FileSystem

variable {fs : FileSystem} {path : RawText} {v : Value} {e : LintError}

/-- A path leads to a text, and the text is the JSON of a value. -/
def Holds (fs : FileSystem) (path : RawText) (v : Value) : Prop :=
  ∃ text, fs.read path = .ok text ∧ Json.parse .strict text = .ok v

theorem Holds.unique {v' : Value} (h : fs.Holds path v) (h' : fs.Holds path v') : v = v' := by
  obtain ⟨text, htext, hparse⟩ := h
  obtain ⟨text', htext', hparse'⟩ := h'
  obtain rfl := Except.ok.inj (htext.symm.trans htext')
  exact Except.ok.inj (hparse.symm.trans hparse')

/-- The ways in which a path leads to no syntax tree, in the order in which they are met. -/
inductive TreeFailure (fs : FileSystem) (path : RawText) : LintError → Prop where
  | unreadable {e : ReadError} (h : fs.read path = .error e) :
      TreeFailure fs path (.unreadableTree path e)
  | notJson {text : String} {e : Json.SyntaxError} (h : fs.read path = .ok text)
      (hparse : Json.parse .strict text = .error e) :
      TreeFailure fs path (.badTree path (.notJson text e))
  | notANode {v : Value} (h : fs.Holds path v) (htyped : ¬ v.IsTyped) :
      TreeFailure fs path (.badTree path .notANode)
  | overflow {v : Value} (h : fs.Holds path v) (htyped : v.IsTyped)
      {ms : List (String × Value)} (hms : ms ∈ typedObjects v) (hover : Overflows ms) :
      TreeFailure fs path (.badTree path .positionOverflow)

theorem Holds.readTree_eq (h : fs.Holds path v) :
    fs.readTree path = (Tree.ofValue v).mapError (.badTree path) := by
  obtain ⟨text, htext, hparse⟩ := h
  simp only [readTree, htext, Tree.ofJson, hparse]

/-- **Each way in which a file holds no tree is reported as the failure it is.** -/
theorem TreeFailure.readTree_eq (h : fs.TreeFailure path e) : fs.readTree path = .error e := by
  cases h with
  | unreadable h => rw [readTree, h]
  | notJson h hparse =>
      simp only [readTree, h, Tree.ofJson, hparse]
      rfl
  | notANode h htyped =>
      rw [h.readTree_eq, Tree.ofValue_of_not_isTyped htyped]
      rfl
  | overflow h htyped hms hover =>
      rw [h.readTree_eq, Tree.ofValue_of_overflows htyped hms hover]
      rfl

/-- Nothing else can go wrong with a syntax tree. -/
theorem treeFailure_or_holds (fs : FileSystem) (path : RawText) :
    (∃ e, fs.TreeFailure path e) ∨ ∃ v, fs.Holds path v ∧ v.IsTree := by
  cases hread : fs.read path with
  | error e => exact .inl ⟨_, .unreadable hread⟩
  | ok text =>
      cases hparse : Json.parse .strict text with
      | error e => exact .inl ⟨_, .notJson hread hparse⟩
      | ok v =>
          have hholds : fs.Holds path v := ⟨text, hread, hparse⟩
          by_cases htyped : v.IsTyped
          · by_cases hover : ∃ ms ∈ typedObjects v, Overflows ms
            · obtain ⟨ms, hms, hover⟩ := hover
              exact .inl ⟨_, .overflow hholds htyped hms hover⟩
            · refine .inr ⟨v, hholds, htyped, ?_⟩
              intro ms hms hms'
              exact hover ⟨ms, hms, hms'⟩
          · exact .inl ⟨_, .notANode hholds htyped⟩

/-- What is said first about a path that leads to no syntax tree. If a position overflows the
    program ends before anything is said. -/
theorem TreeFailure.head?_chain (h : fs.TreeFailure path e) :
    (∀ w, (e.chain w).head? = some ("Failed to import " ++ path.display)) ∧
      (e.isAbort = true ↔ e = .badTree path .positionOverflow) := by
  refine ⟨fun w => ?_, ?_⟩
  · cases h with
    | unreadable | notJson | notANode | overflow => rfl
  · cases h with
    | unreadable | notJson | notANode => simp [LintError.isAbort]
    | overflow => exact iff_of_true rfl rfl

-- ── Reading the source ───────────────────────────────────────────────────────

/-- A source can be had: the path leads to a text, or there is nothing it leads to. -/
def OffersSource (fs : FileSystem) (path : RawText) : Prop :=
  (∃ text, fs.read path = .ok text) ∨ fs.read path = .error .notFound

/-- The way in which linting can fail although there is a syntax tree. -/
inductive SourceFailure (fs : FileSystem) (path : RawText) : LintError → Prop where
  | unreadable {v : Value} {e : ReadError} (h : fs.Holds path v) (htree : v.IsTree)
      (hsource : fs.read path.source = .error e) (hne : e ≠ .notFound) :
      SourceFailure fs path (.unreadableSource path.source e)

/-- A source that cannot be read is named in the first line of the error, and is no reason to
    abort. -/
theorem SourceFailure.head?_chain (h : fs.SourceFailure path e) :
    e.isAbort = false ∧
      ∀ w, (e.chain w).head? = some ("Failed to read source " ++ path.source.display) := by
  cases h with
  | unreadable => exact ⟨rfl, fun _ => rfl⟩

theorem OffersSource.readSource_eq (h : fs.OffersSource path) :
    ∃ source, fs.readSource path = .ok source := by
  rcases h with ⟨text, h⟩ | h
  · exact ⟨text, by rw [readSource, h]⟩
  · exact ⟨"", by rw [readSource, h]⟩

/-- A source that is there and cannot be read is a failure. One that is not there is none. -/
theorem readSource_of_error {e : ReadError} (h : fs.read path = .error e) (hne : e ≠ .notFound) :
    fs.readSource path = .error (.unreadableSource path e) := by
  rw [readSource, h]
  cases e with
  | notFound => exact absurd rfl hne
  | notADirectory | isADirectory | notUtf8 | nameTooLong | nullInPath | refused => rfl

/-- Either a source is offered or reading it fails. -/
theorem offersSource_or_error (fs : FileSystem) (path : RawText) :
    fs.OffersSource path ∨ ∃ e, fs.read path = .error e ∧ e ≠ .notFound := by
  cases h : fs.read path with
  | ok text => exact .inl (.inl ⟨text, h⟩)
  | error e =>
      by_cases he : e = .notFound
      · exact .inl (.inr (he ▸ h))
      · exact .inr ⟨e, rfl, he⟩

-- ── What is said about it ────────────────────────────────────────────────────

/-- What is said about a path whose file cannot be linted: what was tried and then the causes,
    down to the words of the system or of the parser; and what is the case when this is said. -/
inductive Complaint (fs : FileSystem) (w : Wording) (path : RawText) : List String → Prop where
  | unreadable {e : ReadError} (h : fs.read path = .error e) :
      Complaint fs w path ["Failed to import " ++ path.display,
        "Failed to read " ++ path.display ++ ": " ++ e.message, e.message]
  | notJson {text : String} (h : fs.read path = .ok text) (hno : ¬ ∃ v, fs.Holds path v) :
      Complaint fs w path ["Failed to import " ++ path.display,
        "Invalid JSON: " ++ w.json text, w.json text]
  | notANode {v : Value} (h : fs.Holds path v) (htyped : ¬ v.IsTyped) :
      Complaint fs w path ["Failed to import " ++ path.display,
        "Top-level JSON value has no string `type` field"]
  | source {v : Value} {e : ReadError} (h : fs.Holds path v) (htree : v.IsTree)
      (hsource : fs.read path.source = .error e) (hne : e ≠ .notFound) :
      Complaint fs w path ["Failed to read source " ++ path.source.display, e.message]

/-- A position of the value that a path leads to leaves 64 bits. -/
def OverflowsAt (fs : FileSystem) (path : RawText) : Prop :=
  ∃ v, fs.Holds path v ∧ v.IsTyped ∧ ∃ ms ∈ typedObjects v, Overflows ms

/-- What is wrong with a syntax tree ends the program on the spot if a position overflows, and
    else it is told. -/
theorem TreeFailure.overflowsAt_or_complaint (h : fs.TreeFailure path e) :
    (e.isAbort = true ∧ fs.OverflowsAt path) ∨
      (e.isAbort = false ∧ ∀ w, fs.Complaint w path (e.chain w)) := by
  cases h with
  | unreadable h => exact .inr ⟨rfl, fun _ => .unreadable h⟩
  | notJson h hparse =>
      refine .inr ⟨rfl, fun _ => .notJson h ?_⟩
      rintro ⟨v, text, htext, hv⟩
      obtain rfl := Except.ok.inj (h.symm.trans htext)
      exact nomatch hparse.symm.trans hv
  | notANode h htyped => exact .inr ⟨rfl, fun _ => .notANode h htyped⟩
  | overflow h htyped hms hover => exact .inl ⟨rfl, _, h, htyped, _, hms, hover⟩

/-- What is wrong with a source is told. -/
theorem SourceFailure.complaint (h : fs.SourceFailure path e) :
    e.isAbort = false ∧ ∀ w, fs.Complaint w path (e.chain w) := by
  cases h with
  | unreadable h htree hsource hne => exact ⟨rfl, fun _ => .source h htree hsource hne⟩

end FileSystem

-- ── Linting the file ─────────────────────────────────────────────────────────

section LintFile

variable {fs : FileSystem} {path : RawText} {v : Value} {e : LintError}

/-- What is wrong with the tree is reported before the source is looked at. -/
theorem lintFile_of_treeFailure (h : fs.TreeFailure path e) (g : Registry) (config : Config) :
    lintFile fs g config path = .error e := by
  rw [lintFile, h.readTree_eq]
  rfl

/-- What is wrong with the source is reported if nothing is wrong with the tree. -/
theorem lintFile_of_sourceFailure (h : fs.SourceFailure path e) (g : Registry) (config : Config) :
    lintFile fs g config path = .error e := by
  cases h with
  | unreadable h htree hsource hne =>
      obtain ⟨t, ht⟩ := Tree.ofValue_of_isTree htree
      rw [lintFile, h.readTree_eq, ht]
      show (fs.readSource path.source >>= _) = _
      rw [FileSystem.readSource_of_error hsource hne]
      rfl

/-- **With both files at hand, the value and the name of the file fix the report.** -/
theorem lintFile_of_holds (h : fs.Holds path v) (htree : v.IsTree)
    (hsource : fs.OffersSource path.source) (config : Config) :
    lintFile fs Registry.builtin config path = .ok (v.report path.source.display) := by
  obtain ⟨t, ht⟩ := Tree.ofValue_of_isTree htree
  obtain ⟨source, hsource⟩ := hsource.readSource_eq
  rw [lintFile, h.readTree_eq, ht]
  show (fs.readSource path.source >>= _) = _
  rw [hsource]
  show (lintTree Registry.builtin { fileName := path.source.display, source, config } t).mapError
    (.setup path.source.display) = _
  -- here the source and the configuration drop out
  rw [lintTree_builtin_eq, Json.Value.report, ht]
  rfl

/-- One of three things is the case for every path. -/
theorem lintFile_cases (fs : FileSystem) (path : RawText) :
    (∃ e, fs.TreeFailure path e) ∨ (∃ e, fs.SourceFailure path e) ∨
      ∃ v, fs.Holds path v ∧ v.IsTree ∧ fs.OffersSource path.source := by
  rcases fs.treeFailure_or_holds path with htree | ⟨v, h, htree⟩
  · exact .inl htree
  · rcases fs.offersSource_or_error path.source with hsource | ⟨e, hsource, hne⟩
    · exact .inr (.inr ⟨v, h, htree, hsource⟩)
    · exact .inr (.inl ⟨_, .unreadable h htree hsource hne⟩)

/-- A file that has been linted holds a tree and offers its source. -/
theorem holds_of_lintFile {config : Config} {r : Report}
    (hr : lintFile fs Registry.builtin config path = .ok r) :
    ∃ v, fs.Holds path v ∧ v.IsTree ∧ fs.OffersSource path.source := by
  rcases lintFile_cases fs path with ⟨e, he⟩ | ⟨e, he⟩ | h
  · exact nomatch (lintFile_of_treeFailure he _ config).symm.trans hr
  · exact nomatch (lintFile_of_sourceFailure he _ config).symm.trans hr
  · exact h

/-- A file that has not been linted has something wrong with its tree or with its source. The
    built-in rules themselves give no failure. -/
theorem failure_of_lintFile {config : Config}
    (he : lintFile fs Registry.builtin config path = .error e) :
    fs.TreeFailure path e ∨ fs.SourceFailure path e := by
  rcases lintFile_cases fs path with ⟨e', he'⟩ | ⟨e', he'⟩ | ⟨v, h, htree, hsource⟩
  · have heq := (lintFile_of_treeFailure he' Registry.builtin config).symm.trans he
    exact .inl (Except.error.inj heq ▸ he')
  · have heq := (lintFile_of_sourceFailure he' Registry.builtin config).symm.trans he
    exact .inr (Except.error.inj heq ▸ he')
  · exact nomatch (lintFile_of_holds h htree hsource config).symm.trans he

/-- A failure ends the program on the spot if a position overflows, and else it is told. -/
theorem overflowsAt_or_complaint_of_lintFile {config : Config}
    (he : lintFile fs Registry.builtin config path = .error e) :
    (e.isAbort = true ∧ fs.OverflowsAt path) ∨
      (e.isAbort = false ∧ ∀ w, fs.Complaint w path (e.chain w)) := by
  rcases failure_of_lintFile he with h | h
  · exact h.overflowsAt_or_complaint
  · exact .inr h.complaint

end LintFile

/-- **When a file can be linted, and what the report depends on.** With any configuration,
    linting succeeds exactly if the path leads to the JSON of a value that describes a syntax tree
    and the source can be had. If it fails, then for the first reason that there is: what is wrong
    with the syntax tree, told as a failure to import the path (where a position that overflows
    ends the program, and nothing else does), and else what is wrong with the source. If it
    succeeds, the report is fixed by the value and the text that the path of the source shows,
    which is the file of every violation; so if this path is another than that of the syntax tree,
    the report is the same whatever the source holds and if there is none. A path that is a text
    is shown as it is, and so is its source. -/
theorem lintFile_outcome (fs : FileSystem) (config : Config) (path : RawText) :
    ((∃ r, lintFile fs Registry.builtin config path = .ok r) ↔
      ∃ v, fs.Holds path v ∧ v.IsTree ∧ fs.OffersSource path.source) ∧
    (∀ e, lintFile fs Registry.builtin config path = .error e ↔
      fs.TreeFailure path e ∨ fs.SourceFailure path e) ∧
    (∀ e, fs.TreeFailure path e →
      (∀ w, (e.chain w).head? = some ("Failed to import " ++ path.display)) ∧
        (e.isAbort = true ↔ e = .badTree path .positionOverflow)) ∧
    (∀ e, fs.SourceFailure path e → e.isAbort = false ∧
      ∀ w, (e.chain w).head? = some ("Failed to read source " ++ path.source.display)) ∧
    (∀ r, lintFile fs Registry.builtin config path = .ok r →
      (∀ w ∈ r.violations, w.location.file = path.source.display) ∧
      (∀ v, fs.Holds path v → r = v.report path.source.display) ∧
      ∀ (fs' : FileSystem) (config' : Config), path.source ≠ path →
        (∀ p, p ≠ path.source → fs'.read p = fs.read p) →
        fs'.OffersSource path.source →
          lintFile fs' Registry.builtin config' path = .ok r) ∧
    ∀ text, path = .ofText text →
      path.display = text ∧ path.source = .ofText (Path.sourceOf text) ∧
        path.source.display = Path.sourceOf text := by
  refine ⟨⟨?_, ?_⟩, fun e => ⟨failure_of_lintFile, ?_⟩, ?_, ?_, ?_, ?_⟩
  · rintro ⟨r, hr⟩
    exact holds_of_lintFile hr
  · rintro ⟨v, h, htree, hsource⟩
    exact ⟨_, lintFile_of_holds h htree hsource config⟩
  · rintro (he | he)
    · exact lintFile_of_treeFailure he _ config
    · exact lintFile_of_sourceFailure he _ config
  · intro e he
    exact he.head?_chain
  · intro e he
    exact he.head?_chain
  · intro r hr
    obtain ⟨v, h, htree, hsource⟩ := holds_of_lintFile hr
    have hreport := Except.ok.inj (hr.symm.trans (lintFile_of_holds h htree hsource config))
    refine ⟨(file_of_mem_lintFile hr).2, ?_, ?_⟩
    · intro v' h'
      rw [hreport, h.unique h']
    · intro fs' config' hne hsame hsource'
      have h' : fs'.Holds path v := by
        obtain ⟨text, htext, hparse⟩ := h
        exact ⟨text, (hsame path hne.symm).trans htext, hparse⟩
      rw [lintFile_of_holds h' htree hsource', hreport]
  · rintro text rfl
    exact ⟨RawText.display_ofText text, RawText.source_ofText text,
      RawText.display_source_ofText text⟩

/-- A badly named interface with something next to it in the place of its source. -/
def FileSystem.besideInterface (source : Except ReadError String) : FileSystem where
  workingDirectory := .ofText "/"
  read path := if path = .ofText "a.sol" then source else FileSystem.twoInterfaces.read path
  isFile path := path = .ofText "a.sol" ∨ FileSystem.twoInterfaces.isFile path

/-- The interface is reported without its source as it is with it, and not at all if there is a
    directory in its place. -/
theorem lintFile_outcome_besideInterface :
    (∃ r, r.violations ≠ [] ∧
      lintFile (.besideInterface (.error .notFound)) Registry.builtin {} (.ofText "a.sol.json")
        = .ok r ∧
      ∀ text, lintFile (.besideInterface (.ok text)) Registry.builtin {} (.ofText "a.sol.json")
        = .ok r) ∧
    ∃ e, lintFile (.besideInterface (.error .isADirectory)) Registry.builtin {}
        (.ofText "a.sol.json") = .error e ∧
      ∀ w, (e.chain w).head? = some "Failed to read source a.sol" := by
  have hsource : (RawText.ofText "a.sol.json").source = .ofText "a.sol" := by decide +kernel
  have hfound : ((lintFile (.besideInterface (.error .notFound)) Registry.builtin {}
      (.ofText "a.sol.json")).toOption.map fun r => r.violations.isEmpty) = some false := by
    decide +kernel
  obtain ⟨r, hr, hviolations⟩ := Option.map_eq_some_iff.mp hfound
  have hok := Outcome.eq_ok_of_toOption hr
  obtain ⟨hsuccess, -, -, -, hreport, -⟩ :=
    lintFile_outcome (.besideInterface (.error .notFound)) {} (.ofText "a.sol.json")
  refine ⟨⟨r, ?_, hok, ?_⟩, ?_⟩
  · intro hnil
    rw [hnil] at hviolations
    exact Bool.noConfusion hviolations
  · intro text
    refine (hreport r hok).2.2 (.besideInterface (.ok text)) {} ?_ ?_ ?_
    · rw [hsource]
      decide +kernel
    · intro p hp
      rw [hsource] at hp
      simp [FileSystem.besideInterface, hp]
    · rw [hsource]
      exact .inl ⟨text, by simp [FileSystem.besideInterface]⟩
  · obtain ⟨v, ⟨text, htext, hparse⟩, htree, -⟩ := hsuccess.mp ⟨r, hok⟩
    have hfails : (FileSystem.besideInterface (.error .isADirectory)).SourceFailure
        (.ofText "a.sol.json")
        (.unreadableSource (RawText.ofText "a.sol.json").source .isADirectory) := by
      refine .unreadable ⟨text, htext, hparse⟩ htree ?_ (by decide)
      rw [hsource]
      simp [FileSystem.besideInterface]
    obtain ⟨-, hfailure, -, hchain, -, -⟩ :=
      lintFile_outcome (.besideInterface (.error .isADirectory)) {} (.ofText "a.sol.json")
    refine ⟨_, (hfailure _).mpr (.inr hfails), fun w => ?_⟩
    rw [(hchain _ hfails).2, hsource, RawText.display_ofText]
    rfl

end SolidityLint
