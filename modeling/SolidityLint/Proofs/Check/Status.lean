import SolidityLint.CommandLine.Run
import SolidityLint.Proofs.Lint.Inputs
import SolidityLint.Proofs.Report.Order
import SolidityLint.Proofs.Report.Printed

/-!
# How a run ends

A run prints its report only when it is complete. What can go wrong before that goes wrong
in a fixed order: first the configuration, then the files as they were given. So a run that
fails says so about the first of these (`ConfigSource.Complaint`, `FileSystem.Complaint`), prints
nothing, and takes no notice of the files behind it; and a run that does not fail prints the
sorted findings of all files (`Report.PrintedAs`). The status says whether there was anything to
find, and the format of the report has no part in it.
-/

namespace SolidityLint

-- ── Runs that fail ───────────────────────────────────────────────────────────

/-- What is said when there is no configuration: what was tried and then the causes; and what is
    the case when this is said. -/
inductive ConfigSource.Complaint (source : ConfigSource) (fs : FileSystem) (w : Wording) :
    List String → Prop where
  | unreadable {path : RawText} {e : ReadError} (hpath : source.path? = some path)
      (h : fs.read path = .error e) :
      Complaint source fs w ["Failed to load config: " ++ path.display,
        "Failed to read config file " ++ path.display ++ ": " ++ e.message, e.message]
  | malformed {path : RawText} {text : String} (hpath : source.path? = some path)
      (h : fs.read path = .ok text) (hno : Config.ofToml? text = none) :
      Complaint source fs w ["Failed to load config: " ++ path.display,
        "Failed to parse config: " ++ w.toml text]

/-- Why there is no configuration is told. -/
theorem ConfigSource.complaint_of_load {source : ConfigSource} {fs : FileSystem}
    {e : ConfigError} (h : source.load fs = .error e) (w : Wording) :
    source.Complaint fs w (e.chain w) := by
  rw [load] at h
  cases hpath : source.path? with
  | none =>
      rw [hpath] at h
      exact nomatch h
  | some path =>
      simp only [hpath] at h
      cases hread : fs.read path with
      | error e' =>
          simp only [hread] at h
          obtain rfl := Except.error.inj h
          exact .unreadable hpath hread
      | ok text =>
          simp only [hread] at h
          cases htoml : Config.ofToml? text with
          | some c =>
              rw [htoml] at h
              exact nomatch h
          | none =>
              rw [htoml] at h
              obtain rfl := Except.error.inj h
              exact .malformed hpath hread htoml

/-- Without a configuration no file is looked at. -/
theorem check_of_config_error {fs : FileSystem} {source : ConfigSource} {e : ConfigError}
    (h : source.load fs = .error e) (paths : List RawText) :
    check fs source paths = .error (.config e) := by
  rw [check, h]
  rfl

/-- With a configuration the files decide. -/
theorem check_of_config {fs : FileSystem} {source : ConfigSource} {config : Config}
    (h : source.load fs = .ok config) (paths : List RawText) :
    check fs source paths = checkFiles fs config paths := by
  rw [check, h]
  rfl

/-- The first file that cannot be linted decides how the run fails. -/
theorem checkFiles_of_lint_error {fs : FileSystem} {config : Config} {path : RawText}
    {e : LintError} (h : lintFile fs Registry.builtin config path = .error e)
    {before : List RawText}
    (hbefore : ∀ q ∈ before, ∃ r, lintFile fs Registry.builtin config q = .ok r)
    (after : List RawText) :
    checkFiles fs config (before ++ path :: after) = .error (.lint e) := by
  rw [checkFiles, Outcome.mapM_eq_error h hbefore]
  rfl

-- ── Runs that do not ─────────────────────────────────────────────────────────

/-- A run over files that can all be linted reports what was found in them, sorted. -/
theorem checkFiles_of_lint {fs : FileSystem} {config : Config} {paths : List RawText}
    {found : RawText → Report}
    (h : ∀ p ∈ paths, lintFile fs Registry.builtin config p = .ok (found p))
    (hsize : paths.length < UInt64.size) :
    ∃ r, checkFiles fs config paths = .ok r ∧ r.filesChecked.toNat = paths.length ∧
      Report.StablySorted (paths.flatMap fun p => (found p).violations) r.violations := by
  -- a report on one file is fixed by what was found in it, so `found` adds nothing to `foundIn`
  have hfound : ∀ p ∈ paths, found p = ⟨foundIn fs config p, 1⟩ := by
    intro p hp
    exact lintFile_eq_ok (h p hp)
  have hall : ∀ p ∈ paths,
      lintFile fs Registry.builtin config p = .ok ⟨foundIn fs config p, 1⟩ := by
    intro p hp
    rw [h p hp, hfound p hp]
  refine ⟨_, checkFiles_eq_ok_iff.mpr ⟨hall, hsize, rfl⟩, UInt64.toNat_ofNat_of_lt hsize, ?_⟩
  have hconcat : paths.flatMap (fun p => (found p).violations)
      = paths.flatMap (foundIn fs config) := by
    refine congrArg List.flatten (List.map_congr_left fun p hp => ?_)
    rw [hfound p hp]
  rw [hconcat]
  exact Report.stablySorted_sort ⟨_, _⟩

/-- A run has nothing to report exactly when every file can be linted and has nothing
    wrong with it. -/
theorem checkFiles_clean_iff {fs : FileSystem} {config : Config} {paths : List RawText}
    (hsize : paths.length < UInt64.size) :
    (∃ r, checkFiles fs config paths = .ok r ∧ r.violations = []) ↔
      ∀ p ∈ paths, ∃ r, lintFile fs Registry.builtin config p = .ok r ∧ r.violations = [] := by
  constructor
  · rintro ⟨r, hr, hclean⟩ p hp
    obtain ⟨hall, -, rfl⟩ := checkFiles_eq_ok_iff.mp hr
    have hnil : paths.flatMap (foundIn fs config) = [] :=
      List.nil_perm.mp (hclean ▸ Report.sort_perm ⟨_, _⟩)
    exact ⟨_, hall p hp, List.flatMap_eq_nil_iff.mp hnil p hp⟩
  · intro h
    have hall : ∀ p ∈ paths,
        lintFile fs Registry.builtin config p = .ok ⟨foundIn fs config p, 1⟩ ∧
          foundIn fs config p = [] := by
      intro p hp
      obtain ⟨r, hr, hclean⟩ := h p hp
      obtain rfl := lintFile_eq_ok hr
      exact ⟨hr, hclean⟩
    obtain ⟨r, hr, -, hsorted⟩ := checkFiles_of_lint (fun p hp => (hall p hp).1) hsize
    refine ⟨r, hr, ?_⟩
    have hnil : paths.flatMap (foundIn fs config) = [] :=
      List.flatMap_eq_nil_iff.mpr fun p hp => (hall p hp).2
    exact List.perm_nil.mp (hnil ▸ hsorted.perm)

-- ── What the program makes of it ─────────────────────────────────────────────

namespace CommandLine

/-- The program fails: it prints nothing and says what went wrong, unless it gave up on
    the spot. -/
structure Outcome.Fails (o : Outcome) (e : CheckError) : Prop where
  stdout : o.stdout = ""
  diagnostics : o.diagnostics = []
  error : o.error = if e.isAbort then none else some e
  status : o.status = if e.isAbort then 101 else 1

/-- The program prints a report, and its status says whether the report is empty. What is shown
    next to the source goes along with one of the formats. -/
structure Outcome.Prints (o : Outcome) (r : Report) (format : Format) : Prop where
  stdout : r.PrintedAs format o.stdout
  diagnostics : o.diagnostics.map (fun d => (d.message, d.label))
    = if format = .pretty then
        r.violations.map fun v => ("[" ++ v.rule ++ "] " ++ v.message, v.nodeType)
      else []
  error : o.error = none
  status : o.status = if r.violations = [] then 0 else 1

/-- A run that yields no report ends as a failure, in every format. -/
theorem runCheck_of_error {fs : FileSystem} {source : ConfigSource} {paths : List RawText}
    {e : CheckError} (h : check fs source paths = .error e) (format : Format) :
    (runCheck fs source paths format).Fails e := by
  rw [runCheck, h]
  by_cases habort : e.isAbort = true
  · refine ⟨?_, ?_, ?_, ?_⟩ <;> simp only [habort, if_true]
  · refine ⟨?_, ?_, ?_, ?_⟩ <;> simp only [habort, if_false, Bool.false_eq_true]

/-- A run that yields a report prints it. -/
theorem runCheck_of_ok {fs : FileSystem} {source : ConfigSource} {paths : List RawText}
    {r : Report} (h : check fs source paths = .ok r) (format : Format) :
    (runCheck fs source paths format).Prints r format := by
  rw [runCheck, h]
  refine ⟨r.printedAs_render format, ?_, rfl, ?_⟩
  · by_cases hpretty : format = .pretty
    · simp only [if_pos hpretty]
      exact r.map_diagnostics _
    · simp only [if_neg hpretty, List.map_nil]
  · show (if r.hasViolations then (1 : UInt32) else 0) = _
    rw [Report.hasViolations]
    cases r.violations with
    | nil => rfl
    | cons v vs => rfl

theorem Outcome.Fails.status_ne_zero {o : Outcome} {e : CheckError} (h : o.Fails e) :
    o.status ≠ 0 := by
  rw [h.status]
  by_cases habort : e.isAbort = true
  · rw [if_pos habort]
    decide
  · rw [if_neg habort]
    decide

/-- The program ends well exactly when there is a report and it is empty. -/
theorem status_runCheck_eq_zero_iff {fs : FileSystem} {source : ConfigSource}
    {paths : List RawText} {format : Format} :
    (runCheck fs source paths format).status = 0 ↔
      ∃ r, check fs source paths = .ok r ∧ r.violations = [] := by
  cases h : check fs source paths with
  | error e =>
      constructor
      · intro hzero
        exact absurd hzero (runCheck_of_error h format).status_ne_zero
      · rintro ⟨r, hr, -⟩
        exact nomatch hr
  | ok r =>
      rw [(runCheck_of_ok h format).status]
      constructor
      · intro hzero
        by_cases hclean : r.violations = []
        · exact ⟨r, rfl, hclean⟩
        · rw [if_neg hclean] at hzero
          exact absurd hzero (by decide)
      · rintro ⟨r', hr', hclean⟩
        obtain rfl := Except.ok.inj hr'
        rw [if_pos hclean]

/-- The format does not change the status. -/
theorem status_runCheck_format (fs : FileSystem) (source : ConfigSource) (paths : List RawText)
    (format format' : Format) :
    (runCheck fs source paths format).status = (runCheck fs source paths format').status := by
  cases h : check fs source paths with
  | error e => rw [(runCheck_of_error h format).status, (runCheck_of_error h format').status]
  | ok r => rw [(runCheck_of_ok h format).status, (runCheck_of_ok h format').status]

/-- What an invocation does, but for what it logs, is what its command does. -/
theorem Invocation.run_check {fs : FileSystem} {i : Invocation} {paths : List RawText}
    {format : Format} (h : i.command = .check paths format) :
    i.run fs =
      { runCheck fs (ConfigSource.resolve fs fs.workingDirectory i.config) paths format with
        log := (i.run fs).log } := by
  rw [Invocation.run, h]

/-- **A run is all or nothing, and its status is exact.** If there is no configuration the
    run fails for that reason, and if files cannot be linted it fails for the first of them,
    whatever stands behind it; then nothing is printed, and it is told what was tried and why it
    failed, unless a position overflows in that file. If neither is so (and the number of
    files is a 64-bit number, as that of arguments is) the sorted findings of all files are
    printed, and the status says whether there are any. So the status is 0 exactly if
    there is a configuration and every file can be linted and has nothing wrong with it, in
    every format; and it is the status with which an invocation of the program ends. -/
theorem runCheck_all_or_nothing (fs : FileSystem) (source : ConfigSource) (paths : List RawText) :
    (∀ e, source.load fs = .error e →
      check fs source paths = .error (.config e) ∧
        (∀ w, source.Complaint fs w (CheckError.chain w (.config e))) ∧
        ∀ format, (runCheck fs source paths format).Fails (.config e)) ∧
    (∀ config, source.load fs = .ok config →
      (∃ p ∈ paths, ∃ e, lintFile fs Registry.builtin config p = .error e) →
        ∃ before p after e, paths = before ++ p :: after ∧
          (∀ q ∈ before, ∃ r, lintFile fs Registry.builtin config q = .ok r) ∧
          lintFile fs Registry.builtin config p = .error e ∧
          (CheckError.isAbort (.lint e) = true ∧ fs.OverflowsAt p ∨
            CheckError.isAbort (.lint e) = false ∧
              ∀ w, fs.Complaint w p (CheckError.chain w (.lint e))) ∧
          check fs source paths = .error (.lint e) ∧
          ∀ format, (runCheck fs source paths format).Fails (.lint e)) ∧
    (paths.length < UInt64.size →
      (∀ config (found : RawText → Report), source.load fs = .ok config →
        (∀ p ∈ paths, lintFile fs Registry.builtin config p = .ok (found p)) →
          ∃ r, check fs source paths = .ok r ∧ r.filesChecked.toNat = paths.length ∧
            Report.StablySorted (paths.flatMap fun p => (found p).violations) r.violations ∧
            ∀ format, (runCheck fs source paths format).Prints r format) ∧
      ∀ format, (runCheck fs source paths format).status = 0 ↔
        ∃ config, source.load fs = .ok config ∧ ∀ p ∈ paths,
          ∃ r, lintFile fs Registry.builtin config p = .ok r ∧ r.violations = []) ∧
    (∀ format format',
      (runCheck fs source paths format).status = (runCheck fs source paths format').status) ∧
    ∀ (i : Invocation) format, i.command = .check paths format →
      ConfigSource.resolve fs fs.workingDirectory i.config = source →
        i.run fs = { runCheck fs source paths format with log := (i.run fs).log } := by
  refine ⟨?_, ?_, fun hsize => ⟨?_, ?_⟩, status_runCheck_format fs source paths, ?_⟩
  · intro e he
    have hcheck := check_of_config_error he paths
    exact ⟨hcheck, ConfigSource.complaint_of_load he, runCheck_of_error hcheck⟩
  · intro config hconfig hfails
    obtain ⟨before, p, after, e, rfl, hbefore, hp⟩ := Outcome.exists_first_error hfails
    have hcheck := (check_of_config hconfig _).trans (checkFiles_of_lint_error hp hbefore after)
    exact ⟨before, p, after, e, rfl, hbefore, hp, overflowsAt_or_complaint_of_lintFile hp, hcheck,
      runCheck_of_error hcheck⟩
  · intro config found hconfig hfound
    obtain ⟨r, hr, hcount, hsorted⟩ := checkFiles_of_lint hfound hsize
    have hcheck := (check_of_config hconfig paths).trans hr
    exact ⟨r, hcheck, hcount, hsorted, runCheck_of_ok hcheck⟩
  · intro format
    rw [status_runCheck_eq_zero_iff]
    cases hconfig : source.load fs with
    | error e =>
        rw [check_of_config_error hconfig]
        constructor
        · rintro ⟨r, hr, -⟩
          exact nomatch hr
        · rintro ⟨config, hconfig', -⟩
          exact nomatch hconfig'
    | ok config =>
        rw [check_of_config hconfig, checkFiles_clean_iff hsize]
        constructor
        · intro hclean
          exact ⟨config, rfl, hclean⟩
        · rintro ⟨config', hconfig', hclean⟩
          obtain rfl := Except.ok.inj hconfig'
          exact hclean
  · rintro i format hcommand rfl
    exact Invocation.run_check hcommand

/-- Without its configuration the run over an interface fails, so it does if a file is missing
    between two that are there, and else it prints what is wrong with the interface. -/
theorem runCheck_all_or_nothing_twoInterfaces :
    (∃ e, ∀ format, (runCheck .twoInterfaces (.explicit (.ofText "none.toml"))
      [.ofText "a.sol.json"] format).Fails (.config e)) ∧
    (∃ before p after e,
      [RawText.ofText "a.sol.json", .ofText "c.sol.json", .ofText "b.sol.json"]
        = before ++ p :: after ∧
      lintFile .twoInterfaces Registry.builtin {} p = .error e ∧
      ∀ format, (runCheck .twoInterfaces .default
        [.ofText "a.sol.json", .ofText "c.sol.json", .ofText "b.sol.json"] format).Fails
          (.lint e)) ∧
    ∃ r, check .twoInterfaces .default [.ofText "a.sol.json"] = .ok r ∧
      r.filesChecked.toNat = 1 ∧ r.violations.length = 1 ∧
      ∀ format,
        (runCheck .twoInterfaces .default [.ofText "a.sol.json"] format).Prints r format := by
  refine ⟨?_, ?_, ?_⟩
  · have hload : (ConfigSource.explicit (.ofText "none.toml")).load .twoInterfaces
        = .error (.unreadable (.ofText "none.toml") .notFound) := rfl
    exact ⟨_, ((runCheck_all_or_nothing _ (.explicit (.ofText "none.toml")) _).1 _ hload).2.2⟩
  · have hmissing : ∃ p ∈
        [RawText.ofText "a.sol.json", .ofText "c.sol.json", .ofText "b.sol.json"],
        ∃ e, lintFile .twoInterfaces Registry.builtin {} p = .error e :=
      ⟨.ofText "c.sol.json", by simp, .unreadableTree (.ofText "c.sol.json") .notFound, rfl⟩
    obtain ⟨before, p, after, e, hpaths, -, hp, -, -, hfails⟩ :=
      (runCheck_all_or_nothing .twoInterfaces .default _).2.1 {} rfl hmissing
    exact ⟨before, p, after, e, hpaths, hp, hfails⟩
  · have hlint : ∀ p ∈ [RawText.ofText "a.sol.json"],
        lintFile .twoInterfaces Registry.builtin {} p
          = .ok ⟨[⟨InterfaceNames.id, "ContractDefinition", ⟨"a.sol", 0, 0, 0, 0⟩,
              InterfaceNames.message⟩], 1⟩ := by
      intro p hp
      obtain rfl := List.mem_singleton.mp hp
      exact Outcome.eq_ok_of_toOption (by decide +kernel)
    obtain ⟨r, hr, hcount, hsorted, hprints⟩ := ((runCheck_all_or_nothing .twoInterfaces .default
      [.ofText "a.sol.json"]).2.2.1 (by decide)).1 {} (fun _ => _) rfl hlint
    exact ⟨r, hr, hcount, hsorted.perm.length_eq, hprints⟩

end CommandLine

end SolidityLint
