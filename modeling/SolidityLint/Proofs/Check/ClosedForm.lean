import SolidityLint.Check
import SolidityLint.Proofs.Lint.Traversal
import SolidityLint.Proofs.Report.Merge
import SolidityLint.Proofs.Rule.Builtin

/-!
# A run in closed form

A run over files succeeds exactly when every file can be linted and their number fits in
64 bits, and its report is then what was found in the files, one after the other, sorted
(`checkFiles_eq_ok_iff`). What is found in a file is located there, under the text that the path
of its source shows.
-/

namespace SolidityLint

-- ── What is found in a file is located there ─────────────────────────────────

/-- Whatever the rules, linting looks at one file and locates what it finds there. -/
theorem file_of_mem_lintTree {g : Registry} {job : Job} {t : Tree} {r : Report}
    (h : lintTree g job t = .ok r) :
    r.filesChecked = 1 ∧ ∀ v ∈ r.violations, v.location.file = job.fileName := by
  rw [lintTree_eq] at h
  obtain ⟨s, hs, rfl⟩ := Outcome.map_eq_ok_iff.mp h
  obtain ⟨-, rfl⟩ := Registry.instantiate_eq_ok_iff.mp hs
  refine ⟨rfl, fun v hv => ?_⟩
  obtain ⟨id, -, hv⟩ := List.mem_flatMap.mp hv
  rw [RuleSet.reportsOn] at hv
  cases hfocus : t.focus? id with
  | none =>
      rw [hfocus] at hv
      exact absurd hv List.not_mem_nil
  | some f =>
      rw [hfocus] at hv
      rw [RuleSet.location_of_mem_dispatch hv, Location.file_ofNode]

/-- What is found in a file is recorded under the text that the path of its source shows. -/
theorem file_of_mem_lintFile {fs : FileSystem} {g : Registry} {config : Config} {path : RawText}
    {r : Report} (h : lintFile fs g config path = .ok r) :
    r.filesChecked = 1 ∧ ∀ v ∈ r.violations, v.location.file = path.source.display := by
  obtain ⟨t, -, h⟩ := Outcome.bind_eq_ok_iff.mp h
  obtain ⟨source, -, h⟩ := Outcome.bind_eq_ok_iff.mp h
  exact file_of_mem_lintTree (Outcome.mapError_eq_ok_iff.mp h)

-- ── A run in closed form ─────────────────────────────────────────────────────

/-- What is found in the file a path leads to; nothing, if it cannot be linted. -/
def foundIn (fs : FileSystem) (config : Config) (path : RawText) : List Violation :=
  match lintFile fs Registry.builtin config path with
  | .ok r => r.violations
  | .error _ => []

/-- All that is found in a file is recorded under one name. -/
theorem file_of_mem_foundIn {fs : FileSystem} {config : Config} {path : RawText} {v : Violation}
    (hv : v ∈ foundIn fs config path) : v.location.file = path.source.display := by
  rw [foundIn] at hv
  cases h : lintFile fs Registry.builtin config path with
  | error e =>
      rw [h] at hv
      exact nomatch hv
  | ok r =>
      rw [h] at hv
      exact (file_of_mem_lintFile h).2 v hv

/-- A file that can be linted is reported as one file with what is found in it. -/
theorem lintFile_eq_ok {fs : FileSystem} {config : Config} {path : RawText} {r : Report}
    (h : lintFile fs Registry.builtin config path = .ok r) :
    r = ⟨foundIn fs config path, 1⟩ := by
  rw [foundIn, h, ← (file_of_mem_lintFile h).1]

theorem filesTotal_map_found (fs : FileSystem) (config : Config) (paths : List RawText) :
    Report.filesTotal (paths.map fun p => ⟨foundIn fs config p, 1⟩) = paths.length := by
  induction paths with
  | nil => rfl
  | cons p ps ih =>
      rw [List.map_cons, Report.filesTotal, ih, List.length_cons, Nat.add_comm]
      rfl

/-- **A run in closed form.** It succeeds when every file can be linted and their number
    fits in 64 bits, and it reports what was found in the files, sorted. -/
theorem checkFiles_eq_ok_iff {fs : FileSystem} {config : Config} {paths : List RawText}
    {r : Report} :
    checkFiles fs config paths = .ok r ↔
      (∀ p ∈ paths, lintFile fs Registry.builtin config p = .ok ⟨foundIn fs config p, 1⟩) ∧
        paths.length < UInt64.size ∧
        r = Report.sort ⟨paths.flatMap (foundIn fs config), UInt64.ofNat paths.length⟩ := by
  have hmerge := Report.mergeAll?_eq (paths.map fun p => ⟨foundIn fs config p, 1⟩)
  rw [filesTotal_map_found, List.flatMap_map] at hmerge
  rw [checkFiles, Outcome.bind_eq_ok_iff]
  constructor
  · rintro ⟨reports, hreports, h⟩
    obtain ⟨hall, rfl⟩ := (Outcome.mapM_eq_ok_iff lintFile_eq_ok).mp
      (Outcome.mapError_eq_ok_iff.mp hreports)
    rw [hmerge] at h
    by_cases hfits : paths.length < UInt64.size
    · rw [if_pos hfits] at h
      exact ⟨hall, hfits, (Except.ok.inj h).symm⟩
    · rw [if_neg hfits] at h
      exact nomatch h
  · rintro ⟨hall, hfits, rfl⟩
    refine ⟨_, Outcome.mapError_eq_ok_iff.mpr
      ((Outcome.mapM_eq_ok_iff lintFile_eq_ok).mpr ⟨hall, rfl⟩), ?_⟩
    rw [hmerge, if_pos hfits]
    rfl

/-- Two files that hold the same badly named interface. -/
def FileSystem.twoInterfaces : FileSystem where
  workingDirectory := .ofText "/"
  read path :=
    if path = .ofText "a.sol.json" ∨ path = .ofText "b.sol.json" then
      .ok "\x7b\"type\": \"ContractDefinition\", \"name\": \"Token\", \"kind\": \"interface\"\x7d"
    else .error .notFound
  isFile path := path = .ofText "a.sol.json" ∨ path = .ofText "b.sol.json"

end SolidityLint
