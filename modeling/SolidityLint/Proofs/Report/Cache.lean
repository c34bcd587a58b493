import SolidityLint.Report.Diagnostic

/-!
# Reading every file once

While diagnostics are made, the text of a file is kept under the path by which it was first
asked for, and found again under every path with the same components. What this comes to for a
single violation can be said without a cache: the text is the one that is read by the path of
the first violation in the same file.

The invariant is that the cache answers as the violations seen so far do (`Cache.Knows`). A step
keeps it whether the file is known or not, and so it carries a run in which reading has any effect
whatever (`ofViolations_eq`): the effects are those of reading the files in `unread`, in which
each file stands once (`countP_unread`). With no effect this gives the diagnostics, and with an
entry in a log the files that were read for them.
-/

namespace SolidityLint

theorem Path.same_iff {p q : String} : same p q = true ↔ components p = components q :=
  beq_iff_eq

theorem Path.same_refl (p : String) : same p p = true := same_iff.mpr rfl

theorem Path.same_congr {p q : String} (h : same p q = true) (r : String) :
    same r p = same r q := by
  show (components r == components p) = (components r == components q)
  rw [same_iff.mp h]

namespace Diagnostic

variable {read : String → Option String} {before : List Violation} {cache : Cache}
  {v : Violation} {file : String}

-- ── The first violation in a file ────────────────────────────────────────────

/-- The first of some violations that is in a file, by whatever path. -/
def firstIn? (violations : List Violation) (file : String) : Option Violation :=
  violations.find? fun w => Path.same w.location.file file

theorem same_of_firstIn? {violations : List Violation} {w : Violation}
    (h : firstIn? violations file = some w) : Path.same w.location.file file = true :=
  (List.find?_eq_some_iff_append.mp h).1

/-- The first violation does not depend on how the path is spelled. -/
theorem firstIn?_congr {p q : String} (h : Path.same p q = true) (violations : List Violation) :
    firstIn? violations p = firstIn? violations q := by
  refine congrArg (List.find? · violations) (funext fun w => ?_)
  exact Path.same_congr h w.location.file

theorem firstIn?_append (before after : List Violation) (file : String) :
    firstIn? (before ++ after) file = (firstIn? before file).or (firstIn? after file) :=
  List.find?_append

theorem firstIn?_cons_of_same (h : Path.same v.location.file file = true)
    (rest : List Violation) : firstIn? (v :: rest) file = some v :=
  List.find?_cons_of_pos h

theorem firstIn?_cons_of_not_same (h : ¬ Path.same v.location.file file = true)
    (rest : List Violation) : firstIn? (v :: rest) file = firstIn? rest file :=
  List.find?_cons_of_neg h

/-- One more violation in the file is its first one if there was none before. -/
theorem firstIn?_concat_of_same (h : Path.same v.location.file file = true) :
    firstIn? (before ++ [v]) file = (firstIn? before v.location.file).or (some v) := by
  rw [firstIn?_append, firstIn?_cons_of_same h, firstIn?_congr h]

theorem firstIn?_concat_of_not_same (h : ¬ Path.same v.location.file file = true) :
    firstIn? (before ++ [v]) file = firstIn? before file := by
  rw [firstIn?_append, firstIn?_cons_of_not_same h]
  exact Option.or_none

-- ── What the cache knows ─────────────────────────────────────────────────────

/-- The cache knows the files of some violations, each with the text that is read by the path of
    the first violation in it, and no other file. -/
def Cache.Knows (cache : Cache) (read : String → Option String) (before : List Violation) : Prop :=
  ∀ file, cache.find? file = (firstIn? before file).map fun w => read w.location.file

/-- A cache that holds nothing knows what has been read before any violation. -/
theorem Cache.knows_nil (read : String → Option String) : Cache.Knows [] read [] :=
  fun _ => rfl

/-- A file that is known stays known as it is. -/
theorem Cache.Knows.hit (h : cache.Knows read before) {w : Violation}
    (hw : firstIn? before v.location.file = some w) : cache.Knows read (before ++ [v]) := by
  intro file
  by_cases hsame : Path.same v.location.file file = true
  · rw [h file, firstIn?_concat_of_same hsame, ← firstIn?_congr hsame, hw, Option.some_or]
  · rw [h file, firstIn?_concat_of_not_same hsame]

/-- A file that is not known is known once it is read, and nothing else changes. -/
theorem Cache.Knows.miss (h : cache.Knows read before)
    (hnone : firstIn? before v.location.file = none) :
    Cache.Knows ((v.location.file, read v.location.file) :: cache) read (before ++ [v]) := by
  intro file
  by_cases hsame : Path.same v.location.file file = true
  · rw [firstIn?_concat_of_same hsame, hnone, Option.none_or]
    simp [Cache.find?, hsame]
  · have hrest : Cache.find? ((v.location.file, read v.location.file) :: cache) file
        = cache.find? file := by
      simp [Cache.find?, hsame]
    rw [hrest, h file, firstIn?_concat_of_not_same hsame]

-- ── The files that are read ──────────────────────────────────────────────────

/-- The files that are read for violations when those of earlier ones are known. -/
def unread (before : List Violation) : List Violation → List String
  | [] => []
  | v :: rest =>
    match firstIn? before v.location.file with
    | some _ => unread (before ++ [v]) rest
    | none => v.location.file :: unread (before ++ [v]) rest

/-- A violation in a file with an earlier one needs no reading. -/
theorem unread_cons_of_some {w : Violation} (h : firstIn? before v.location.file = some w)
    (rest : List Violation) : unread before (v :: rest) = unread (before ++ [v]) rest := by
  rw [unread, h]

/-- The first violation of a file needs its text read, under its own spelling of the path. -/
theorem unread_cons_of_none (h : firstIn? before v.location.file = none)
    (rest : List Violation) :
    unread before (v :: rest) = v.location.file :: unread (before ++ [v]) rest := by
  rw [unread, h]

/-- **A file is read once or not at all**: once if there is a violation in it and there was none
    before. -/
theorem countP_unread (file : String) (violations : List Violation) :
    ∀ before, (unread before violations).countP (Path.same · file)
      = if (firstIn? before file).isNone ∧ (firstIn? violations file).isSome then 1 else 0 := by
  induction violations with
  | nil =>
      intro before
      simp [unread, firstIn?]
  | cons v rest ih =>
      intro before
      have hstep := ih (before ++ [v])
      by_cases hsame : Path.same v.location.file file = true
      · -- the file is known behind `v`, so all depends on whether it was known before
        rw [firstIn?_concat_of_same hsame] at hstep
        rw [firstIn?_cons_of_same hsame, ← firstIn?_congr hsame]
        cases hfirst : firstIn? before v.location.file with
        | some w =>
            rw [unread_cons_of_some hfirst, hstep, hfirst]
            rfl
        | none =>
            rw [unread_cons_of_none hfirst, List.countP_cons, if_pos hsame, hstep, hfirst]
            rfl
      · rw [firstIn?_concat_of_not_same hsame] at hstep
        rw [firstIn?_cons_of_not_same hsame, ← hstep]
        cases hfirst : firstIn? before v.location.file with
        | some w => rw [unread_cons_of_some hfirst]
        | none => rw [unread_cons_of_none hfirst, List.countP_cons, if_neg hsame, Nat.add_zero]

/-- A file is read by the path of the first violation in it. -/
theorem firstIn?_of_mem_unread (violations : List Violation) :
    ∀ before, ∀ file ∈ unread before violations,
      ∃ w, firstIn? (before ++ violations) file = some w ∧ w.location.file = file := by
  induction violations with
  | nil =>
      intro before file h
      exact nomatch h
  | cons v rest ih =>
      intro before file h
      rw [List.append_cons]
      cases hfirst : firstIn? before v.location.file with
      | some w =>
          rw [unread_cons_of_some hfirst] at h
          exact ih _ file h
      | none =>
          rw [unread_cons_of_none hfirst] at h
          obtain rfl | h := List.mem_cons.mp h
          · refine ⟨v, ?_, rfl⟩
            rw [← List.append_cons, firstIn?_append, hfirst, Option.none_or]
            exact firstIn?_cons_of_same (Path.same_refl _) rest
          · exact ih _ file h

-- ── A run ────────────────────────────────────────────────────────────────────

/-- The text that is shown with a violation: that of the first violation in the same file. -/
def sourceFor (read : String → Option String) (violations : List Violation) (v : Violation) :
    Option String :=
  (firstIn? violations v.location.file).bind fun w => read w.location.file

/-- Reads a file and has an effect by it. -/
def readWith {m : Type → Type} [Monad m] (touch : String → m Unit)
    (read : String → Option String) (file : String) : m (Option String) := do
  touch file
  return read file

/-- **A run reads the unread files and nothing else**, whatever effect reading has, and makes of
    every violation what the first one in the same file gives it. -/
theorem ofViolations_eq {m : Type → Type} [Monad m] [LawfulMonad m] (touch : String → m Unit)
    (violations : List Violation) : ∀ {before : List Violation} {cache : Cache},
      cache.Knows read before →
        ofViolations (readWith touch read) cache violations
          = forM (unread before violations) touch >>= fun _ => pure (violations.map fun v =>
              ofViolation v (sourceFor read (before ++ violations) v)) := by
  induction violations with
  | nil =>
      intro before cache _
      simp [ofViolations, unread]
  | cons v rest ih =>
      intro before cache h
      rw [ofViolations, h v.location.file, List.map_cons]
      cases hfirst : firstIn? before v.location.file with
      | some w =>
          have hsource : sourceFor read (before ++ v :: rest) v = read w.location.file := by
            rw [sourceFor, firstIn?_append, hfirst, Option.some_or, Option.bind_some]
          rw [unread_cons_of_some hfirst, hsource, List.append_cons]
          simp [ih (h.hit hfirst)]
      | none =>
          -- `v` is the first in its file, so the file is read by this very path
          have hself : firstIn? (v :: rest) v.location.file = some v :=
            firstIn?_cons_of_same (Path.same_refl _) rest
          have hsource : sourceFor read (before ++ v :: rest) v = read v.location.file := by
            rw [sourceFor, firstIn?_append, hfirst, Option.none_or, hself, Option.bind_some]
          rw [unread_cons_of_none hfirst, hsource, List.append_cons]
          simp [readWith, ih (h.miss hfirst)]

/-- Reads a file and writes down by which path. -/
def readLogged (read : String → Option String) :
    String → StateM (List String) (Option String) :=
  readWith (fun file => modify (· ++ [file])) read

theorem run_forM_log (files : List String) : ∀ log : List String,
    (forM files fun file => modify (· ++ [file]) : StateM (List String) PUnit).run log
      = ((), log ++ files) := by
  induction files with
  | nil =>
      intro log
      rw [List.append_nil]
      rfl
  | cons file rest ih =>
      intro log
      rw [List.append_cons, ← ih]
      simp

end Diagnostic

namespace Report

open Diagnostic

variable (r : Report) (read : String → Option String)

-- ── The diagnostics of a report ──────────────────────────────────────────────

/-- Without an effect of reading, a run is a map over the violations. -/
theorem diagnostics_eq_map :
    r.diagnostics read
      = r.violations.map fun v => ofViolation v (sourceFor read r.violations v) :=
  ofViolations_eq (m := Id) (fun _ => pure ()) r.violations (Cache.knows_nil read)

/-- A log changes nothing about the diagnostics and ends up with the files that are read. -/
theorem run_ofViolations_logged :
    (ofViolations (readLogged read) [] r.violations).run []
      = (r.diagnostics read, unread [] r.violations) := by
  rw [readLogged, ofViolations_eq _ r.violations (Cache.knows_nil read), diagnostics_eq_map,
    StateT.run_bind, run_forM_log]
  rfl

/-- There is a first violation in the file of any. -/
theorem exists_firstIn? {r : Report} {v : Violation} (hv : v ∈ r.violations) :
    ∃ w, firstIn? r.violations v.location.file = some w := by
  refine Option.isSome_iff_exists.mp (List.find?_isSome.mpr ?_)
  exact ⟨v, hv, Path.same_refl _⟩

/-- **Diagnostics are made as if every file was read by its first path.** There is one diagnostic
    for every violation, in their order, made with the text that is read by the path of the first
    violation in the same file. If it is written down what is read, then the diagnostics are the
    same, the file of each violation stands in the log exactly once, and all that stands there are
    paths of first violations. If reading does not tell apart paths with the same components, then
    the diagnostics are those of reading the file of every violation anew. -/
theorem diagnostics_read_once :
    (r.diagnostics read).length = r.violations.length ∧
      (∀ (k : Nat) (v : Violation), r.violations[k]? = some v →
        ∃ w, firstIn? r.violations v.location.file = some w ∧
          (r.diagnostics read)[k]? = some (ofViolation v (read w.location.file))) ∧
      (∃ files, (ofViolations (readLogged read) [] r.violations).run []
            = (r.diagnostics read, files) ∧
          (∀ v ∈ r.violations, files.countP (Path.same · v.location.file) = 1) ∧
          ∀ file ∈ files, ∃ w, firstIn? r.violations file = some w ∧ w.location.file = file) ∧
      ((∀ p q, Path.same p q = true → read p = read q) →
        r.diagnostics read
          = r.violations.map fun v => ofViolation v (read v.location.file)) := by
  refine ⟨?length, ?each, ⟨unread [] r.violations, run_ofViolations_logged r read, ?once, ?first⟩,
    ?anew⟩
  case length => rw [diagnostics_eq_map, List.length_map]
  case each =>
    intro k v hk
    obtain ⟨w, hw⟩ := exists_firstIn? (List.mem_of_getElem? hk)
    refine ⟨w, hw, ?_⟩
    rw [diagnostics_eq_map, List.getElem?_map, hk, Option.map_some, sourceFor, hw,
      Option.bind_some]
  case once =>
    intro v hv
    obtain ⟨w, hw⟩ := exists_firstIn? hv
    rw [countP_unread, hw]
    rfl
  case first => exact firstIn?_of_mem_unread r.violations []
  case anew =>
    intro hread
    rw [diagnostics_eq_map]
    refine List.map_congr_left fun v hv => ?_
    obtain ⟨w, hw⟩ := exists_firstIn? hv
    rw [sourceFor, hw, Option.bind_some, hread _ _ (same_of_firstIn? hw)]

/-- A report in which a file comes by two paths, with another file in between. -/
def twicePathed : Report :=
  ⟨["a//b.sol", "c.sol", "a/b.sol"].map fun file =>
    ⟨"rule", "node", ⟨file, 1, 1, 0, 3⟩, "message"⟩, 1⟩

/-- The file shows the same text under both paths, and the other file none. -/
theorem diagnostics_read_once_twicePathed :
    let read file := if Path.same "a/b.sol" file then some "int x;" else none
    (twicePathed.diagnostics read).map Diagnostic.excerpt? = [some "int", none, some "int"] ∧
      twicePathed.diagnostics read
        = twicePathed.violations.map fun v => ofViolation v (read v.location.file) := by
  intro read
  have hanew := (diagnostics_read_once twicePathed read).2.2.2 fun p q hsame => by
    show (if Path.same "a/b.sol" p then _ else _) = if Path.same "a/b.sol" q then _ else _
    rw [Path.same_congr hsame]
  refine ⟨?_, hanew⟩
  decide +kernel

end Report

end SolidityLint
