import SolidityLint.Proofs.Report.Cache
import SolidityLint.Proofs.Report.Count
import SolidityLint.Proofs.Report.RoundTrip
import SolidityLint.Report.Render

/-!
# What is printed

What standard output holds is said here line by line, by what the report holds and not by how
the lines are put together (`Report.PrintedAs`). For people there is a paragraph for each
violation, in the order of the report, then the totals in red or in green and how often each rule
was broken. For programs there is a text from which the report is read back. The compact format
has one line for each violation, and of a report that is shown with excerpts standard output
holds the totals only.
-/

namespace SolidityLint

-- ── Lines ────────────────────────────────────────────────────────────────────

/-- The text made of lines, with a line feed behind each. -/
def inLines (lines : List String) : String := String.join (lines.map (· ++ "\n"))

/-- Lines, character by character: each is ended by a line feed. -/
theorem toList_inLines (lines : List String) :
    (inLines lines).toList = lines.flatMap fun line => line.toList ++ ['\n'] := by
  simp [inLines, String.toList_join, List.flatMap_map]

theorem inLines_singleton (line : String) : inLines [line] = line ++ "\n" := by
  refine String.toList_inj.mp ?_
  simp [toList_inLines]

theorem inLines_append (before after : List String) :
    inLines (before ++ after) = inLines before ++ inLines after := by
  refine String.toList_inj.mp ?_
  simp [toList_inLines]

/-- Texts that are made of lines, put together, are made of all their lines. -/
theorem inLines_flatMap {α : Type} (xs : List α) (lines : α → List String) :
    inLines (xs.flatMap lines) = String.join (xs.map fun x => inLines (lines x)) := by
  refine String.toList_inj.mp ?_
  simp [toList_inLines, String.toList_join, List.flatMap_map, List.flatMap_assoc]

-- ── What the formats show ────────────────────────────────────────────────────

/-- The place of a violation as it is printed. -/
def Violation.place (v : Violation) : String :=
  v.location.file ++ ":" ++ toString v.location.line.toNat ++ ":"
    ++ toString v.location.column.toNat

namespace Report

/-- The totals of a report as they are printed. -/
def totals (r : Report) : String :=
  "Found " ++ toString r.violations.length ++ " violation(s) in "
    ++ toString r.filesChecked.toNat ++ " file(s)"

/-- A text shows a report in a format. -/
inductive PrintedAs (r : Report) : Format → String → Prop where
  | text {counts : List (String × Nat)}
      (hcounts : Tallies (r.violations.map Violation.rule) counts) :
      PrintedAs r .text (inLines (
        (r.violations.flatMap fun v =>
          [v.rule ++ " at " ++ v.place, "  \x1b[31merror\x1b[0m: " ++ v.message, ""])
        ++ [(if r.violations = [] then "\x1b[32m" else "\x1b[31m") ++ r.totals ++ "\x1b[0m"]
        ++ counts.map fun c => "  " ++ c.1 ++ ": " ++ toString c.2))
  | json {text : String} (h : Report.ofJson? text = some r) :
      PrintedAs r .json (inLines [text])
  | compact :
      PrintedAs r .compact (inLines (r.violations.map fun v =>
        v.place ++ ": [" ++ v.rule ++ "] " ++ v.message))
  | pretty : PrintedAs r .pretty (inLines [r.totals])

theorem summary_eq_totals (r : Report) : r.summary = r.totals := rfl

/-- A violation takes a line for its place, one for what is wrong and an empty one. -/
theorem paragraph_eq (v : Violation) :
    paragraph v
      = inLines [v.rule ++ " at " ++ v.place, "  \x1b[31merror\x1b[0m: " ++ v.message, ""] := by
  -- the pieces are bracketed in another way here, so the characters are compared
  refine String.toList_inj.mp ?_
  simp [paragraph, toList_inLines, Violation.place, Violation.decimal, red]

/-- The totals are in red if anything was found and in green if not. -/
theorem coloured_summary (r : Report) :
    (if r.hasViolations then red r.summary else green r.summary)
      = (if r.violations = [] then "\x1b[32m" else "\x1b[31m") ++ r.totals ++ "\x1b[0m" := by
  rw [summary_eq_totals, hasViolations]
  cases r.violations with
  | nil => rfl
  | cons v vs => rfl

/-- The report for people, line by line. -/
theorem renderText_eq (r : Report) :
    r.renderText
      = inLines ((r.violations.flatMap fun v =>
            [v.rule ++ " at " ++ v.place, "  \x1b[31merror\x1b[0m: " ++ v.message, ""])
          ++ [(if r.violations = [] then "\x1b[32m" else "\x1b[31m") ++ r.totals ++ "\x1b[0m"]
          ++ r.countByRule.map fun c => "  " ++ c.1 ++ ": " ++ toString c.2) := by
  have hparagraphs : String.join (r.violations.map paragraph)
      = inLines (r.violations.flatMap fun v =>
          [v.rule ++ " at " ++ v.place, "  \x1b[31merror\x1b[0m: " ++ v.message, ""]) := by
    rw [inLines_flatMap]
    exact congrArg String.join (List.map_congr_left fun v _ => paragraph_eq v)
  have hcounts : inLines (r.countByRule.map fun c => "  " ++ c.1 ++ ": " ++ toString c.2)
      = String.join (r.countByRule.map fun c =>
          "  " ++ c.1 ++ ": " ++ toString c.2 ++ "\n") := by
    rw [inLines, List.map_map]
    rfl
  rw [renderText, coloured_summary, hparagraphs, inLines_append, inLines_append,
    inLines_singleton, hcounts]
  simp only [String.append_assoc]

/-- The compact report, line by line. -/
theorem renderCompact_eq (r : Report) :
    r.renderCompact
      = inLines (r.violations.map fun v => v.place ++ ": [" ++ v.rule ++ "] " ++ v.message) := by
  rw [renderCompact, inLines, List.map_map]
  rfl

/-- **Every format shows the report.** -/
theorem printedAs_render (r : Report) (format : Format) :
    r.PrintedAs format (r.render format) := by
  cases format with
  | text =>
      rw [render, renderText_eq]
      exact .text r.tallies_countByRule
  | json =>
      rw [render, ← inLines_singleton]
      exact .json r.ofJson?_pretty_toValue
  | compact =>
      rw [render, renderCompact_eq]
      exact .compact
  | pretty =>
      rw [render, summary_eq_totals, ← inLines_singleton]
      exact .pretty

-- ── What is shown next to the source ─────────────────────────────────────────

/-- A diagnostic names the rule and what is wrong, and marks the node by its type, with or without
    a text at hand. -/
theorem message_ofViolation (v : Violation) (source : Option String) :
    (Diagnostic.ofViolation v source).message = "[" ++ v.rule ++ "] " ++ v.message ∧
      (Diagnostic.ofViolation v source).label = v.nodeType := by
  rw [Diagnostic.ofViolation]
  split
  · exact ⟨rfl, rfl⟩
  · exact ⟨rfl, rfl⟩

/-- Whatever can be read, there is a diagnostic for each violation, which tells the rule, the
    message and the type of the node. -/
theorem map_diagnostics (r : Report) (read : String → Option String) :
    (r.diagnostics read).map (fun d => (d.message, d.label))
      = r.violations.map fun v => ("[" ++ v.rule ++ "] " ++ v.message, v.nodeType) := by
  rw [diagnostics_eq_map, List.map_map]
  refine List.map_congr_left fun v _ => ?_
  obtain ⟨hmessage, hlabel⟩ :=
    message_ofViolation v (Diagnostic.sourceFor read r.violations v)
  exact Prod.ext hmessage hlabel

end Report

end SolidityLint
