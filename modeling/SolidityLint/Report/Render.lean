import SolidityLint.Report.Json

/-!
# Printed reports

The formats in which a report is written to standard output.
-/

namespace SolidityLint

/-- A format of a printed report. -/
inductive Format where
  /-- For people, in colour. -/
  | text
  /-- For programs. -/
  | json
  /-- One line for each violation. -/
  | compact
  /-- With excerpts of the source, which go to standard error. -/
  | pretty
  deriving DecidableEq, Repr

namespace Format

/-- The name by which a format is asked for. -/
def name : Format → String
  | text => "text"
  | json => "json"
  | compact => "compact"
  | pretty => "pretty"

/-- The format asked for by a name. -/
def ofName? (s : String) : Option Format :=
  [text, json, compact, pretty].find? fun f => f.name == s

end Format

namespace Report

/-- Shows a text in red. -/
def red (s : String) : String := "\x1b[31m" ++ s ++ "\x1b[0m"

/-- Shows a text in green. -/
def green (s : String) : String := "\x1b[32m" ++ s ++ "\x1b[0m"

/-- A violation for people. -/
def paragraph (v : Violation) : String :=
  v.rule ++ " at " ++ v.location.file ++ ":" ++ Violation.decimal v.location.line ++ ":"
    ++ Violation.decimal v.location.column ++ "\n  " ++ red "error" ++ ": " ++ v.message ++ "\n\n"

/-- The report for people: the violations, the summary and the counts. -/
def renderText (r : Report) : String :=
  String.join (r.violations.map paragraph)
    ++ (if r.hasViolations then red r.summary else green r.summary) ++ "\n"
    ++ String.join (r.countByRule.map fun (rule, n) => "  " ++ rule ++ ": " ++ toString n ++ "\n")

/-- The report for programs. -/
def renderJson (r : Report) : String := r.toValue.pretty

/-- The violations, one on each line. -/
def renderCompact (r : Report) : String :=
  String.join (r.violations.map fun v => v.line ++ "\n")

/-- What a report looks like on standard output. -/
def render (r : Report) : Format → String
  | .text => r.renderText
  | .json => r.renderJson ++ "\n"
  | .compact => r.renderCompact
  | .pretty => r.summary ++ "\n"

end Report

end SolidityLint
