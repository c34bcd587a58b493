import SolidityLint.Path.Component
import SolidityLint.Report.Violation

/-!
# Reports

A report gathers the violations found in a number of files. Reports are merged, sorted
by place and counted by rule. Places are compared file by file in the order of paths,
then by line, then by column; violations at the same place keep their order.
-/

namespace SolidityLint

/-- What was found in a number of files. -/
structure Report where
  violations : List Violation := []
  /-- How many files were looked at. -/
  filesChecked : UInt64 := 0
  deriving DecidableEq, Repr

/-- Compares the places of two violations. -/
def Violation.comparePlace (v w : Violation) : Ordering :=
  (compare (Path.key v.location.file) (Path.key w.location.file)).then
    ((compare v.location.line.toNat w.location.line.toNat).then
      (compare v.location.column.toNat w.location.column.toNat))

/-- Whether a violation may stand before another. -/
def Violation.mayPrecede (v w : Violation) : Bool := (v.comparePlace w).isLE

namespace Report

/-- The report on no files. -/
def empty : Report := {}

/-- Whether anything was found. -/
def hasViolations (r : Report) : Bool := !r.violations.isEmpty

/-- Puts two reports together; the number of files has to fit in 64 bits. -/
def merge? (a b : Report) : Option Report :=
  if a.filesChecked.toNat + b.filesChecked.toNat < UInt64.size then
    some ⟨a.violations ++ b.violations, a.filesChecked + b.filesChecked⟩
  else none

/-- Puts reports together from left to right. -/
def mergeAll? (reports : List Report) : Option Report :=
  reports.foldlM merge? empty

/-- Brings the violations into the order of their places. -/
def sort (r : Report) : Report :=
  { r with violations := r.violations.mergeSort Violation.mayPrecede }

/-- Counts one more violation of a rule, in a list sorted by rule id. -/
def countOne (rule : String) : List (String × Nat) → List (String × Nat)
  | [] => [(rule, 1)]
  | (r, n) :: rest =>
    if rule = r then (r, n + 1) :: rest
    else if rule < r then (rule, 1) :: (r, n) :: rest
    else (r, n) :: countOne rule rest

/-- How often each rule was broken, sorted by rule id. -/
def countByRule (r : Report) : List (String × Nat) :=
  r.violations.foldl (fun counts v => countOne v.rule counts) []

/-- The report on one line. -/
def summary (r : Report) : String :=
  "Found " ++ toString r.violations.length ++ " violation(s) in "
    ++ Violation.decimal r.filesChecked ++ " file(s)"

end Report

end SolidityLint
