import SolidityLint.Json.Reader
import SolidityLint.Json.Writer
import SolidityLint.Report.Basic

/-!
# Reports as JSON

A report is written as an object, and read from an object or from an array that lists
the same things in the same order. An object may have further members, which are passed
over, but no member may be given twice.
-/

namespace SolidityLint

open Json (Value)

namespace Json.Value

/-- The only value given to a key. -/
def only? (key : String) (members : List (String × Value)) : Option Value :=
  match members.filter fun m => m.1 = key with
  | [(_, v)] => some v
  | _ => none

/-- The values of a record with these keys. -/
def record? (keys : List String) : Value → Option (List Value)
  | object members => keys.mapM fun key => only? key members
  | array items => if items.length = keys.length then some items else none
  | _ => none

end Json.Value

namespace Location

/-- The names of what makes up a place. -/
def keys : List String := ["file", "line", "column", "offset", "length"]

/-- The place as a JSON value. -/
def toValue (l : Location) : Value :=
  .object (keys.zip [.text l.file, .natural l.line, .natural l.column, .natural l.offset,
    .natural l.length])

/-- The place a JSON value describes. -/
def ofValue? (v : Value) : Option Location := do
  match ← v.record? keys with
  | [file, line, column, offset, length] =>
    return ⟨← file.text?, ← line.natural?, ← column.natural?, ← offset.natural?,
      ← length.natural?⟩
  | _ => none

end Location

namespace Violation

/-- The names of what makes up a violation. -/
def keys : List String := ["rule", "node_type", "location", "message"]

/-- The violation as a JSON value. -/
def toValue (v : Violation) : Value :=
  .object (keys.zip [.text v.rule, .text v.nodeType, v.location.toValue, .text v.message])

/-- The violation a JSON value describes. -/
def ofValue? (v : Value) : Option Violation := do
  match ← v.record? keys with
  | [rule, nodeType, location, message] =>
    return ⟨← rule.text?, ← nodeType.text?, ← Location.ofValue? location, ← message.text?⟩
  | _ => none

end Violation

namespace Report

/-- The names of what makes up a report. -/
def keys : List String := ["violations", "files_checked"]

/-- The report as a JSON value. -/
def toValue (r : Report) : Value :=
  .object (keys.zip [.array (r.violations.map Violation.toValue), .natural r.filesChecked])

/-- The report a JSON value describes. -/
def ofValue? (v : Value) : Option Report := do
  match ← v.record? keys with
  | [violations, filesChecked] =>
    return ⟨← (← violations.items?).mapM Violation.ofValue?, ← filesChecked.natural?⟩
  | _ => none

/-- The report a text describes. -/
def ofJson? (text : String) : Option Report :=
  match Json.parse .tolerant text with
  | .ok v => ofValue? v
  | .error _ => none

end Report

end SolidityLint
