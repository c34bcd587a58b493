import SolidityLint.Check
import SolidityLint.CommandLine.Arguments
import SolidityLint.Report.Diagnostic

/-!
# Running the linter

What the program does with its arguments: what it prints, what it logs, and the status it
ends with. The status is 0 when nothing is wrong, 1 when a rule is broken or the run
fails, 2 when the arguments make no sense, and 101 when the program gives up on the spot.
-/

namespace SolidityLint.CommandLine

/-- How a run of the program ends. -/
structure Outcome where
  status : UInt32
  stdout : String := ""
  /-- What was logged, in order. -/
  log : List Event := []
  /-- What went wrong, if something is said about it. -/
  error : Option CheckError := none
  /-- What is shown next to the source. -/
  diagnostics : List Diagnostic := []

/-- Fills a text up with blanks to a width. -/
def padRight (width : Nat) (s : String) : String :=
  s ++ String.ofList (List.replicate (width - s.length) ' ')

/-- A line of the list of rules. -/
def ruleLine (name isGlobal description : String) : String :=
  padRight 22 name ++ " " ++ padRight 8 isGlobal ++ " " ++ description ++ "\n"

/-- The list of the rules of a registry. -/
def ruleList (g : Registry) : String :=
  "Available rules:\n\n" ++ ruleLine "Name" "Global" "Description"
    ++ String.ofList (List.replicate 80 '-') ++ "\n"
    ++ String.join (g.rules.map fun r =>
      ruleLine r.descriptor.id (if r.descriptor.isGlobal then "yes" else "no") r.description)
    ++ "\nFiles matching these patterns are skipped by non-global rules:\n"
    ++ String.join (Ignore.patterns.map fun p => "  " ++ p.text ++ "\n")

/-- What the program says about its version. -/
def versionText : String := "solstyle 0.1.0\n"

/-- The status that says that the arguments make no sense. -/
def usageStatus : UInt32 := 2

/-- How the program wants to be called. -/
def usageText : String :=
  "Usage: solstyle [-v] [-c FILE] check [-f FORMAT] AST_JSON...\n"
    ++ "       solstyle [-v] list-rules\n"

/-- Checks files and prints the report. -/
def runCheck (fs : FileSystem) (source : ConfigSource) (paths : List RawText) (format : Format) :
    Outcome :=
  let log := checkEvents fs source paths
  match check fs source paths with
  | .ok r => {
      status := if r.hasViolations then 1 else 0
      stdout := r.render format
      log
      diagnostics :=
        if format = .pretty then r.diagnostics fun file => (fs.read (.ofText file)).toOption
        else [] }
  | .error e =>
    if e.isAbort then { status := 101, log }
    else { status := 1, log, error := some e }

/-- Does what an invocation asks for. -/
def Invocation.run (fs : FileSystem) (i : Invocation) : Outcome :=
  let outcome : Outcome := match i.command with
    | .listRules =>
      { status := 0, stdout := ruleList Registry.builtin, log := Registry.builtin.events }
    | .check paths format =>
      runCheck fs (ConfigSource.resolve fs fs.workingDirectory i.config) paths format
  { outcome with log := outcome.log.filter (Event.isShown i.verbose) }

/-- Does what the arguments ask for. -/
def run (fs : FileSystem) (args : List RawText) : Outcome :=
  match parse args with
  | .ok i => i.run fs
  | .error .version => { status := 0, stdout := versionText }
  | .error .usage => { status := usageStatus }

end SolidityLint.CommandLine
