import SolidityLint.Log

/-!
# Checking files

A run checks a number of stored syntax trees with the built-in rules. It yields one
report on all of them, or fails with the first thing that goes wrong: the configuration,
then the files in the order in which they are given.
-/

namespace SolidityLint

/-- Why a run fails. -/
inductive CheckError where
  | config (e : ConfigError)
  | lint (e : LintError)
  /-- The number of files does not fit in 64 bits. -/
  | tooManyFiles
  deriving DecidableEq, Repr

namespace CheckError

/-- What is said about a run that fails. -/
def chain (w : Wording) : CheckError → List String
  | config e => e.chain w
  | lint e => e.chain w
  | tooManyFiles => []

/-- Whether the failure ends the program on the spot. -/
def isAbort : CheckError → Bool
  | config _ => false
  | lint e => e.isAbort
  | tooManyFiles => true

end CheckError

/-- The report on files, given their configuration. -/
def checkFiles (fs : FileSystem) (config : Config) (paths : List RawText) :
    Except CheckError Report := do
  let reports ← (paths.mapM (lintFile fs Registry.builtin config)).mapError .lint
  match Report.mergeAll? reports with
  | some r => return r.sort
  | none => throw .tooManyFiles

/-- The report on files. -/
def check (fs : FileSystem) (source : ConfigSource) (paths : List RawText) :
    Except CheckError Report := do
  let config ← (source.load fs).mapError .config
  checkFiles fs config paths

/-- What is said while files are linted, up to the first that fails. -/
def filesEvents (fs : FileSystem) (config : Config) : List RawText → List Event
  | [] => []
  | path :: rest =>
    let events := lintEvents fs Registry.builtin path
    match lintFile fs Registry.builtin config path with
    | .ok _ => events ++ filesEvents fs config rest
    | .error _ => events

/-- What is said during a run. -/
def checkEvents (fs : FileSystem) (source : ConfigSource) (paths : List RawText) : List Event :=
  let found := match source with
    | .project path => [.projectConfig path.display]
    | _ => []
  let used := (source.path?.map fun path => Event.config path.display).toList
  match source.load fs with
  | .error _ => found
  | .ok config =>
    found ++ used ++ Registry.builtin.events
      ++ [.runStarted paths.length Registry.builtin.size]
      ++ filesEvents fs config paths

end SolidityLint
