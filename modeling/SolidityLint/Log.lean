import SolidityLint.Config.Source
import SolidityLint.Lint

/-!
# The log of a run

What a run says about itself while it works. Most of it is said only when asked for.

Messages are made to be read on a terminal. A character that the terminal would obey
instead of showing it is shown by its number.
-/

namespace SolidityLint

/-- How much an event matters. -/
inductive Level where
  | debug
  | info
  deriving DecidableEq, Repr

/-- How a level is written. -/
def Level.name : Level → String
  | debug => "DEBUG"
  | info => "INFO"

/-- Something worth a line in the log. -/
inductive Event where
  | projectConfig (path : String)
  | config (path : String)
  | ruleRegistered (id : String)
  | registryBuilt (rules : Nat)
  | runStarted (files rules : Nat)
  | sourceMissing (treePath : String)
  | fileStarted (file : String) (nodes : Nat)
  | ruleSetUp (id file : String) (ignored : Bool)
  deriving DecidableEq, Repr

namespace Event

/-- How much an event matters. -/
def level : Event → Level
  | runStarted .. => .info
  | _ => .debug

/-- The message of an event. -/
def message : Event → String
  | projectConfig path => "Using project config: " ++ path
  | config path => "Using config: " ++ path
  | ruleRegistered id => "Registered rule: " ++ id
  | registryBuilt rules => "Built-in registry holds " ++ toString rules ++ " rules"
  | runStarted files rules =>
    "Checking " ++ toString files ++ " file(s) with " ++ toString rules ++ " rules"
  | sourceMissing path => "No source next to " ++ path
  | fileStarted file nodes => "Checking " ++ file ++ " (" ++ toString nodes ++ " nodes)"
  | ruleSetUp .. => "Constructed rule instance"

/-- The details that stand behind the message of an event. -/
def details : Event → String
  | ruleSetUp id file ignored =>
    " rule=" ++ Text.quote id ++ " file=" ++ Text.quote file
      ++ " ignored=" ++ (if ignored then "true" else "false")
  | _ => ""

/-- What an event writes to the log. -/
def line (e : Event) : String :=
  e.level.name ++ " " ++ Text.disarm e.message ++ e.details

/-- Whether an event is logged at all. -/
def isShown (verbose : Bool) (e : Event) : Bool := verbose || e.level = .info

end Event

/-- What is said while the built-in rules are registered. -/
def Registry.events (g : Registry) : List Event :=
  (g.rules.map fun r => .ruleRegistered r.descriptor.id) ++ [.registryBuilt g.size]

/-- What is said while the rules are set up for a file. -/
def Registry.setupEvents (g : Registry) (file : String) : List Event :=
  (g.rules.takeWhile fun r => r.descriptor.isNamed).map fun r =>
    .ruleSetUp r.descriptor.id file (r.descriptor.ignores file)

/-- What is said while a file is linted. -/
def lintEvents (fs : FileSystem) (g : Registry) (path : RawText) : List Event :=
  match fs.readTree path with
  | .error _ => []
  | .ok tree =>
    let file := path.source.display
    let started := .fileStarted file tree.size :: g.setupEvents file
    match fs.read path.source with
    | .ok _ => started
    | .error .notFound => .sourceMissing path.display :: started
    | .error _ => []

end SolidityLint
