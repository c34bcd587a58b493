import SolidityLint.FileSystem
import SolidityLint.Path.Source
import SolidityLint.Report.Basic
import SolidityLint.Rule.Builtin
import SolidityLint.Rule.Instance
import SolidityLint.Tree.Import

/-!
# Linting a file

A stored syntax tree is read, the source next to it is read if it is there, and every
rule is shown every node of the tree on one walk from the root. What the rules say is
recorded by a reporter that is there from the moment they are set up. The rules know the
file by the path of its source, as far as that is a text.
-/

namespace SolidityLint

/-- Why a file cannot be linted. -/
inductive LintError where
  /-- The syntax tree cannot be read. -/
  | unreadableTree (path : RawText) (e : ReadError)
  /-- What was read is not a syntax tree. -/
  | badTree (path : RawText) (e : ImportError)
  /-- The source is there but cannot be read. -/
  | unreadableSource (path : RawText) (e : ReadError)
  /-- A rule cannot be set up. -/
  | setup (file : String) (e : SetupError)
  deriving DecidableEq, Repr

/-- What is said about a number that does not fit in 64 bits. -/
def overflowMessage : String := "attempt to add with overflow"

/-- What is said about something that is not a syntax tree, and the cause if there is one. -/
def ImportError.chain (w : Wording) : ImportError → List String
  | notJson text _ => ["Invalid JSON: " ++ w.json text, w.json text]
  | notANode => ["Top-level JSON value has no string `type` field"]
  | positionOverflow => [overflowMessage]
  | tree e => [e.message]

namespace LintError

/-- What is said about a file that cannot be linted: what was tried, then the cause, then
the cause of that. -/
def chain (w : Wording) : LintError → List String
  | unreadableTree path e =>
    ["Failed to import " ++ path.display,
      "Failed to read " ++ path.display ++ ": " ++ e.message, e.message]
  | badTree path e => ("Failed to import " ++ path.display) :: e.chain w
  | unreadableSource path e => ["Failed to read source " ++ path.display, e.message]
  | setup file e => ["Failed to set up rules for " ++ file, e.message]

/-- Whether the failure ends the program on the spot, without a word about the file. -/
def isAbort : LintError → Bool
  | badTree _ .positionOverflow => true
  | _ => false

end LintError

/-- Shows a node to the rules and records what they say. -/
def RuleSet.lintNode (s : RuleSet) (t : Tree) (id : Nat) : Recording Unit :=
  match t.focus? id with
  | some f => record (s.dispatch f).violations
  | none => pure ()

/-- Shows every node of the first tree to the rules, from the root down. -/
def RuleSet.lint (s : RuleSet) (t : Tree) : Recording Unit := forM t.walk (s.lintNode t)

/-- Applies every rule of a registry to a syntax tree. The reporter is empty when the rules
are set up, and what it holds in the end is reported. -/
def lintTree (g : Registry) (job : Job) (t : Tree) : Except SetupError Report :=
  let linting : ExceptT SetupError Recording Unit := do
    let rules ← g.setUp job
    rules.lint t
  let (outcome, recorded) := linting.run.run []
  outcome.map fun () => ⟨recorded, 1⟩

/-- Reads the syntax tree a path leads to. -/
def FileSystem.readTree (fs : FileSystem) (path : RawText) : Except LintError Tree :=
  match fs.read path with
  | .error e => .error (.unreadableTree path e)
  | .ok text => (Tree.ofJson text).mapError (.badTree path)

/-- Reads a source; one that is not there counts as empty. -/
def FileSystem.readSource (fs : FileSystem) (path : RawText) : Except LintError String :=
  match fs.read path with
  | .ok text => .ok text
  | .error .notFound => .ok ""
  | .error e => .error (.unreadableSource path e)

/-- Applies every rule of a registry to the syntax tree a path leads to. The source is read
under the path it has, and the file is recorded under the text that this path shows. -/
def lintFile (fs : FileSystem) (g : Registry) (config : Config) (path : RawText) :
    Except LintError Report := do
  let tree ← fs.readTree path
  let source ← fs.readSource path.source
  let fileName := path.source.display
  (lintTree g { fileName, source, config } tree).mapError (.setup fileName)

end SolidityLint
