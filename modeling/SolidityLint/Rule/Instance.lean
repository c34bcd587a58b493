import SolidityLint.Ignore
import SolidityLint.Rule.Registry

/-!
# Rules applied to a file

For each file every rule is set up anew, and at that moment it is settled whether the
rule leaves the file alone. A rule that does still has its handlers run, but nothing they
say is recorded. The reporter that records is there before the rules are.
-/

namespace SolidityLint

/-- Why a rule cannot be set up. -/
inductive SetupError where
  /-- The rule has no id. -/
  | missingRuleId (description : String)
  deriving DecidableEq, Repr

/-- What is said about a rule that cannot be set up. -/
def SetupError.message : SetupError → String
  | missingRuleId description => "missing rule id on rule kind (" ++ Text.quote description ++ ")"

/-- What is known about a file before its rules are set up. -/
structure Job where
  fileName : String
  source : String := ""
  config : Config := {}

/-- Whether a rule leaves a file alone. -/
def Descriptor.ignores (d : Descriptor) (file : String) : Bool :=
  !d.isGlobal && Ignore.covers file

namespace Context

/-- What a rule records when it reports a message on a node. -/
def report (c : Context) (f : Focus) (message : String) : List Violation :=
  if c.ignored then [] else [Violation.ofNode c.fileName c.ruleId f.node message]

/-- The context on one line. -/
def display (c : Context) : String :=
  "RuleContext \x7b rule_id: " ++ Text.quote c.ruleId ++ ", ignored: "
    ++ (if c.ignored then "true" else "false") ++ ", file_name: " ++ Text.quote c.fileName
    ++ ", .. \x7d"

end Context

/-- A rule set up for a file. -/
structure Instance where
  rule : Rule
  context : Context

namespace Instance

/-- Sets a rule up for a file. -/
def ofRule (job : Job) (r : Rule) : Except SetupError Instance :=
  if r.descriptor.isNamed then
    .ok {
      rule := r
      context := {
        ruleId := r.descriptor.id
        ignored := r.descriptor.ignores job.fileName
        config := job.config
        source := job.source
        fileName := job.fileName } }
  else .error (.missingRuleId r.description)

/-- Shows a node to the rule: what is recorded, if the rule has a handler for it. -/
def visit (i : Instance) (f : Focus) : Option (List Violation) :=
  (i.rule.handler? f.node.nodeType).map fun handler =>
    (handler i.context f).flatMap (i.context.report f)

/-- The instance on one line. -/
def display (i : Instance) : String :=
  "RuleInstance \x7b ctx: " ++ i.context.display ++ ", .. \x7d"

end Instance

/-- The rules set up for one file. -/
structure RuleSet where
  instances : List Instance

/-- What came of showing a node to all rules. -/
structure Dispatch where
  /-- How many handlers ran. -/
  invoked : Nat
  /-- What they recorded, in the order of the rules. -/
  violations : List Violation

namespace RuleSet

/-- Shows a node to all rules. -/
def dispatch (s : RuleSet) (f : Focus) : Dispatch :=
  let outcomes := s.instances.filterMap fun i => i.visit f
  ⟨outcomes.length, outcomes.flatten⟩

/-- The set on one line. -/
def display (s : RuleSet) : String :=
  "RuleSet \x7b instances: [" ++ ", ".intercalate (s.instances.map Instance.display) ++ "] \x7d"

end RuleSet

/-- What is done beside a reporter, which holds what was recorded so far. -/
abbrev Recording := StateM (List Violation)

/-- Adds violations to what was recorded. -/
def record (vs : List Violation) : Recording Unit := modify fun recorded => recorded ++ vs

/-- Sets the rules of a registry up for a file one after the other, beside a reporter. -/
def Registry.setUp (g : Registry) (job : Job) : ExceptT SetupError Recording RuleSet := do
  let instances ← g.rules.mapM fun r => ofExcept (Instance.ofRule job r)
  return ⟨instances⟩

/-- The rules of a registry, set up for a file beside a reporter that holds nothing. -/
def Registry.instantiate (g : Registry) (job : Job) : Except SetupError RuleSet :=
  ((g.setUp job).run.run []).1

/-- A node in focus on one line. -/
def Focus.display (f : Focus) : String :=
  let name := match f.node.name with
    | some s => "Some(" ++ Text.quote s ++ ")"
    | none => "None"
  "NodeRef \x7b id: NodeId(" ++ toString f.id.val ++ "), type: " ++ Text.quote f.node.typeName
    ++ ", name: " ++ name ++ " \x7d"

end SolidityLint
