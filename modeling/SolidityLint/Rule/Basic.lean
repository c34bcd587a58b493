import SolidityLint.Config
import SolidityLint.Report.Violation

/-!
# Rules

A rule says who it is and lists, for the categories of nodes it cares about, what it
does with a node. A handler is given the node in its tree and what is known about the
file, and answers with the messages it reports on that node.
-/

namespace SolidityLint

/-- The identity of a rule. -/
structure Descriptor where
  /-- The id that its violations carry. -/
  id : String
  /-- Whether it is applied to ignored files too. -/
  isGlobal : Bool := false
  deriving DecidableEq, Repr

/-- Whether a rule has an id at all. -/
def Descriptor.isNamed (d : Descriptor) : Bool := d.id ≠ ""

/-- What a rule knows about the file it is applied to. -/
structure Context where
  ruleId : String
  /-- Whether the rule leaves this file alone. -/
  ignored : Bool
  config : Config
  /-- The text of the file. -/
  source : String
  fileName : String

/-- What a rule does with a node: the messages it reports on it. -/
abbrev Handler := Context → Focus → List String

/-- A style rule. -/
structure Rule where
  descriptor : Descriptor
  /-- What the rule checks, in a few words. -/
  description : String := ""
  /-- The handlers, each with the category of nodes it is for. -/
  handlers : List (NodeType × Handler)

namespace Rule

/-- The first handler for a category of nodes. -/
def handler? (r : Rule) (t : NodeType) : Option Handler :=
  (r.handlers.find? fun entry => entry.1 == t).map Prod.snd

end Rule

end SolidityLint
