import SolidityLint.Toml.Value

/-!
# Configuration

The linter hands the options of a rule on to the rule as they are; it gives them no
meaning of its own.
-/

namespace SolidityLint

/-- A configuration: the options of each rule, by rule id. -/
structure Config where
  rules : List (String × Toml.Value) := []
  deriving Inhabited, Repr

namespace Config

/-- The options of a rule. -/
def options? (c : Config) (ruleId : String) : Option Toml.Value :=
  c.rules.lookup ruleId

end Config

end SolidityLint
