import SolidityLint.Rule.InterfaceNames
import SolidityLint.Rule.LeadingUnderscore
import SolidityLint.Rule.Registry

/-!
# The built-in rules

The rules the linter applies, and the registry that holds them.
-/

namespace SolidityLint

/-- The rules the linter applies, in order. -/
def Rule.builtin : List Rule := [InterfaceNames.rule, LeadingUnderscore.rule]

/-- The registry of the built-in rules. -/
def Registry.builtin : Registry := ⟨Rule.builtin⟩

/-- The built-in rules pass registration. -/
theorem Registry.build_builtin : Registry.build Rule.builtin = .ok Registry.builtin := by
  simp [build, checkRules, checkRule, checkCategories, Descriptor.isNamed, Rule.builtin,
    Registry.builtin, InterfaceNames.rule, InterfaceNames.id, LeadingUnderscore.rule,
    LeadingUnderscore.id]

end SolidityLint
