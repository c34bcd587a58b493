import SolidityLint.Rule.Basic

/-!
# Interface names

An interface is named with a capital `I` and another capital letter after it, so that
readers can tell it from the contracts that implement it.
-/

namespace SolidityLint.InterfaceNames

/-- The id of the rule. -/
def id : String := "interface-names"

/-- What is reported. -/
def message : String := "Interface names should have a capital I prefix"

/-- Whether a name starts with `I` and another capital letter. -/
def isPrefixed (name : String) : Bool :=
  match name.toList with
  | 'I' :: c :: _ => c.isUpper
  | _ => false

/-- What is wrong with the name of a contract. -/
def onContract : Handler := fun _ f =>
  if f.node.kind = some "interface" ∧ ¬ isPrefixed f.node.nameD then [message] else []

/-- Asks interfaces to be named with a capital `I`. -/
def rule : Rule where
  descriptor := { id }
  description := "Interface names should have a capital I prefix"
  handlers := [(.contractDefinition, onContract)]

end SolidityLint.InterfaceNames
