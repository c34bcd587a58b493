import SolidityLint.Rule.Basic

/-!
# Leading underscores

An underscore in front of a name marks what is not part of a contract's outer surface:
private variables, private functions, and internal functions. Constants and the internal
functions of a library are used by name elsewhere and must not have one.
-/

namespace SolidityLint.LeadingUnderscore

/-- The id of the rule. -/
def id : String := "leading-underscore"

/-- Reported on a constant with an underscore. -/
def onConstant : String := "Constant variables should not have leading underscore"

/-- Reported on a private variable without one. -/
def onPrivateVariable : String := "Non-constant private variables must have leading underscore"

/-- Reported on a private or internal function without one. -/
def onPrivateFunction : String := "Private and internal functions must have leading underscore"

/-- Reported on an internal function of a library with one. -/
def onLibraryFunction : String := "Library internal functions should not have leading underscore"

/-- Whether a name starts with an underscore. -/
def isMarked (name : String) : Bool :=
  match name.toList with
  | '_' :: _ => true
  | _ => false

/-- What is wrong with the name of a variable. -/
def onVariable : Handler := fun _ f =>
  if f.node.isConstant then
    if isMarked f.node.nameD then [onConstant] else []
  else if f.node.visibility = some .priv ∧ ¬ isMarked f.node.nameD then [onPrivateVariable]
  else []

/-- What is wrong with the name of a function. Only a parent that is a library makes the
function one of a library. -/
def onFunction : Handler := fun _ f =>
  let inLibrary := (f.parent?.bind fun p => p.node.kind) = some "library"
  let visibility := f.node.visibility
  let marked := isMarked f.node.nameD
  let mustBeMarked :=
    visibility = some .priv ∨ (visibility = some .internal ∧ ¬ inLibrary)
  let mustNotBeMarked := visibility = some .internal ∧ inLibrary
  (if mustBeMarked ∧ ¬ marked then [onPrivateFunction] else [])
    ++ (if mustNotBeMarked ∧ marked then [onLibraryFunction] else [])

/-- Asks for underscores on private members, and for none on constants and on internal
functions of libraries. -/
def rule : Rule where
  descriptor := { id }
  description :=
    "Private members need a leading underscore, constants and library internals must not have one"
  handlers := [(.variableDeclaration, onVariable), (.functionDefinition, onFunction)]

end SolidityLint.LeadingUnderscore
