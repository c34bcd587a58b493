import SolidityLint.Rule.Basic
import SolidityLint.Text.Quoted

/-!
# Registries

A registry is a list of rules that has been looked over: every rule has an id of its
own, and lists each category of nodes at most once and never the category of unknown
nodes. The first rule that breaks these terms is named.
-/

namespace SolidityLint

/-- Why rules cannot be registered. -/
inductive RegistryError where
  /-- A rule has no id. -/
  | missingRuleId (description : String)
  /-- An earlier rule has the same id. -/
  | duplicateRuleId (id : String)
  /-- A rule lists a handler for unknown nodes. -/
  | unknownNodeType (id : String)
  /-- A rule lists two handlers for one category. -/
  | duplicateHandler (id : String) (nodeType : NodeType)
  deriving DecidableEq, Repr

/-- What is said about rules that cannot be registered. -/
def RegistryError.message : RegistryError → String
  | missingRuleId description => "rule kind (" ++ Text.quote description ++ ") is missing a rule id"
  | duplicateRuleId id => "duplicate rule id '" ++ id ++ "'"
  | unknownNodeType id => "rule '" ++ id ++ "' registers a handler for an unknown node type"
  | duplicateHandler id nodeType =>
    "rule '" ++ id ++ "' registers more than one handler for " ++ nodeType.name

/-- A list of rules that can be applied. -/
structure Registry where
  /-- The rules, in the order in which they are applied. -/
  rules : List Rule

namespace Registry

/-- Looks over the categories a rule lists, given those it listed before. -/
def checkCategories (id : String) (before : List NodeType) :
    List NodeType → Except RegistryError Unit
  | [] => .ok ()
  | t :: rest =>
    if t = .unknown then .error (.unknownNodeType id)
    else if t ∈ before then .error (.duplicateHandler id t)
    else checkCategories id (t :: before) rest

/-- Looks over a rule by itself. -/
def checkRule (r : Rule) : Except RegistryError Unit :=
  if r.descriptor.isNamed then
    checkCategories r.descriptor.id [] (r.handlers.map Prod.fst)
  else .error (.missingRuleId r.description)

/-- Looks over rules one after the other, given the ids of those before. -/
def checkRules (before : List String) : List Rule → Except RegistryError Unit
  | [] => .ok ()
  | r :: rest =>
    match checkRule r with
    | .error e => .error e
    | .ok () =>
      if r.descriptor.id ∈ before then .error (.duplicateRuleId r.descriptor.id)
      else checkRules (r.descriptor.id :: before) rest

/-- Registers rules in the given order. -/
def build (rules : List Rule) : Except RegistryError Registry :=
  match checkRules [] rules with
  | .error e => .error e
  | .ok () => .ok ⟨rules⟩

/-- The number of rules. -/
def size (g : Registry) : Nat := g.rules.length

/-- Whether there are no rules. -/
def isEmpty (g : Registry) : Bool := g.rules.isEmpty

/-- The first rule with a given id. -/
def find? (g : Registry) (id : String) : Option Rule :=
  g.rules.find? fun r => r.descriptor.id == id

/-- The registry whose rules go by other identities from now on, the first rule by the
first and so on. -/
def redescribe (g : Registry) (identities : List Descriptor) : Registry :=
  ⟨List.zipWith (fun r d => { r with descriptor := d }) g.rules identities⟩

/-- The ids of the rules, as a list. -/
def display (g : Registry) : String :=
  "[" ++ ", ".intercalate (g.rules.map fun r => Text.quote r.descriptor.id) ++ "]"

end Registry

end SolidityLint
