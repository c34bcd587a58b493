import SolidityLint.Config
import SolidityLint.Toml.Reader

/-!
# Configuration from TOML

The options of the rules stand in the table `rules`, each under the id of its rule. A
configuration may hold other things, which are passed over.

A date may also be given by a table whose first key is `momentKey`; there stands its
text, and what comes after that is passed over.
-/

namespace SolidityLint

namespace Config

/-- The key under which the text of a date stands when a date is looked at as a table. -/
def momentKey : String := "$__toml_private_datetime"

/-- The date that the text of a date gives. -/
def moment? : Toml.Value → Option Toml.Value
  | .text s => (Toml.DateTime.ofText? s).map .moment
  | _ => none

mutual

/-- A value with the dates that are given by tables made out; a table that gives none
though it has to is refused. -/
def interpret? : Toml.Value → Option Toml.Value
  | .array vs => (interpretItems? vs).map .array
  | .table [] => some (.table [])
  | .table ((k, v) :: rest) =>
    if k = momentKey then moment? v
    else do
      let v ← interpret? v
      return .table ((k, v) :: (← interpretEntries? rest))
  | v => some v

/-- The items of an array with their dates made out. -/
def interpretItems? : List Toml.Value → Option (List Toml.Value)
  | [] => some []
  | v :: vs => do
    let v ← interpret? v
    return v :: (← interpretItems? vs)

/-- The entries of a table with their dates made out. -/
def interpretEntries? : List (String × Toml.Value) → Option (List (String × Toml.Value))
  | [] => some []
  | (k, v) :: rest => do
    let v ← interpret? v
    return (k, v) :: (← interpretEntries? rest)

end

/-- The options of the rules, by rule id; a date is looked at as a table. -/
def rules? : Toml.Value → Option (List (String × Toml.Value))
  | .table entries => interpretEntries? entries
  | .moment d => some [(momentKey, .text d.text)]
  | _ => none

/-- The configuration a text holds. -/
def ofToml? (text : String) : Option Config := do
  match (← Toml.parse? text).lookup "rules" with
  | none => return {}
  | some v => return ⟨← rules? v⟩

end Config

end SolidityLint
