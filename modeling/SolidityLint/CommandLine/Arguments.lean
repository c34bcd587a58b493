import SolidityLint.Report.Render
import SolidityLint.Text.Raw

/-!
# Command line arguments

Arguments are taken from left to right. Options for every command may stand before the
name of the command or after it; what stands after it counts more. An option may be given
once before and once after. A value is joined to its option, with or without an equals
sign, or is the next argument; then it may not look like an option itself. Arguments are
bytes, and options and their names are found among them as characters.
-/

namespace SolidityLint.CommandLine

/-- What the linter is asked to do. -/
inductive Command where
  | check (paths : List RawText) (format : Format)
  | listRules
  deriving DecidableEq, Repr

/-- A command with the options that go with every command. -/
structure Invocation where
  verbose : Bool
  /-- The configuration file asked for. -/
  config : Option RawText
  command : Command
  deriving DecidableEq, Repr

/-- Why no command comes out of the arguments. -/
inductive Stop where
  /-- The arguments make no sense. -/
  | usage
  /-- The version was asked for. -/
  | version
  deriving DecidableEq, Repr

/-- The part of the line an argument belongs to. -/
inductive Scope where
  | top
  | check
  | listRules
  deriving DecidableEq, Repr

/-- An option that takes no value. -/
inductive Switch where
  | verbose
  | version
  deriving DecidableEq, Repr

/-- An option that takes a value. -/
inductive Setting where
  | config
  | format
  deriving DecidableEq, Repr

/-- The option a letter stands for. -/
def ofLetter? (scope : Scope) : Char → Option (Switch ⊕ Setting)
  | 'v' => some (.inl .verbose)
  | 'V' => if scope = .top then some (.inl .version) else none
  | 'c' => some (.inr .config)
  | 'f' => if scope = .check then some (.inr .format) else none
  | _ => none

/-- The option a word stands for. -/
def ofWord? (scope : Scope) (word : String) : Option (Switch ⊕ Setting) :=
  if word = "verbose" then some (.inl .verbose)
  else if word = "version" ∧ scope = .top then some (.inl .version)
  else if word = "config" then some (.inr .config)
  else if word = "format" ∧ scope = .check then some (.inr .format)
  else none

/-- The options for every command, as given in one part of the line. -/
structure Common where
  verbose : Bool := false
  config : Option RawText := none
  deriving Repr

/-- What the arguments so far say. -/
structure Draft where
  scope : Scope := .top
  /-- The options before the command. -/
  before : Common := {}
  /-- The options after the command. -/
  after : Common := {}
  format : Option Format := none
  /-- The paths, the latest first. -/
  paths : List RawText := []
  deriving Repr

namespace Draft

/-- The options in the part of the line that is being read. -/
def current (d : Draft) : Common := if d.scope = .top then d.before else d.after

/-- Changes the options in the part of the line that is being read. -/
def setCurrent (d : Draft) (c : Common) : Draft :=
  if d.scope = .top then { d with before := c } else { d with after := c }

/-- Takes a switch. -/
def turnOn (d : Draft) : Switch → Except Stop Draft
  | .version => .error .version
  | .verbose =>
    if d.current.verbose then .error .usage
    else .ok (d.setCurrent { d.current with verbose := true })

/-- Takes a setting with its value. -/
def set (d : Draft) (value : RawText) : Setting → Except Stop Draft
  | .config =>
    if value = .ofText "" ∨ d.current.config.isSome then .error .usage
    else .ok (d.setCurrent { d.current with config := some value })
  | .format =>
    match Format.ofName? (String.ofList value.units), d.format with
    | some f, none => .ok { d with format := some f }
    | _, _ => .error .usage

/-- Takes an argument that is no option. Behind a double dash it names no command. -/
def place (d : Draft) (literal : Bool) (a : RawText) : Except Stop Draft :=
  match d.scope with
  | .top =>
    if literal then .error .usage
    else if a = .ofText "check" then .ok { d with scope := .check }
    else if a = .ofText "list-rules" then .ok { d with scope := .listRules }
    else .error .usage
  | .check => if a = .ofText "" then .error .usage else .ok { d with paths := a :: d.paths }
  | .listRules => .error .usage

/-- Takes letters behind a dash. A setting takes the rest of the letters as its value, or
waits for one if there are none. -/
def takeLetters (d : Draft) : List Char → Except Stop (Draft × Option Setting)
  | [] => .ok (d, none)
  | c :: cs =>
    match ofLetter? d.scope c with
    | none => .error .usage
    | some (.inl s) =>
      match d.turnOn s with
      | .error e => .error e
      | .ok d => d.takeLetters cs
    | some (.inr s) =>
      match cs with
      | [] => .ok (d, some s)
      | '=' :: cs => (d.set (.ofUnits cs) s).map fun d => (d, none)
      | cs => (d.set (.ofUnits cs) s).map fun d => (d, none)

/-- Takes a word behind two dashes, with its value if one is joined to it. -/
def takeWord (d : Draft) (cs : List Char) : Except Stop (Draft × Option Setting) :=
  let word := String.ofList (cs.takeWhile (· ≠ '='))
  match ofWord? d.scope word, cs.dropWhile (· ≠ '=') with
  | some (.inl s), [] => (d.turnOn s).map fun d => (d, none)
  | some (.inr s), [] => .ok (d, some s)
  | some (.inr s), _ :: value => (d.set (.ofUnits value) s).map fun d => (d, none)
  | _, _ => .error .usage

/-- What the arguments say. `waiting` is a setting whose value comes next, and `literal`
says that a double dash stood before. -/
def take (waiting : Option Setting) (literal : Bool) (d : Draft) :
    List RawText → Except Stop Draft
  | [] => if waiting.isSome then .error .usage else .ok d
  | a :: rest =>
    match literal, waiting, a.units with
    | true, _, _ =>
      match d.place true a with
      | .error e => .error e
      | .ok d => take waiting true d rest
    | false, none, ['-', '-'] => take none true d rest
    | false, none, '-' :: '-' :: cs =>
      match d.takeWord cs with
      | .error e => .error e
      | .ok (d, waiting) => take waiting false d rest
    | false, none, '-' :: c :: cs =>
      match d.takeLetters (c :: cs) with
      | .error e => .error e
      | .ok (d, waiting) => take waiting false d rest
    | false, none, _ =>
      match d.place false a with
      | .error e => .error e
      | .ok d => take none false d rest
    | false, some _, '-' :: _ :: _ => .error .usage
    | false, some s, _ =>
      match d.set a s with
      | .error e => .error e
      | .ok d => take none false d rest

/-- The command that comes out in the end. -/
def finish (d : Draft) : Except Stop Invocation :=
  let verbose := d.before.verbose || d.after.verbose
  let config := d.after.config.or d.before.config
  match d.scope with
  | .top => .error .usage
  | .listRules => .ok ⟨verbose, config, .listRules⟩
  | .check =>
    if d.paths.isEmpty then .error .usage
    else .ok ⟨verbose, config, .check d.paths.reverse (d.format.getD .text)⟩

end Draft

/-- Makes out what the arguments ask for. -/
def parse (args : List RawText) : Except Stop Invocation := do
  (← Draft.take none false {} args).finish

end SolidityLint.CommandLine
