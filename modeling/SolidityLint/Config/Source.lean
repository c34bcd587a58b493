import SolidityLint.Config.Reader
import SolidityLint.FileSystem

/-!
# Where the configuration comes from

A configuration file that is asked for is taken. Otherwise the first file with one of the
usual names in the project directory is, and if there is none the configuration is empty.
-/

namespace SolidityLint

/-- Where the configuration comes from. -/
inductive ConfigSource where
  /-- A file that was asked for. -/
  | explicit (path : RawText)
  /-- A file in the project directory. -/
  | project (path : RawText)
  /-- No file. -/
  | default
  deriving DecidableEq, Repr

/-- Why there is no configuration. -/
inductive ConfigError where
  | unreadable (path : RawText) (e : ReadError)
  /-- The text that was read is not a configuration. -/
  | malformed (path : RawText) (text : String)
  deriving DecidableEq, Repr

/-- What is said when there is no configuration: what was tried, then the cause, then the
cause of that. -/
def ConfigError.chain (w : Wording) : ConfigError → List String
  | unreadable path e =>
    ["Failed to load config: " ++ path.display,
      "Failed to read config file " ++ path.display ++ ": " ++ e.message, e.message]
  | malformed path text =>
    ["Failed to load config: " ++ path.display, "Failed to parse config: " ++ w.toml text]

namespace ConfigSource

/-- The names of configuration files, the preferred one first. -/
def names : List String := ["solstyle.toml", ".solstyle.toml"]

/-- The path of an entry of a directory. -/
def inDirectory (directory : RawText) (name : String) : RawText :=
  match directory.units.getLast? with
  | none => .ofText name
  | some '/' => directory ++ .ofText name
  | some _ => directory ++ .ofText "/" ++ .ofText name

/-- Finds out where the configuration of a project comes from. -/
def resolve (fs : FileSystem) (directory : RawText) (asked : Option RawText) : ConfigSource :=
  match asked with
  | some path => explicit path
  | none =>
    match (names.map (inDirectory directory)).find? fs.isFile with
    | some path => project path
    | none => default

/-- The path of the configuration file. -/
def path? : ConfigSource → Option RawText
  | explicit path => some path
  | project path => some path
  | default => none

/-- Reads the configuration. -/
def load (s : ConfigSource) (fs : FileSystem) : Except ConfigError Config :=
  match s.path? with
  | none => .ok {}
  | some path =>
    match fs.read path with
    | .error e => .error (.unreadable path e)
    | .ok text =>
      match Config.ofToml? text with
      | some c => .ok c
      | none => .error (.malformed path text)

end ConfigSource

end SolidityLint
