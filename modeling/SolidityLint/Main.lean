import SolidityLint.CommandLine.Run

/-!
# The program

The only part that touches the world. It reads the files that the arguments can lead to,
hands them to `CommandLine.run`, and prints what comes out.

Arguments and the working directory come as texts here, so the paths of a run are encoded
texts. Parsers say in a few words of their own what is wrong with a text.
-/

namespace SolidityLint

/-- The number and the words of an error of the system. -/
def systemError : IO.Error → Nat × String
  | .otherError code words | .resourceBusy code words | .resourceVanished code words
  | .unsupportedOperation code words | .hardwareFault code words
  | .unsatisfiedConstraints code words | .illegalOperation code words
  | .protocolError code words | .timeExpired code words | .alreadyExists _ code words
  | .interrupted _ code words | .noFileOrDirectory _ code words
  | .invalidArgument _ code words | .permissionDenied _ code words
  | .resourceExhausted _ code words | .inappropriateType _ code words
  | .noSuchThing _ code words => (code.toNat, words)
  | .unexpectedEof => (0, "unexpected end of file")
  | .userError words => (0, words)

/-- What an error of the system means for a path that was to be read. -/
def readErrorOf (e : IO.Error) : ReadError :=
  match systemError e with
  | (2, _) => .notFound
  | (20, _) => .notADirectory
  | (21, _) => .isADirectory
  | (36, _) => .nameTooLong
  | (code, words) => .refused code words

/-- Reads the text a path leads to. -/
def readPath (path : RawText) : IO (Except ReadError String) := do
  if '\x00' ∈ path.units then return .error .nullInPath
  try
    match String.fromUTF8? (← IO.FS.readBinFile path.display) with
    | some text => return .ok text
    | none => return .error .notUtf8
  catch e => return .error (readErrorOf e)

/-- Whether something that was read, or could not be, is a file. What the system refuses to
read counts as one. -/
def isFileRead : Except ReadError String → Bool
  | .ok _ | .error .notUtf8 | .error (.refused ..) => true
  | .error _ => false

/-- The paths that a run may read: the configuration, the trees and their sources. -/
def pathsRead (workingDirectory : RawText) (args : List RawText) : List RawText :=
  match CommandLine.parse args with
  | .ok ⟨_, config, .check paths _⟩ =>
    let configs := match config with
      | some path => [path]
      | none => ConfigSource.names.map (ConfigSource.inDirectory workingDirectory)
    configs ++ paths ++ paths.map RawText.source
  | _ => []

/-- The file system that was read ahead of a run. -/
def readAhead (workingDirectory : RawText) (files : List (RawText × Except ReadError String)) :
    FileSystem :=
  let find path := ((files.find? fun f => f.1 = path).map Prod.snd).getD (.error .notFound)
  ⟨workingDirectory, find, fun path => isFileRead (find path)⟩

/-- What is said here about texts that cannot be parsed. -/
def plainWording : Wording where
  json text :=
    if Json.parse .strict text matches .error .unfinished then "unexpected end of the text"
    else "unexpected character"
  toml _ := "unexpected character"

/-- What is said about a failure: what was tried, then the causes, which have numbers if
there are several. The lines of a cause stand below each other. -/
def failureText : List String → String
  | [] => ""
  | [tried] => tried
  | [tried, cause] => tried ++ "\n\nCaused by:\n    " ++ cause.replace "\n" "\n    "
  | tried :: causes =>
    tried ++ "\n\nCaused by:" ++ String.join (causes.zipIdx.map fun (cause, n) =>
      "\n    " ++ toString n ++ ": " ++ cause.replace "\n" "\n       ")

/-- A diagnostic for people. -/
def Diagnostic.display (d : Diagnostic) : String :=
  let place := match d.source with
    | some file => file ++ ", byte " ++ toString d.offset
    | none => "character " ++ toString d.offset
  let excerpt := match d.excerpt? with
    | some piece => "\n  " ++ piece
    | none => ""
  d.message ++ "\n  at " ++ place ++ ", length " ++ toString d.length ++ ": " ++ d.label ++ excerpt

end SolidityLint

open SolidityLint in
/-- Runs the linter. -/
def main (args : List String) : IO UInt32 := do
  let args := args.map RawText.ofText
  let workingDirectory := RawText.ofText (← IO.currentDir).toString
  let files ← (pathsRead workingDirectory args).mapM fun path => do
    return (path, ← readPath path)
  let outcome := CommandLine.run (readAhead workingDirectory files) args
  let stderr ← IO.getStderr
  for event in outcome.log do
    stderr.putStrLn event.line
  for diagnostic in outcome.diagnostics do
    stderr.putStrLn diagnostic.display
  if let some e := outcome.error then
    stderr.putStrLn ("Error: " ++ failureText (e.chain plainWording))
  if outcome.status = CommandLine.usageStatus then
    stderr.putStr CommandLine.usageText
  IO.print outcome.stdout
  return outcome.status
