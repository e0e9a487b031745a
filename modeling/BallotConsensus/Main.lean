import BallotConsensus.CommandLine

/-!
# The program

Gathers arguments, environment and files, performs the invocation and
writes what it leaves behind.
-/

namespace BallotConsensus.Log.Event

/-- An event as a line of text. -/
def line (e : Event) : String :=
  e.level.name ++ " " ++ e.target ++ ": " ++ e.message
    ++ String.join (e.fields.map fun (name, value) => " " ++ name ++ "=" ++ value)

/-- An event as a line of JSON. -/
def jsonLine (e : Event) : String :=
  Json.compact (.record [
    ("level", .ofString e.level.name),
    ("fields", .record (("message", .ofString e.message)
      :: e.fields.map fun (name, value) => (name, .ofString value))),
    ("target", .ofString e.target)])

end BallotConsensus.Log.Event

namespace BallotConsensus.CommandLine

/-- The text of a file, if it can be read. -/
def readText (path : String) : IO (Option String) := do
  try
    let bytes ← IO.FS.readBinFile path
    return String.fromUTF8? bytes
  catch _ => return none

/-- Writes what a run leaves behind and returns its exit code. -/
def write (jsonLog : Bool) (t : Transcript) : IO UInt32 := do
  for (stream, event) in t.log do
    let line := if jsonLog then event.jsonLine else event.line
    match stream with
    | .output => IO.println line
    | .error => IO.eprintln line
  IO.print t.output
  if t.exitCode = 2 then IO.eprintln "error: unexpected arguments, try '--help'"
  return UInt32.ofNat t.exitCode

end BallotConsensus.CommandLine

open BallotConsensus BallotConsensus.CommandLine in
def main (arguments : List String) : IO UInt32 := do
  let environment ← optionVariables.mapM fun name => return (name, ← IO.getEnv name)
  let lookUp (name : String) : Option String := (environment.lookup name).join
  match CommandLine.read lookUp arguments with
  | .error stop => write false stop.transcript
  | .ok invocation =>
    let settings ← match invocation.settings with
      | some path => readText path
      | none => pure none
    let input ← readText invocation.input
    write invocation.jsonLog (invocation.perform settings input)
