import BallotConsensus.Json.Printer
import BallotConsensus.Log.Filter
import BallotConsensus.Report.Description
import BallotConsensus.Settings

/-!
# The command line

    [options] round --input PATH

reads a round description and prints the report of the round.  The options
say what is logged, where and how, and where the settings are.  An option
that is not given is taken from the environment variable of its name.

Arguments are read from left to right, and the first thing that is wrong, or
that asks for help or for the version, ends the reading.

* `CommandLine.read` — the invocation that arguments ask for;
* `Invocation.perform` — what it does: what is printed, what is logged, and
  the exit code.
-/

namespace BallotConsensus

/-- What the arguments ask for. -/
structure Invocation where
  /-- The log filter. -/
  filter : String
  /-- Events at this level or above are logged to the error stream, all
  others to the output.  Without it all events go to the error stream. -/
  threshold : Option Log.Level
  /-- Whether events are logged as JSON. -/
  jsonLog : Bool
  /-- Path of the settings file. -/
  settings : Option String
  /-- Path of the round description. -/
  input : String
deriving DecidableEq, Repr

namespace CommandLine

/-- Why nothing is run. -/
inductive Stop where
  | version
  | help
  | misuse
deriving DecidableEq, Repr

/-- The options given so far. -/
structure Options where
  filter : Option String
  threshold : Option Log.Level
  jsonLog : Option Bool
  settings : Option String

/-- No options. -/
def Options.empty : Options := ⟨none, none, none, none⟩

/-- The options that take a value. -/
inductive ValueOption where
  | filter
  | threshold
  | settings
deriving DecidableEq, Repr

/-- The option of a name. -/
def ValueOption.ofName? : String → Option ValueOption
  | "log" => some .filter
  | "log-stderr-threshold" => some .threshold
  | "config" => some .settings
  | _ => none

/-- Sets an option unless it is set already; a value that does not fit is
refused. -/
def Options.set? (options : Options) (option : ValueOption) (value : String) :
    Option Options :=
  match option with
  | .filter =>
    if options.filter.isSome then none else some { options with filter := some value }
  | .threshold =>
    if options.threshold.isSome then none
    else (Log.Level.read? value).map fun level => { options with threshold := some level }
  | .settings =>
    if options.settings.isSome || value.isEmpty then none
    else some { options with settings := some value }

/-- The form of an argument. -/
inductive Form where
  /-- `--name` or `--name=value` -/
  | long (name : String) (value : Option String)
  /-- Letters after one dash. -/
  | short (first : Char)
  /-- Two dashes: nothing after them is an option. -/
  | end
  | plain
deriving DecidableEq, Repr

/-- The form of an argument.  A single dash is plain. -/
def Form.of (argument : String) : Form :=
  match argument.toList with
  | ['-', '-'] => .end
  | '-' :: '-' :: body =>
    let name := body.takeWhile (· != '=')
    match body.drop name.length with
    | _ :: value => .long (String.ofList name) (some (String.ofList value))
    | [] => .long (String.ofList name) none
  | '-' :: first :: _ => .short first
  | _ => .plain

/-- The value of an option: written behind an equals sign, or the next
argument unless that has the form of an option. -/
def optionValue? (attached : Option String) (arguments : List String) :
    Option (String × List String) :=
  match attached, arguments with
  | some value, arguments => some (value, arguments)
  | none, argument :: arguments =>
    if Form.of argument = .plain then some (argument, arguments) else none
  | none, [] => none

theorem length_of_optionValue? {attached : Option String} {arguments rest : List String}
    {value : String} (h : optionValue? attached arguments = some (value, rest)) :
    rest.length ≤ arguments.length := by
  unfold optionValue? at h
  split at h
  · cases h
    exact Nat.le_refl _
  · split at h
    · cases h
      simp
    · cases h
  · cases h

/-- Reads the arguments behind `round`: the path of the input. -/
def readRound (input : Option String) (arguments : List String) : Except Stop String :=
  match arguments with
  | [] => match input with
    | some input => .ok input
    | none => .error .misuse
  | argument :: rest =>
    match Form.of argument with
    | .long "help" none => .error .help
    | .short 'h' => .error .help
    | .long "input" attached =>
      match _h : optionValue? attached rest with
      | some (value, rest) =>
        if input.isSome || value.isEmpty then .error .misuse else readRound (some value) rest
      | none => .error .misuse
    | .end => match rest, input with
      | [], some input => .ok input
      | _, _ => .error .misuse
    | _ => .error .misuse
termination_by arguments.length
decreasing_by
  have := length_of_optionValue? _h
  simp
  omega

/-- Reads the request for help: on the whole or on a command. -/
def readHelp : List String → Stop
  | [] => .help
  | ["round"] => .help
  | ["help"] => .help
  | _ => .misuse

/-- Reads the arguments from the first on: the options and the path of the
input. -/
def readArguments (options : Options) (arguments : List String) :
    Except Stop (Options × String) :=
  match arguments with
  | [] => .error .misuse
  | argument :: rest =>
    match Form.of argument with
    | .long "version" none => .error .version
    | .short 'V' => .error .version
    | .long "help" none => .error .help
    | .short 'h' => .error .help
    | .long "log-json" none =>
      if options.jsonLog.isSome then .error .misuse
      else readArguments { options with jsonLog := some true } rest
    | .long name attached =>
      match ValueOption.ofName? name, _h : optionValue? attached rest with
      | some option, some (value, rest) =>
        match options.set? option value with
        | some options => readArguments options rest
        | none => .error .misuse
      | _, _ => .error .misuse
    | .plain =>
      if argument = "round" then (readRound none rest).map fun input => (options, input)
      else if argument = "help" then .error (readHelp rest)
      else .error .misuse
    | _ => .error .misuse
termination_by arguments.length
decreasing_by
  · simp
  · have := length_of_optionValue? _h
    simp
    omega

/-- The flag that an environment variable holds. -/
def flag? : String → Option Bool
  | "true" => some true
  | "false" => some false
  | _ => none

/-- Takes options that are not given from the environment. -/
def Options.fill? (options : Options) (environment : String → Option String) :
    Option Options := do
  let fill (options : Options) (given : Bool) (option : ValueOption) (name : String) :=
    match environment name with
    | some value => if given then some options else options.set? option value
    | none => some options
  let options ← fill options options.filter.isSome .filter "LOG"
  let options ← fill options options.threshold.isSome .threshold "LOG_STDERR_THRESHOLD"
  let options ← fill options options.settings.isSome .settings "CONFIG"
  match options.jsonLog, environment "LOG_JSON" with
  | none, some value => (flag? value).map fun flag => { options with jsonLog := some flag }
  | _, _ => some options

/-- The invocation that the arguments and the environment ask for. -/
def read (environment : String → Option String) (arguments : List String) :
    Except Stop Invocation := do
  let (options, input) ← readArguments .empty arguments
  match options.fill? environment with
  | some options => .ok {
      filter := options.filter.getD "info"
      threshold := options.threshold
      jsonLog := options.jsonLog.getD false
      settings := options.settings
      input }
  | none => .error .misuse

/-- The environment variables that options are taken from. -/
def optionVariables : List String := ["LOG", "LOG_STDERR_THRESHOLD", "LOG_JSON", "CONFIG"]

/-- The two streams that are written to. -/
inductive Stream where
  | output
  | error
deriving DecidableEq, Repr

/-- What a run leaves behind. -/
structure Transcript where
  exitCode : Nat
  /-- The output without logged events. -/
  output : String
  /-- The logged events, each with the stream it goes to. -/
  log : List (Stream × Log.Event)
deriving DecidableEq, Repr

namespace Transcript

/-- The events that went to a stream. -/
def logged (t : Transcript) (stream : Stream) : List Log.Event :=
  t.log.filterMap fun (s, e) => if s = stream then some e else none

end Transcript

/-- What is printed for `--version`. -/
def versionText : String := "bitvote-consensus 0.1.0\n"

/-- What is printed for `--help`. -/
def helpText : String :=
  "Compute the consensus bit vote of a voting round\n\n"
    ++ "Usage: bitvote-consensus [OPTIONS] round --input <INPUT>\n\n"
    ++ "Options:\n"
    ++ "      --log <LOG>                                    The log filter [default: info]\n"
    ++ "      --log-stderr-threshold <LOG_STDERR_THRESHOLD>  Events at or above this level are logged to stderr\n"
    ++ "      --log-json                                     Log events as JSON\n"
    ++ "      --config <CONFIG>                              Path to the engine configuration file\n"
    ++ "  -h, --help                                         Print help\n"
    ++ "  -V, --version                                      Print version\n"

/-- What a run leaves behind that stops at its arguments. -/
def Stop.transcript : Stop → Transcript
  | .version => ⟨0, versionText, []⟩
  | .help => ⟨0, helpText, []⟩
  | .misuse => ⟨2, "", []⟩

end CommandLine

namespace Invocation

open CommandLine (Stream Transcript)

/-- The stream that an event goes to. -/
def stream (i : Invocation) (e : Log.Event) : Stream :=
  match i.threshold with
  | some threshold => if e.level.rank ≤ threshold.rank then .error else .output
  | none => .error

/-- The events that are logged, each with its stream. -/
def logOf (i : Invocation) (events : List Log.Event) : List (Stream × Log.Event) :=
  (events.filter (Log.Filter.read i.filter).passes).map fun e => (i.stream e, e)

/-- The events that every run begins with. -/
def openingEvents (i : Invocation) : List Log.Event := [
  { level := .debug
    target := "observe::tracing"
    message := "initialized tracing"
    fields := [("filter", i.filter)] },
  { level := .info
    target := "bitvote_consensus::run"
    message := "running bitvote consensus"
    fields := [] }]

/-- The event that tells why a run failed. -/
def failureEvent (cause : String) : Log.Event where
  level := .error
  target := "bitvote_consensus::run"
  message := "bitvote consensus failed"
  fields := [("err", cause)]

/-- The settings of a run, from the text of the settings file if one is
given. -/
def settingsOf (i : Invocation) (file : Option String) : Except String Settings :=
  match i.settings with
  | some path => (Settings.ofFile file).mapError (Settings.Error.message path)
  | none => .ok .default

/-- The round description of a run, from the text of the input file. -/
def descriptionOf (i : Invocation) (file : Option String) : Except String RoundDescription :=
  match file with
  | none => .error ("failed to read round input " ++ i.input)
  | some text =>
    match RoundDescription.read? text with
    | some description => .ok description
    | none => .error ("failed to parse round input " ++ i.input)

/-- The report of a run, if it succeeds, and the events on the way. -/
def report (i : Invocation) (settingsFile inputFile : Option String) :
    Except String Report × List Log.Event :=
  match i.settingsOf settingsFile with
  | .error cause => (.error cause, [])
  | .ok settings =>
    match i.descriptionOf inputFile with
    | .error cause => (.error cause, [])
    | .ok description =>
      let (result, events) := Report.ofRound description settings.budget
      (result.mapError (·.message), events)

/-- **Performs an invocation**, given the texts of the settings file and of
the input file as far as they can be read. -/
def perform (i : Invocation) (settingsFile inputFile : Option String) : Transcript :=
  let (result, events) := i.report settingsFile inputFile
  let events := i.openingEvents ++ events
  match result with
  | .ok report => ⟨0, report.toJson.pretty ++ "\n", i.logOf events⟩
  | .error cause => ⟨1, "", i.logOf (events ++ [failureEvent cause])⟩

end Invocation

end BallotConsensus
