import Upkeep.ConfigFile
import Upkeep.Live.World
import Upkeep.Run

/-!
# The application

The program as it is started: a command line on a machine becomes a run with the machine's package
manager, host and emitters, and the run's result becomes what is printed and the exit code.

A command line that is not understood, a configuration that is none, and an emitter that cannot be
set up end the program before anything is done. With `--json` the result is printed in place of
the report.

## Main definitions

* `Application.run`.
-/

namespace Upkeep.Application

/-- The version. -/
def version : String := "0.4.0"

/-- What the options are. -/
def help : String :=
  "Unattended package update runner\n\nUsage: autopatch [OPTIONS] [CONFIG]\n\n" ++
  "Arguments:\n  [CONFIG]  Configuration file\n\nOptions:\n" ++
  "  -c, --config <PATH>       Configuration file (same as the positional argument)\n" ++
  "      --timer               Sleep a random time before starting (for timers)\n" ++
  "      --installupdates      Install updates regardless of the configuration\n" ++
  "      --no-installupdates   Never install updates\n" ++
  "      --downloadupdates     Download updates regardless of the configuration\n" ++
  "      --no-downloadupdates  Only report available updates\n" ++
  "  -v, --verbose...          More log output (repeatable)\n" ++
  "  -q, --quiet               Errors only\n" ++
  "      --json                Print the run result as JSON instead of the text report\n" ++
  "  -h, --help                Print help\n" ++
  "  -V, --version             Print version\n"

/-- What is wrong with a command line. -/
def usageText : CommandLine.UsageError → String
  | .unknownArgument => "unexpected argument found"
  | .argumentConflict => "these arguments cannot be used together"
  | .invalidValue => "a value is required"
  | .tooManyValues => "unexpected value for an option found"
  | .displayHelp | .displayVersion => ""

/-- What is printed instead of a run, with the exit code. -/
def answerUsage (e : CommandLine.UsageError) (m : Machine) : Nat × Machine :=
  match e with
  | .displayHelp => (0, { m with output := m.output ++ help })
  | .displayVersion => (0, { m with output := m.output ++ "autopatch " ++ version ++ "\n" })
  | _ =>
    (2, { m with errors := m.errors ++ "error: " ++ usageText e ++
      "\n\nFor more information, try '--help'.\n" })

/-- The end of a program that could not begin its run. -/
def fail (reason : String) (m : Machine) : Nat × Machine :=
  (1, { m with errors := m.errors ++ "autopatch: " ++ reason ++ "\n" })

/-- The message about a configuration, with the system's cause at its end. -/
def configMessage (path : String) (e : ConfigError) : String :=
  "Cannot load configuration " ++ path ++ ": " ++ e.message ++
    match e with
    | .unreadable _ cause => ": " ++ cause.text
    | _ => ""

/-- The emitters of a run: what `--json` prints takes the place of the report. -/
def emittersFor (c : CommandLine) (emitters : List Emitter) : List Emitter :=
  if c.json then Emitter.without EmitterKind.stdio.name emitters else emitters

/-- What a run works with. -/
def liveSetup (around : Surroundings) (self : Holder) (config : Config)
    (emitters : List Emitter) : Live.Setup where
  around := around
  manager := {
    metadataLimit := Span.ofSeconds config.commands.metadataTimeoutSecs
    applyLimit := Span.ofSeconds config.apply.timeoutSecs }
  emitters := emitters
  lockPath := config.state.lockPath
  markerPath := config.state.timestampPath
  self := self

/-- How often the network is looked for at most: once a second, and once more. -/
def patience (config : Config) : Nat :=
  config.commands.networkOnlineTimeoutSecs / Live.lookInterval.seconds + 2

/-- What a run is set up with. -/
def runSettings (self : Holder) (c : CommandLine) (config : Config) (emitters : List Emitter) :
    Run.Settings where
  config := config
  hostName := self.host
  timer := c.timer
  emitters := ⟨emitters.map Emitter.name, config.emitters.emitWhenUpToDate,
    Span.ofSeconds config.emitters.timeoutSecs⟩
  patience := patience config

/-- A run, and what is printed after it. -/
def runWith (around : Surroundings) (self : Holder) (c : CommandLine) (config : Config)
    (emitters : List Emitter) (m : Machine) : Nat × Machine :=
  let setup := liveSetup around self config emitters
  let (record, s) := (Run.run (runSettings self c config emitters)).run (Live.answer setup)
    { machine := m, started := self.acquiredAt }
  let r := record.result
  let m := s.machine
  (r.exitCode, if c.json then { m with output := m.output ++ r.toJson.pretty ++ "\n" } else m)

/-- The program: answers its exit code. `self` says which process it is, on which host, and what
time it is. -/
def run (around : Surroundings) (self : Holder) (args : List String) (m : Machine) :
    Nat × Machine :=
  match CommandLine.parse args with
  | .error e => answerUsage e m
  | .ok c =>
    match ConfigFile.loadFor m.files c with
    | .error e => fail (configMessage c.configPath e) m
    | .ok config =>
      match Emitter.ofConfig config with
      | .error e => fail ("Invalid emitter configuration: " ++ e.message) m
      | .ok emitters => runWith around self c config (emittersFor c emitters) m

end Upkeep.Application
