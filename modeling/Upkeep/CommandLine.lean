import Upkeep.Config
import Upkeep.LogFilter

/-!
# The command line

Arguments are read left to right by a machine that keeps what has been given so far and the value
it may still be waiting for. A value is checked when it is settled: before the next option takes
effect, or at the end. Combinations that exclude each other are only looked at in the end, so the
first mistake in the line decides the answer.

Of an option and its opposite the later one stays. Every other option may be given once, except
that `-v` counts.

## Main definitions

* `CommandLine`, `CommandLine.parse`, `CommandLine.UsageError`.
* `CommandLine.configPath`, `CommandLine.installOverride`, `CommandLine.downloadOverride`,
  `CommandLine.logFilter`: what a run reads off the command line.
-/

namespace Upkeep

/-- What the command line said. -/
structure CommandLine where
  /-- The file given without an option. -/
  configFile : Option String := none
  /-- The file given with `-c`. -/
  config : Option String := none
  /-- Whether this is a timer's run. -/
  timer : Bool := false
  /-- Whether `--installupdates` stands. -/
  installUpdates : Bool := false
  /-- Whether `--no-installupdates` stands. -/
  noInstallUpdates : Bool := false
  /-- Whether `--downloadupdates` stands. -/
  downloadUpdates : Bool := false
  /-- Whether `--no-downloadupdates` stands. -/
  noDownloadUpdates : Bool := false
  /-- How often `-v` was given, at most 255. -/
  verbose : Nat := 0
  /-- Whether `-q` was given. -/
  quiet : Bool := false
  /-- Whether to print the result as JSON. -/
  json : Bool := false
  deriving DecidableEq, Repr

namespace CommandLine

/-- Why a command line is not run. -/
inductive UsageError where
  /-- An argument nothing takes. -/
  | unknownArgument
  /-- Arguments that exclude each other, or one given too often. -/
  | argumentConflict
  /-- A missing or empty value. -/
  | invalidValue
  /-- A value for an option that takes none. -/
  | tooManyValues
  /-- Help was asked for. -/
  | displayHelp
  /-- The version was asked for. -/
  | displayVersion
  deriving DecidableEq, Repr

/-- The name of the reason. -/
def UsageError.name : UsageError → String
  | .unknownArgument => "UnknownArgument"
  | .argumentConflict => "ArgumentConflict"
  | .invalidValue => "InvalidValue"
  | .tooManyValues => "TooManyValues"
  | .displayHelp => "DisplayHelp"
  | .displayVersion => "DisplayVersion"

/-- The options that take no value. -/
inductive Flag where
  /-- `--timer` -/
  | timer
  /-- `--installupdates` -/
  | installUpdates
  /-- `--no-installupdates` -/
  | noInstallUpdates
  /-- `--downloadupdates` -/
  | downloadUpdates
  /-- `--no-downloadupdates` -/
  | noDownloadUpdates
  /-- `-v`, `--verbose` -/
  | verbose
  /-- `-q`, `--quiet` -/
  | quiet
  /-- `--json` -/
  | json
  /-- `-h`, `--help` -/
  | help
  /-- `-V`, `--version` -/
  | version
  deriving DecidableEq, Repr

/-- The long names of the options that take no value. -/
def Flag.ofLong : String → Option Flag
  | "timer" => some .timer
  | "installupdates" => some .installUpdates
  | "no-installupdates" => some .noInstallUpdates
  | "downloadupdates" => some .downloadUpdates
  | "no-downloadupdates" => some .noDownloadUpdates
  | "verbose" => some .verbose
  | "quiet" => some .quiet
  | "json" => some .json
  | "help" => some .help
  | "version" => some .version
  | _ => none

/-- The short names of the options that take no value. -/
def Flag.ofShort : Char → Option Flag
  | 'v' => some .verbose
  | 'q' => some .quiet
  | 'h' => some .help
  | 'V' => some .version
  | _ => none

/-- Which of the two ways to name the configuration file a value belongs to. -/
inductive Target where
  /-- The option. -/
  | option
  /-- The argument without an option. -/
  | positional
  deriving DecidableEq, Repr

/-- The machine's state. -/
structure State where
  /-- What has been given. -/
  given : CommandLine := {}
  /-- A value that is not settled yet; the value itself is missing right after its option. -/
  pending : Option (Target × Option String) := none
  /-- Whether the argument without an option has been seen. -/
  positionalSeen : Bool := false
  /-- Whether `--` ended the options. -/
  optionsEnded : Bool := false

/-- Settles a value: it must be there, its option must be new, and it must not be empty. -/
def settle (given : CommandLine) (target : Target) (value : Option String) :
    Except UsageError CommandLine :=
  match value with
  | none => .error .invalidValue
  | some v =>
    match target with
    | .option =>
      if given.config.isSome then .error .argumentConflict
      else if v == "" then .error .invalidValue
      else .ok { given with config := some v }
    | .positional =>
      if given.configFile.isSome then .error .argumentConflict
      else if v == "" then .error .invalidValue
      else .ok { given with configFile := some v }

/-- Settles the value that is not settled yet, if there is one. -/
def settlePending (st : State) : Except UsageError State :=
  match st.pending with
  | none => .ok st
  | some (target, value) => do
    let given ← settle st.given target value
    .ok { st with given := given, pending := none }

/-- What an option does. -/
def applyFlag (c : CommandLine) : Flag → Except UsageError CommandLine
  | .timer => if c.timer then .error .argumentConflict else .ok { c with timer := true }
  | .installUpdates =>
    if c.installUpdates then .error .argumentConflict
    else .ok { c with installUpdates := true, noInstallUpdates := false }
  | .noInstallUpdates =>
    if c.noInstallUpdates then .error .argumentConflict
    else .ok { c with noInstallUpdates := true, installUpdates := false }
  | .downloadUpdates =>
    if c.downloadUpdates then .error .argumentConflict
    else .ok { c with downloadUpdates := true, noDownloadUpdates := false }
  | .noDownloadUpdates =>
    if c.noDownloadUpdates then .error .argumentConflict
    else .ok { c with noDownloadUpdates := true, downloadUpdates := false }
  | .verbose => .ok { c with verbose := min (c.verbose + 1) 255 }
  | .quiet => if c.quiet then .error .argumentConflict else .ok { c with quiet := true }
  | .json => if c.json then .error .argumentConflict else .ok { c with json := true }
  | .help => .error .displayHelp
  | .version => .error .displayVersion

/-- Takes an option without a value. -/
def takeFlag (st : State) (flag : Flag) : Except UsageError State := do
  let st ← settlePending st
  .ok { st with given := ← applyFlag st.given flag }

/-- Takes the option for the configuration file, with the value attached to it, if any. -/
def takeConfig (st : State) (attached : Option String) : Except UsageError State := do
  let st ← settlePending st
  match attached with
  | some v => .ok { st with given := ← settle st.given .option (some v) }
  | none => .ok { st with pending := some (.option, none) }

/-- Takes a long option, given its name and the value after its equals sign. -/
def takeLong (st : State) (name : String) (value : Option String) : Except UsageError State :=
  if name == "config" then takeConfig st value
  else match Flag.ofLong name with
    | none => .error .unknownArgument
    | some flag =>
      match value with
      | some _ => .error .tooManyValues
      | none => takeFlag st flag

/-- Takes a cluster of short options. What follows `c` in a cluster is its value. -/
def takeShort (st : State) : List Char → Except UsageError State
  | [] => .ok st
  | c :: rest =>
    if c == 'c' then
      match rest with
      | [] => takeConfig st none
      | '=' :: value => takeConfig st (some (String.ofList value))
      | value => takeConfig st (some (String.ofList value))
    else match Flag.ofShort c with
      | none => .error .unknownArgument
      | some flag => do
        let st ← takeFlag st flag
        takeShort st rest

/-- Takes an argument that is no option. -/
def takePlain (st : State) (arg : String) : Except UsageError State :=
  if st.positionalSeen then .error .unknownArgument
  else do
    let st ← settlePending st
    .ok { st with pending := some (.positional, some arg), positionalSeen := true }

/-- Takes one argument. -/
def take (st : State) (arg : String) : Except UsageError State :=
  if st.optionsEnded then takePlain st arg
  else
    match arg.toList with
    | ['-', '-'] => .ok { st with optionsEnded := true }
    | '-' :: '-' :: long =>
      match Text.cut '=' long with
      | some (name, value) => takeLong st (String.ofList name) (some (String.ofList value))
      | none => takeLong st (String.ofList long) none
    | '-' :: c :: rest => takeShort st (c :: rest)
    | _ =>
      match st.pending with
      | some (.option, none) => .ok { st with pending := some (.option, some arg) }
      | _ => takePlain st arg

/-- Combinations that exclude each other. -/
def conflicts (c : CommandLine) : Bool :=
  (c.config.isSome && c.configFile.isSome) || (c.quiet && 0 < c.verbose)

/-- Reads the arguments after the program's name. -/
def parse (args : List String) : Except UsageError CommandLine := do
  let st ← args.foldlM take {}
  let st ← settlePending st
  if conflicts st.given then .error .argumentConflict else .ok st.given

/-! ### What a run reads off the command line -/

/-- The configuration file. -/
def configPath (c : CommandLine) : String :=
  (c.config.or c.configFile).getD Config.defaultPath

/-- The word on a question that was answered yes, no, or not at all. -/
def flagPair (yes no : Bool) : Option Bool :=
  if yes then some true else if no then some false else none

/-- The word on installing. -/
def installOverride (c : CommandLine) : Option Bool :=
  flagPair c.installUpdates c.noInstallUpdates

/-- The word on downloading. -/
def downloadOverride (c : CommandLine) : Option Bool :=
  flagPair c.downloadUpdates c.noDownloadUpdates

/-- The level of logging, given the configured one. -/
def logFilter (c : CommandLine) (configured : String) : String :=
  if c.quiet then "error"
  else match c.verbose with
    | 0 => configured
    | 1 => "debug"
    | _ => "trace"

/-- The filter for log messages when the environment may hold one, which then wins if it is
right. -/
def envFilter (c : CommandLine) (configured : String) (environment : Option String) : LogFilter :=
  (environment.bind LogFilter.parse).getD (LogFilter.parseLoosely (c.logFilter configured))

/-- A configuration with the command line's word on installing and downloading. -/
def overrideConfig (c : CommandLine) (config : Config) : Config :=
  config.override c.downloadOverride c.installOverride

end CommandLine

end Upkeep
