import Upkeep.CommandLine
import Upkeep.Files

/-!
# The configuration file

The settings of a run: those of the file, checked, with the command line's word on downloading
and applying on top. Without a file the defaults hold.

## Main definitions

* `ConfigError`.
* `ConfigFile.load`, `ConfigFile.loadFor`.
-/

namespace Upkeep

/-- Why there is no configuration. -/
inductive ConfigError where
  /-- The file cannot be read. -/
  | unreadable (path : String) (cause : IoCause)
  /-- The file is no configuration. -/
  | malformed (path : String)
  /-- The settings lack something. -/
  | invalid (problem : Config.Problem)
  deriving DecidableEq, Repr

/-- The message; what exactly is wrong with a malformed file is left open. -/
def ConfigError.message : ConfigError → String
  | .unreadable path cause => "Failed to read config " ++ path ++ ": " ++ cause.text
  | .malformed path => "Failed to parse config " ++ path
  | .invalid problem => problem.message

namespace ConfigFile

/-- The checked settings of a file. -/
def load (fs : Files) (path : String) : Except ConfigError Config :=
  if fs.isThere path then
    match fs.readText path with
    | .error cause => .error (.unreadable path cause)
    | .ok text =>
      match Config.parse text with
      | none => .error (.malformed path)
      | some config =>
        match config.check with
        | some problem => .error (.invalid problem)
        | none => .ok config
  else .ok {}

/-- The settings for a command line. -/
def loadFor (fs : Files) (c : CommandLine) : Except ConfigError Config :=
  (load fs c.configPath).map fun config => c.overrideConfig config

end ConfigFile

end Upkeep
