import Upkeep.Config
import Upkeep.Errors
import Upkeep.Machine
import Upkeep.Report

/-!
# Reports for the system log

One line for each run, handed to `logger`, at a level that follows the run's outcome.

## Main definitions

* `SystemLog.priority`, `SystemLog.command`.
* `SystemLog.write`.
-/

namespace Upkeep.SystemLog

/-- How much an outcome matters. -/
def level : Outcome → String
  | .aborted => "err"
  | .partialFailure => "warning"
  | _ => "info"

/-- The facility and the level of an entry. -/
def priority (facility : String) (outcome : Outcome) : String := facility ++ "." ++ level outcome

/-- The command that writes the entry for a result. -/
def command (c : SyslogConfig) (r : RunResult) : Command where
  program := "logger"
  args := ["-t", c.tag, "-p", priority c.facility r.outcome, "--", Report.summary r]

/-- What came of the command. -/
def outcome : Command.Ending → Except EmitError Unit
  | .refused reason => .error (.io reason)
  | .expired => .error (.command "logger" "given up on")
  | .over status _ errors =>
    if status.isSuccess then .ok ()
    else .error (.command "logger" (Text.trimString (Text.decodeLossy errors)))

/-- Writes the entry for a result. -/
def write (c : SyslogConfig) (around : Surroundings) (r : RunResult) (m : Machine) :
    Except EmitError Unit × Machine :=
  let (ending, m) := m.execute around (command c r) none
  (outcome ending, m)

end Upkeep.SystemLog
