import Upkeep.Emitters.Email
import Upkeep.Emitters.Notice
import Upkeep.Emitters.ShellCommand
import Upkeep.Emitters.SystemLog

/-!
# Emitters

An emitter is where a report goes. Which ones there are is a matter of configuration, and the
same kind may be there more than once. Only the notice has something to withdraw.

## Main definitions

* `Emitter`, `Emitter.ofConfig`.
* `Emitter.emit`, `Emitter.clear`.
-/

namespace Upkeep

/-- Where a report goes. -/
inductive Emitter where
  /-- To whoever started the run. -/
  | console
  /-- Into the system log. -/
  | systemLog (settings : SyslogConfig)
  /-- Into the notice file. -/
  | notice (path : String)
  /-- To a command. -/
  | command (settings : CommandConfig)
  /-- To a command that mails it. -/
  | mailCommand (settings : CommandEmailConfig)
  /-- By mail. -/
  | email (settings : Email)

namespace Emitter

/-- What kind of emitter it is. -/
def kind : Emitter → EmitterKind
  | .console => .stdio
  | .systemLog _ => .syslog
  | .notice _ => .motd
  | .command _ => .command
  | .mailCommand _ => .commandEmail
  | .email _ => .email

/-- Its name. -/
def name (e : Emitter) : String := e.kind.name

/-- The emitter of a kind. -/
def ofKind (c : Config) : EmitterKind → Except EmitError Emitter
  | .stdio => .ok .console
  | .syslog => .ok (.systemLog c.syslog)
  | .motd => .ok (.notice c.motd.path)
  | .command => .ok (.command c.command)
  | .commandEmail => .ok (.mailCommand c.commandEmail)
  | .email => (Email.ofConfig c.email).map .email

/-- The emitters of some kinds, up to the first whose settings are wrong. -/
def ofKinds (c : Config) : List EmitterKind → Except EmitError (List Emitter)
  | [] => .ok []
  | kind :: kinds =>
    match ofKind c kind with
    | .error e => .error e
    | .ok emitter => (ofKinds c kinds).map (emitter :: ·)

/-- The configured emitters. -/
def ofConfig (c : Config) : Except EmitError (List Emitter) := ofKinds c c.emitters.emitVia

/-- Those without a name. -/
def without (name : String) (emitters : List Emitter) : List Emitter :=
  emitters.filter fun e => e.name != name

/-- Whether a result is bad news, which is printed apart. -/
def isBadNews : Outcome → Bool
  | .aborted | .partialFailure => true
  | _ => false

/-- Prints a report. -/
def print (r : RunResult) (report : Report) (m : Machine) : Machine :=
  let text := report.fullText ++ "\n"
  if isBadNews r.outcome then { m with errors := m.errors ++ text }
  else { m with output := m.output ++ text }

/-- Delivers a report. -/
def emit (e : Emitter) (around : Surroundings) (r : RunResult) (report : Report) (m : Machine) :
    Except EmitError Unit × Machine :=
  match e with
  | .console => (.ok (), print r report m)
  | .systemLog c => SystemLog.write c around r m
  | .notice path =>
    let (result, fs) := Notice.publish m.files path report
    (result, m.withFiles fs)
  | .command c => ShellCommand.run around (c.line report) (c.input report) m
  | .mailCommand c => ShellCommand.run around (c.line report) (c.input report) m
  | .email c => c.send around report m

/-- Withdraws what was reported before. -/
def clear (e : Emitter) (m : Machine) : Except EmitError Unit × Machine :=
  match e with
  | .notice path =>
    let (result, fs) := Notice.withdraw m.files path
    (result, m.withFiles fs)
  | _ => (.ok (), m)

end Emitter

end Upkeep
