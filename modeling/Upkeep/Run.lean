import Upkeep.Run.Pipeline

/-!
# A run

One run from the lock to its end. A run that finds the lock taken leaves everything to the run
that holds it; a run that is not due ends right after it found out. Every other run reports,
records that it settled when it did, carries out a reboot when it is told to, and lets go of the
lock last.

A run that was interrupted, or whose transaction may still go through, has not settled: what is
installed may differ from what was reported, so the next run is not to wait.

## Main definitions

* `Run.run`: the run as a program.
* `Run.Record`: what it comes to.
-/

namespace Upkeep.Run

/-- What a run comes to. -/
structure Record where
  /-- Its result. -/
  result : RunResult
  /-- The states it has been in. -/
  history : List RunState

/-- Whether what is installed may differ from what was reported. -/
def isUnsettled (r : RunResult) : Bool :=
  r.isAbortedWith .interrupted || r.isAbortedWith .transactionStateUnknown

/-- The end of a run at a time. -/
def finishAt (l : Ledger) (time : Instant) : Record :=
  let l := l.update fun r => { r with finishedAt := some (r.finishedAt.getD time) }
  let last := if l.result.outcome == .aborted then RunState.aborted else .done
  ⟨l.result, (l.visit last).history⟩

/-- The end of a run; the time is asked for unless the run has one. -/
def finish (l : Ledger) : Program Record :=
  match l.result.finishedAt with
  | some time => .done (finishAt l time)
  | none => l.call .now fun l time => .done (finishAt l time)

/-- The end of a run that held the lock, if it did. -/
def letGo (locked : Bool) (l : Ledger) : Program Record :=
  if locked then l.call .releaseLock fun l () => finish l else finish l

/-- Carries out a recommended reboot when it is told to. -/
def triggerReboot (s : Settings) (locked : Bool) (l : Ledger) : Program Record :=
  if l.result.reboot.recommended && s.config.commands.triggerReboot && !isUnsettled l.result then
    l.call (.reboot s.config.commands.rebootCommand) fun l answer =>
      letGo locked <| match answer with
        | .ok () => l.update fun r => { r with reboot := { r.reboot with triggered := true } }
        | .error reason =>
          l.warn .reboot .collaborator ("reboot command failed: " ++ reason)
  else letGo locked l

/-- Records when the run settled, if it did. -/
def persist (s : Settings) (reached : Reached) (locked : Bool) (l : Ledger) : Program Record :=
  if reached == .queried && !isUnsettled l.result then
    (l.visit .persisting).call .now fun l now =>
      l.call (.writeMarker now) fun l failure =>
        triggerReboot s locked <| match failure with
          | none => l
          | some reason => l.warn .persist .timestampPersistenceFailure reason
  else triggerReboot s locked l

/-- The warnings about emitters that did not deliver. -/
def warnUndelivered (failed : List (String × String)) (r : RunResult) : RunResult :=
  failed.foldl (fun r (name, reason) =>
    r.warn .emit .emitterFailure (name ++ ": " ++ reason)) r

/-- Reports, and goes on from there. -/
def emit (s : Settings) (reached : Reached) (locked : Bool) (l : Ledger) : Program Record :=
  l.call .now fun l now =>
    let l := (l.update fun r => { r with finishedAt := some now }).visit .emitting
    (Emission.report s.emitters l.result).bind fun summary =>
      persist s reached locked (l.update (warnUndelivered summary.failed))

/-- What follows the stages of a run that took the lock. -/
def conclude (s : Settings) : Ledger × Reached → Program Record
  | (l, .skipped) => (finish l).bind fun record => .ask .releaseLock fun _ => .done record
  | (l, reached) => emit s reached true l

/-- The ledger of a run that starts. -/
def opening (s : Settings) (started : Instant) : Ledger where
  result := RunResult.start (s.config.systemName s.hostName) s.config.mode started
  history := [.idle, .locking]
  cancelled := false

/-- One run. -/
def run (s : Settings) : Program Record :=
  .ask .now fun started =>
    { opening s started.value with cancelled := started.cancelled }.call .acquireLock
      fun l answer =>
        match answer with
        | .ok () => (gate s l).bind (conclude s)
        | .error e =>
          match e with
          | .alreadyRunning _ => finish (l.abort .lock .lockContention e.message)
          | .io .. => emit s .stopped false (l.abort .lock .collaborator e.message)

end Upkeep.Run
