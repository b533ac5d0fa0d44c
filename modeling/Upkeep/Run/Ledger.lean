import Upkeep.Program

/-!
# The ledger of a run

What a run carries along: the result so far, the states it has been in, and whether cancellation
has been requested. Every request of a run goes through the ledger, so none of them loses sight
of cancellation.

## Main definitions

* `RunState`, `Ledger`.
* `Ledger.call`, `Ledger.guard`: a request, and a stage that cancellation interrupts.
-/

namespace Upkeep

/-- The states of a run. -/
inductive RunState where
  /-- Not started. -/
  | idle
  /-- Taking the lock. -/
  | locking
  /-- Checking the last-run marker. -/
  | intervalCheck
  /-- Refreshing metadata. -/
  | refreshing
  /-- Querying upgrades. -/
  | querying
  /-- Nothing to upgrade. -/
  | upToDate
  /-- Downloading. -/
  | downloading
  /-- Applying. -/
  | applying
  /-- Downloaded, and not to be applied. -/
  | downloadOnlyDone
  /-- Deciding about a reboot. -/
  | evaluatingReboot
  /-- Reporting. -/
  | emitting
  /-- Writing the last-run marker. -/
  | persisting
  /-- Ended. -/
  | done
  /-- Ended early. -/
  | aborted
  deriving DecidableEq, Repr

/-- The name of a state. -/
def RunState.name : RunState → String
  | .idle => "Idle"
  | .locking => "Locking"
  | .intervalCheck => "IntervalCheck"
  | .refreshing => "Refreshing"
  | .querying => "Querying"
  | .upToDate => "UpToDate"
  | .downloading => "Downloading"
  | .applying => "Applying"
  | .downloadOnlyDone => "DownloadOnlyDone"
  | .evaluatingReboot => "EvaluatingReboot"
  | .emitting => "Emitting"
  | .persisting => "Persisting"
  | .done => "Done"
  | .aborted => "Aborted"

/-- What a run carries along. -/
structure Ledger where
  /-- The result so far. -/
  result : RunResult
  /-- The states it has been in. -/
  history : List RunState
  /-- Whether cancellation has been requested. -/
  cancelled : Bool

namespace Ledger

/-- The run is in another state. -/
def visit (l : Ledger) (s : RunState) : Ledger := { l with history := l.history ++ [s] }

/-- The result changes. -/
def update (l : Ledger) (f : RunResult → RunResult) : Ledger := { l with result := f l.result }

/-- The run is aborted. -/
def abort (l : Ledger) (stage : Stage) (kind : FailureKind) (reason : String) : Ledger :=
  l.update fun r => r.abort stage kind reason

/-- The run is aborted by what stopped a stage. -/
def stop (l : Ledger) (stage : Stage) (e : RunError) : Ledger := l.abort stage e.kind e.message

/-- A warning. -/
def warn (l : Ledger) (stage : Stage) (kind : FailureKind) (reason : String) : Ledger :=
  l.update fun r => r.warn stage kind reason

/-- A request outside the guarded stages. -/
def call {β : Type} (l : Ledger) (q : Request) (next : Ledger → q.Reply → Program β) :
    Program β :=
  .ask q fun a => next { l with cancelled := l.cancelled || a.cancelled } a.value

/-- A stage that cancellation interrupts. -/
def guard {α β : Type} (l : Ledger) (stage : Program α)
    (next : Ledger → Option α → Program β) : Program β :=
  (stage.guarded l.cancelled).bind fun g => next { l with cancelled := g.cancelled } g.value?

end Ledger

end Upkeep
