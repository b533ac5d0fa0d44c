import Upkeep.Download.Stage
import Upkeep.Emission
import Upkeep.Marker
import Upkeep.Metadata
import Upkeep.Reboot
import Upkeep.Run.Ledger
import Upkeep.Transaction
import Upkeep.Upgrades

/-!
# The stages of a run

Between the lock and the report a run goes through its stages in a fixed order: the interval
gate, a random sleep, the wait for a network, metadata, query, downloads, transaction, reboot
advice. Each stage is a function that ends with the next one, so what a stage can rely on is what
the stages before it left in the ledger.

A run that got as far as a successful query has done its check, whatever came after.

## Main definitions

* `Run.Settings`, `Run.Reached`.
* `Run.gate`: all stages, from the first.
-/

namespace Upkeep.Run

/-- What a run is set up with. -/
structure Settings where
  /-- The configuration. -/
  config : Config
  /-- The name of the host, for systems without a configured name. -/
  hostName : String
  /-- Whether a timer started the run, so that it first sleeps for a random time. -/
  timer : Bool
  /-- The emitters by name. -/
  emitters : Emission.Settings
  /-- How often the network is looked for at most, whatever the clock says. -/
  patience : Nat

/-- How far a run got. -/
inductive Reached where
  /-- It was not due. -/
  | skipped
  /-- It stopped before the query was answered. -/
  | stopped
  /-- The query was answered. -/
  | queried
  deriving DecidableEq, Repr

/-- The time a metadata command may take. -/
def Settings.metadataLimit (s : Settings) : Span :=
  Span.ofSeconds s.config.commands.metadataTimeoutSecs

/-- The outcome of a run that did what it was asked, apart from failed downloads. -/
def doneOutcome (anyFailed : Bool) : Outcome := if anyFailed then .partialFailure else .completed

/-- Whether what was applied needs a reboot. -/
def adviseReboot (s : Settings) (l : Ledger) : Program (Ledger × Reached) :=
  let l := l.visit .evaluatingReboot
  l.guard (Reboot.advise s.config.commands.reboot l.result.applied) fun l answer =>
    .done <| match answer with
      | none => (l.stop .reboot .interrupted, .queried)
      | some (.error reason) =>
        (l.warn .reboot .collaborator ("reboot check failed: " ++ reason), .queried)
      | some (.ok advice) => (l.update fun r => { r with reboot := advice }, .queried)

/-- Installs the verified artifacts. -/
def applyArtifacts (s : Settings) (report : Download.Report) (l : Ledger) :
    Program (Ledger × Reached) :=
  let anyFailed := !report.failed.isEmpty
  let l := l.visit .applying
  l.guard (Transaction.apply report.succeeded (Span.ofSeconds s.config.apply.timeoutSecs))
    fun l answer =>
      match answer with
      | none => .done (l.stop .apply .interrupted, .queried)
      | some (.ok applied) =>
        adviseReboot s (l.update fun r =>
          { r with applied := applied, outcome := doneOutcome anyFailed })
      | some (.error e) =>
        if e.stateUnknown then
          .done (l.abort .apply .transactionStateUnknown e.message, .queried)
        else if anyFailed then
          adviseReboot s (l.update fun r =>
            { r.fail .apply none .transactionRejected e.message with outcome := .partialFailure })
        else .done (l.abort .apply .transactionRejected e.message, .queried)

/-- The result of a run once its downloads are over. -/
def recordDownloads (report : Download.Report) (r : RunResult) : RunResult :=
  report.failed.foldl
    (fun r f => r.fail .download (some f.candidate.id) .downloadFailure f.rejection.reason)
    { r with downloaded := report.succeeded.map Artifact.candidate }

/-- Downloads the candidates. -/
def download (s : Settings) (l : Ledger) : Program (Ledger × Reached) :=
  let l := l.visit .downloading
  l.guard (Download.all s.config.download l.result.considered) fun l answer =>
    match answer with
    | none => .done (l.stop .download .interrupted, .queried)
    | some report =>
      let l := l.update (recordDownloads report)
      if l.result.mode == .downloadOnly then
        let l := (l.visit .downloadOnlyDone).update fun r =>
          { r with outcome := doneOutcome (!report.failed.isEmpty) }
        .done (l.visit .evaluatingReboot, .queried)
      else applyArtifacts s report l

/-- Looks for upgrades that the usable repositories offer. -/
def query (s : Settings) (available : List String) (l : Ledger) : Program (Ledger × Reached) :=
  let l := l.visit .querying
  l.guard (Upgrades.list s.config.scope s.config.base.excludePkgs available s.metadataLimit)
    fun l answer =>
      match answer with
      | none => .done (l.stop .query .interrupted, .stopped)
      | some (.error e) => .done (l.stop .query e, .stopped)
      | some (.ok candidates) =>
        if candidates.isEmpty then
          .done ((l.visit .upToDate).update fun r => { r with outcome := .upToDate }, .queried)
        else
          let l := l.update fun r => { r with considered := candidates }
          if l.result.mode == .reportOnly then
            let l := l.update fun r => { r with outcome := .completed }
            .done (l.visit .evaluatingReboot, .queried)
          else download s l

/-- The warnings about repositories that dropped out. -/
def warnDegraded (failed : List (String × String)) (r : RunResult) : RunResult :=
  failed.foldl (fun r (id, reason) =>
    r.warn .refresh .partialMetadataDegradation (id ++ ": " ++ reason)) r

/-- Refreshes metadata. -/
def refresh (s : Settings) (l : Ledger) : Program (Ledger × Reached) :=
  (l.visit .refreshing).call .now fun l now =>
    l.guard (Metadata.ensureFresh s.config.base.repos s.config.metadataMaxAge s.metadataLimit now)
      fun l answer =>
        match answer with
        | none => .done (l.stop .refresh .interrupted, .stopped)
        | some (.error e) => .done (l.stop .refresh e, .stopped)
        | some (.ok summary) =>
          query s summary.available (l.update (warnDegraded summary.failed))

/-- Looks for a network until there is one, time is up or patience is at an end; none of them
stops the run. -/
def lookForNetwork (s : Settings) (limit : Span) :
    (patience : Nat) → Ledger → Program (Ledger × Reached)
  | 0, l => refresh s l
  | patience + 1, l =>
    l.guard (Program.call .lookForNetwork) fun l online =>
      match online with
      | none => .done (l.stop .refresh .interrupted, .stopped)
      | some true => refresh s l
      | some false =>
        l.call (.networkOverdue limit) fun l overdue =>
          if overdue then refresh s l
          else
            l.guard (Program.call .sleepBetweenLooks) fun l rested =>
              match rested with
              | none => .done (l.stop .refresh .interrupted, .stopped)
              | some () => lookForNetwork s limit patience l

/-- Waits for a network. -/
def awaitNetwork (s : Settings) (l : Ledger) : Program (Ledger × Reached) :=
  let seconds := s.config.commands.networkOnlineTimeoutSecs
  if seconds == 0 then refresh s l
  else lookForNetwork s (Span.ofSeconds seconds) s.patience l

/-- Sleeps for a random time when a timer started the run. -/
def sleepFirst (s : Settings) (l : Ledger) : Program (Ledger × Reached) :=
  let most := s.config.commands.randomSleepSecs
  if s.timer && most != 0 then
    l.guard (Program.call (.sleepRandomly most)) fun l rested =>
      match rested with
      | none => .done (l.stop .intervalCheck .interrupted, .stopped)
      | some () => awaitNetwork s l
  else awaitNetwork s l

/-- Why a run is not due. -/
def notDueReason : Option Instant → String
  | some last => "last run at " ++ last.text
  | none => "last run too recent"

/-- Lets a run pass that is due, and skips it otherwise. -/
def gate (s : Settings) (l : Ledger) : Program (Ledger × Reached) :=
  (l.visit .intervalCheck).call .readMarker fun l last =>
    if Marker.isDue last l.result.startedAt s.config.minInterval then sleepFirst s l
    else
      let l := l.update fun r => { r with outcome := .skipped }
      .done (l.warn .intervalCheck .intervalNotElapsed (notDueReason last), .skipped)

end Upkeep.Run
