import Upkeep.Candidate
import Upkeep.Time.Instant

/-!
# The result of a run

A run builds one result: what it considered, downloaded and applied, what failed and what was
contained, its outcome, and the reboot recommendation. Emitters report it, the exit status is
read off it, and it is what `--json` prints.

Failures affected the outcome; warnings did not. A failure that belongs to one candidate names
its package, and only those count as failed packages.

## Main definitions

* `FailureKind`, `Stage`, `Mode`, `Outcome`, `FailureRecord`, `RebootAdvice`, `RunResult`.
* `RunResult.abort`: the first abort decides the kind.
* `RunResult.exitCode`.
* `RunResult.toJson`, `RunResult.ofJson`: the stored form.
-/

namespace Upkeep

/-- What can go wrong during a run. -/
inductive FailureKind where
  /-- Another run holds the lock. -/
  | lockContention
  /-- The last run is too recent. -/
  | intervalNotElapsed
  /-- No repository has usable metadata. -/
  | metadataUnavailable
  /-- Some repositories failed to refresh. -/
  | partialMetadataDegradation
  /-- One candidate failed to download or did not match its checksum. -/
  | downloadFailure
  /-- The package manager refused the transaction. -/
  | transactionRejected
  /-- The transaction was given up on while it may still be running. -/
  | transactionStateUnknown
  /-- One emitter failed to deliver the report. -/
  | emitterFailure
  /-- The last-run marker could not be written. -/
  | timestampPersistenceFailure
  /-- The run was cancelled. -/
  | interrupted
  /-- A collaborator failed in some other way. -/
  | collaborator
  deriving DecidableEq, Repr, Inhabited

namespace FailureKind

/-- The stored name. -/
def name : FailureKind → String
  | .lockContention => "lock_contention"
  | .intervalNotElapsed => "interval_not_elapsed"
  | .metadataUnavailable => "metadata_unavailable"
  | .partialMetadataDegradation => "partial_metadata_degradation"
  | .downloadFailure => "download_failure"
  | .transactionRejected => "transaction_rejected"
  | .transactionStateUnknown => "transaction_state_unknown"
  | .emitterFailure => "emitter_failure"
  | .timestampPersistenceFailure => "timestamp_persistence_failure"
  | .interrupted => "interrupted"
  | .collaborator => "collaborator"

/-- Every kind. -/
def all : List FailureKind :=
  [.lockContention, .intervalNotElapsed, .metadataUnavailable, .partialMetadataDegradation,
    .downloadFailure, .transactionRejected, .transactionStateUnknown, .emitterFailure,
    .timestampPersistenceFailure, .interrupted, .collaborator]

/-- Reads the stored name. -/
def ofJson : Json → Option FailureKind := Json.asChoice (all.map (fun k => (k.name, k)))

/-- Whether a failure of this kind stops the rest of the pipeline. -/
def isFatal : FailureKind → Bool
  | .lockContention | .metadataUnavailable | .transactionRejected | .transactionStateUnknown
  | .interrupted | .collaborator => true
  | _ => false

end FailureKind

/-- The part of a run a failure belongs to. -/
inductive Stage where
  /-- Taking the lock. -/
  | lock
  /-- Checking the last-run marker. -/
  | intervalCheck
  /-- Refreshing metadata. -/
  | refresh
  /-- Querying upgrades. -/
  | query
  /-- Downloading. -/
  | download
  /-- Applying. -/
  | apply
  /-- Deciding about and triggering a reboot. -/
  | reboot
  /-- Reporting. -/
  | emit
  /-- Writing the last-run marker. -/
  | persist
  deriving DecidableEq, Repr, Inhabited

namespace Stage

/-- The stored name. -/
def name : Stage → String
  | .lock => "lock"
  | .intervalCheck => "interval_check"
  | .refresh => "refresh"
  | .query => "query"
  | .download => "download"
  | .apply => "apply"
  | .reboot => "reboot"
  | .emit => "emit"
  | .persist => "persist"

/-- Every stage, in the order of a run. -/
def all : List Stage :=
  [.lock, .intervalCheck, .refresh, .query, .download, .apply, .reboot, .emit, .persist]

/-- Reads the stored name. -/
def ofJson : Json → Option Stage := Json.asChoice (all.map (fun k => (k.name, k)))

end Stage

/-- What a run does with the candidates it finds. -/
inductive Mode where
  /-- Only reports them. -/
  | reportOnly
  /-- Downloads them. -/
  | downloadOnly
  /-- Downloads and applies them. -/
  | apply
  deriving DecidableEq, Repr, Inhabited

namespace Mode

/-- The stored name. -/
def name : Mode → String
  | .reportOnly => "report-only"
  | .downloadOnly => "download-only"
  | .apply => "apply"

/-- Every mode. -/
def all : List Mode := [.reportOnly, .downloadOnly, .apply]

/-- Reads the stored name. -/
def ofJson : Json → Option Mode := Json.asChoice (all.map (fun k => (k.name, k)))

end Mode

/-- How a run ended. -/
inductive Outcome where
  /-- Not due. -/
  | skipped
  /-- Nothing to upgrade. -/
  | upToDate
  /-- Everything the mode asks for was done. -/
  | completed
  /-- Some candidates failed. -/
  | partialFailure
  /-- Stopped early. -/
  | aborted
  deriving DecidableEq, Repr, Inhabited

namespace Outcome

/-- The stored name. -/
def name : Outcome → String
  | .skipped => "skipped"
  | .upToDate => "up-to-date"
  | .completed => "completed"
  | .partialFailure => "partial-failure"
  | .aborted => "aborted"

/-- Every outcome. -/
def all : List Outcome := [.skipped, .upToDate, .completed, .partialFailure, .aborted]

/-- Reads the stored name. -/
def ofJson : Json → Option Outcome := Json.asChoice (all.map (fun k => (k.name, k)))

end Outcome

/-- One recorded failure or warning. -/
structure FailureRecord where
  /-- The stage it belongs to. -/
  stage : Stage
  /-- The package it belongs to, when it is one candidate's own. -/
  package : Option PackageId
  /-- What went wrong. -/
  kind : FailureKind
  /-- The details. -/
  reason : String
  deriving DecidableEq, Repr

namespace FailureRecord

/-- The stored form; a failure of no package in particular has no such member. -/
def toJson (f : FailureRecord) : Json :=
  Json.record ([("stage", .text f.stage.name)] ++
    (match f.package with
      | some p => [("package", p.toJson)]
      | none => []) ++
    [("kind", .text f.kind.name), ("reason", .text f.reason)])

/-- Reads the stored form. -/
def ofJson (j : Json) : Option FailureRecord := do
  let r ← Json.asRecord ["stage", "package", "kind", "reason"] j
  let stage ← r.required "stage" Stage.ofJson
  let package ← r.defaulted "package" PackageId.ofJson
  let kind ← r.required "kind" FailureKind.ofJson
  let reason ← r.required "reason" Json.asText
  some ⟨stage, package, kind, reason⟩

end FailureRecord

/-- Whether the host should be rebooted, why, and whether that was done. -/
structure RebootAdvice where
  /-- Whether a reboot is recommended. -/
  recommended : Bool
  /-- Why; empty when it is not recommended. -/
  reason : String
  /-- Whether the reboot command ran and succeeded. -/
  triggered : Bool
  deriving DecidableEq, Repr, Inhabited

namespace RebootAdvice

/-- No reboot. -/
def none : RebootAdvice := ⟨false, "", false⟩

/-- The stored form. -/
def toJson (a : RebootAdvice) : Json :=
  Json.record [("recommended", .bool a.recommended), ("reason", .text a.reason),
    ("triggered", .bool a.triggered)]

/-- Reads the stored form; `triggered` may be missing. -/
def ofJson (j : Json) : Option RebootAdvice := do
  let r ← Json.asRecord ["recommended", "reason", "triggered"] j
  let recommended ← r.required "recommended" Json.asBool
  let reason ← r.required "reason" Json.asText
  let triggered ← r.orElse "triggered" false Json.asBool
  some ⟨recommended, reason, triggered⟩

end RebootAdvice

/-- Everything a run did. -/
structure RunResult where
  /-- When it started. -/
  startedAt : Instant
  /-- When it finished, once it has. -/
  finishedAt : Option Instant
  /-- The system it ran on. -/
  systemName : String
  /-- What it was asked to do. -/
  mode : Mode
  /-- How it ended. -/
  outcome : Outcome
  /-- Why it was aborted, when it was. -/
  abortKind : Option FailureKind
  /-- The candidates in scope. -/
  considered : List Candidate
  /-- The candidates whose artifacts were downloaded and verified. -/
  downloaded : List Candidate
  /-- The candidates that were applied. -/
  applied : List Candidate
  /-- Failures that affected the outcome. -/
  failures : List FailureRecord
  /-- Problems that were contained. -/
  warnings : List FailureRecord
  /-- The reboot recommendation. -/
  reboot : RebootAdvice
  deriving DecidableEq, Repr

namespace RunResult

/-- The result of a run that has done nothing yet. -/
def start (systemName : String) (mode : Mode) (startedAt : Instant) : RunResult where
  startedAt := startedAt
  finishedAt := none
  systemName := systemName
  mode := mode
  outcome := .completed
  abortKind := none
  considered := []
  downloaded := []
  applied := []
  failures := []
  warnings := []
  reboot := RebootAdvice.none

/-- Records a failure. -/
def fail (r : RunResult) (stage : Stage) (package : Option PackageId) (kind : FailureKind)
    (reason : String) : RunResult :=
  { r with failures := r.failures ++ [⟨stage, package, kind, reason⟩] }

/-- Records a warning. -/
def warn (r : RunResult) (stage : Stage) (kind : FailureKind) (reason : String) : RunResult :=
  { r with warnings := r.warnings ++ [⟨stage, none, kind, reason⟩] }

/-- Marks the run aborted; the kind of the first abort stays. -/
def abort (r : RunResult) (stage : Stage) (kind : FailureKind) (reason : String) : RunResult :=
  { r.fail stage none kind reason with
    outcome := .aborted
    abortKind := r.abortKind.or (some kind) }

/-- The failures that belong to one candidate each. -/
def failedPackages (r : RunResult) : List FailureRecord :=
  r.failures.filter (fun f => f.package.isSome)

/-- How many candidates failed. -/
def failedCount (r : RunResult) : Nat := r.failedPackages.length

/-- Whether the run found anything to report. -/
def hasChanges (r : RunResult) : Bool := !r.considered.isEmpty

/-- Whether the run was aborted for a given reason. -/
def isAbortedWith (r : RunResult) (kind : FailureKind) : Bool :=
  r.outcome == .aborted && r.abortKind == some kind

/-- The exit status: 100 when there was something to report, 75 when another run held the lock,
130 when the run was interrupted. -/
def exitCode (r : RunResult) : Nat :=
  match r.outcome with
  | .skipped | .upToDate => 0
  | .completed => if r.hasChanges then 100 else 0
  | .partialFailure => 2
  | .aborted =>
    match r.abortKind with
    | some .lockContention => 75
    | some .interrupted => 130
    | _ => 1

/-- The stored form. -/
def toJson (r : RunResult) : Json :=
  Json.record ([("started_at", .text r.startedAt.storedText)] ++
    (match r.finishedAt with
      | some instant => [("finished_at", .text instant.storedText)]
      | none => []) ++
    [("system_name", .text r.systemName), ("mode", .text r.mode.name),
      ("outcome", .text r.outcome.name)] ++
    (match r.abortKind with
      | some k => [("abort_kind", .text k.name)]
      | none => []) ++
    [("considered", .array (r.considered.map Candidate.toJson)),
      ("downloaded", .array (r.downloaded.map Candidate.toJson)),
      ("applied", .array (r.applied.map Candidate.toJson)),
      ("failures", .array (r.failures.map FailureRecord.toJson)),
      ("warnings", .array (r.warnings.map FailureRecord.toJson)),
      ("reboot", r.reboot.toJson)])

/-- Reads an instant in its stored form. -/
def instantOfJson (j : Json) : Option Instant := (Json.asText j).bind Instant.parse

/-- Reads the stored form. -/
def ofJson (j : Json) : Option RunResult := do
  let r ← Json.asRecord ["started_at", "finished_at", "system_name", "mode", "outcome",
    "abort_kind", "considered", "downloaded", "applied", "failures", "warnings", "reboot"] j
  let startedAt ← r.required "started_at" instantOfJson
  let finishedAt ← r.defaulted "finished_at" instantOfJson
  let systemName ← r.required "system_name" Json.asText
  let mode ← r.required "mode" Mode.ofJson
  let outcome ← r.required "outcome" Outcome.ofJson
  let abortKind ← r.defaulted "abort_kind" FailureKind.ofJson
  let considered ← r.required "considered" (Json.asList Candidate.ofJson)
  let downloaded ← r.required "downloaded" (Json.asList Candidate.ofJson)
  let applied ← r.required "applied" (Json.asList Candidate.ofJson)
  let failures ← r.required "failures" (Json.asList FailureRecord.ofJson)
  let warnings ← r.required "warnings" (Json.asList FailureRecord.ofJson)
  let reboot ← r.required "reboot" RebootAdvice.ofJson
  some ⟨startedAt, finishedAt, systemName, mode, outcome, abortKind, considered, downloaded,
    applied, failures, warnings, reboot⟩

end RunResult

end Upkeep
