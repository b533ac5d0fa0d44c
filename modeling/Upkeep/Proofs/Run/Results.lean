import Upkeep.Run

/-!
# What a run writes into its result

The loops that record something for each element of a list, as one append each, and the part of a
result that is settled before the run closes. `RunResult.deeds` is a result without what closing
may still add to it: an end, warnings, a reboot. Whether a run is settled and what its exit status
is are matters of its deeds.

## Main definitions

* `RunResult.deeds`, `RunResult.frame`.

## Main results

* `Run.recordDownloads_eq`, `Run.warnDegraded_eq`, `Run.warnUndelivered_eq`: what the loops write.
-/

namespace Upkeep

namespace RunResult

variable {α : Type}

theorem foldl_warn (record : α → FailureRecord) (as : List α) (r : RunResult) :
    as.foldl (fun r a => { r with warnings := r.warnings ++ [record a] }) r =
      { r with warnings := r.warnings ++ as.map record } := by
  induction as generalizing r with
  | nil => simp
  | cons a as ih => simp [ih]

theorem foldl_fail (record : α → FailureRecord) (as : List α) (r : RunResult) :
    as.foldl (fun r a => { r with failures := r.failures ++ [record a] }) r =
      { r with failures := r.failures ++ as.map record } := by
  induction as generalizing r with
  | nil => simp
  | cons a as ih => simp [ih]

/-- A result without what may be added to it after the stages. -/
def deeds (r : RunResult) : RunResult :=
  { r with finishedAt := none, warnings := [], reboot := RebootAdvice.none }

/-- The part of a result that no stage changes. -/
def frame (r : RunResult) : Instant × Option Instant × String × Mode :=
  (r.startedAt, r.finishedAt, r.systemName, r.mode)

end RunResult

namespace Run

/-- The record of a candidate that was not downloaded. -/
def downloadFailure (f : Download.Failure) : FailureRecord :=
  ⟨.download, some f.candidate.id, .downloadFailure, f.rejection.reason⟩

theorem recordDownloads_eq (report : Download.Report) (r : RunResult) :
    recordDownloads report r =
      { r with
        downloaded := report.succeeded.map Artifact.candidate
        failures := r.failures ++ report.failed.map downloadFailure } :=
  RunResult.foldl_fail downloadFailure _ _

@[simp] theorem mode_recordDownloads (report : Download.Report) (r : RunResult) :
    (recordDownloads report r).mode = r.mode := by
  rw [recordDownloads_eq]

@[simp] theorem considered_recordDownloads (report : Download.Report) (r : RunResult) :
    (recordDownloads report r).considered = r.considered := by
  rw [recordDownloads_eq]

theorem warnDegraded_eq (failed : List (String × String)) (r : RunResult) :
    warnDegraded failed r =
      { r with
        warnings := r.warnings ++ failed.map fun f =>
          ⟨.refresh, none, .partialMetadataDegradation, f.1 ++ ": " ++ f.2⟩ } :=
  RunResult.foldl_warn _ _ _

/-- The warning about an emitter that did not deliver. -/
def undelivered (f : String × String) : FailureRecord :=
  ⟨.emit, none, .emitterFailure, f.1 ++ ": " ++ f.2⟩

theorem warnUndelivered_eq (failed : List (String × String)) (r : RunResult) :
    warnUndelivered failed r = { r with warnings := r.warnings ++ failed.map undelivered } :=
  RunResult.foldl_warn undelivered _ _

theorem isUnsettled_deeds (r : RunResult) : isUnsettled r.deeds = isUnsettled r := rfl

theorem deeds_warnUndelivered (failed : List (String × String)) (r : RunResult) :
    (warnUndelivered failed r).deeds = r.deeds := by
  rw [warnUndelivered_eq, RunResult.deeds, RunResult.deeds]

end Run

end Upkeep
