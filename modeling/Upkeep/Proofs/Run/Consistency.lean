import Upkeep.Proofs.Download.Outcomes
import Upkeep.Proofs.Run.Course
import Upkeep.Proofs.Selection

/-!
# The result fits together

The parts of a result are written by a dozen stages, each of which may be the last. What has to
fit is said of the result alone (`RunResult.Consistent`) and of the result beside the history
(`Accounted`): what it says of the downloads is what the download stage reported, if it did.

Until the run has an outcome the result is not consistent, since nothing is completed that has
only begun. `Unfinished` is the part that holds all the way: an abort makes a consistent result of
every such one, whatever the stage, which is why interruptions need no further thought.

## Main definitions

* `RunResult.Consistent`, `DownloadsReturned`, `Accounted`.

## Main results

* `Unfinished.abort`: an abort leaves a consistent result.
* `leads_consistent`: the result of every run is consistent and accounted for.
-/

namespace Upkeep

/-! ### Results that fit together -/

namespace RunResult

/-- The parts of a result fit together. -/
structure Consistent (r : RunResult) : Prop where
  /-- Candidates are considered by name and architecture. -/
  ordered : Selection.Ordered r.considered
  /-- What was downloaded is some of what was considered, in its order. -/
  downloaded : r.downloaded.Sublist r.considered
  /-- All that was downloaded is applied, or nothing. -/
  applied : r.applied = [] ∨ r.applied = r.downloaded
  /-- There is an abort kind just for runs that were aborted. -/
  aborted : r.abortKind.isSome = true ↔ r.outcome = .aborted
  /-- The last failure is the one that aborted the run, and it is no single candidate's. -/
  abort : ∀ kind, r.abortKind = some kind →
    ∃ f, r.failures.getLast? = some f ∧ f.kind = kind ∧ f.package = none
  /-- A completed run did all that its mode asks for. -/
  completed : r.outcome = .completed → r.failures = [] ∧ r.considered ≠ [] ∧
    (r.mode ≠ .reportOnly → r.downloaded = r.considered) ∧
    (r.mode = .apply → r.applied = r.considered)
  /-- A run failed in part because a candidate's download failed. -/
  partialFailure : r.outcome = .partialFailure →
    ∃ f ∈ r.failures, f.package.isSome = true ∧ f.kind = .downloadFailure
  /-- A run that had nothing to do did nothing. -/
  idle : r.outcome = .upToDate ∨ r.outcome = .skipped →
    r.considered = [] ∧ r.downloaded = [] ∧ r.applied = [] ∧ r.failures = []

/-- Nothing has been considered, and nothing has failed. -/
structure Blank (r : RunResult) : Prop where
  /-- No candidate is considered. -/
  considered : r.considered = []
  /-- None was downloaded. -/
  downloaded : r.downloaded = []
  /-- None was applied. -/
  applied : r.applied = []
  /-- Nothing failed. -/
  failures : r.failures = []

/-- What fits together in a result all along: it may still be aborted. -/
structure Unfinished (r : RunResult) : Prop where
  /-- The run was not aborted. -/
  abortKind : r.abortKind = none
  /-- Candidates are considered by name and architecture. -/
  ordered : Selection.Ordered r.considered
  /-- What was downloaded is some of what was considered, in its order. -/
  downloaded : r.downloaded.Sublist r.considered
  /-- All that was downloaded is applied, or nothing. -/
  applied : r.applied = [] ∨ r.applied = r.downloaded

variable {r r' : RunResult}

theorem Blank.unfinished (hb : r.Blank) (hkind : r.abortKind = none) : r.Unfinished where
  abortKind := hkind
  ordered := by
    rw [hb.considered]
    exact Selection.ordered_nil
  downloaded := by
    rw [hb.downloaded]
    exact List.nil_sublist _
  applied := Or.inl hb.applied

/-- A run that ends before it considered anything is consistent. -/
theorem Blank.idle (hb : r.Blank) (hkind : r.abortKind = none)
    (houtcome : r.outcome = .upToDate ∨ r.outcome = .skipped) : r.Consistent where
  ordered := (hb.unfinished hkind).ordered
  downloaded := (hb.unfinished hkind).downloaded
  applied := (hb.unfinished hkind).applied
  aborted := by rcases houtcome with houtcome | houtcome <;> simp [houtcome, hkind]
  abort := by
    intro kind hsome
    rw [hkind] at hsome
    cases hsome
  completed := by rcases houtcome with houtcome | houtcome <;> simp [houtcome]
  partialFailure := by rcases houtcome with houtcome | houtcome <;> simp [houtcome]
  idle := fun _ => ⟨hb.considered, hb.downloaded, hb.applied, hb.failures⟩

/-- **An abort leaves a consistent result**, wherever it happens. -/
theorem Unfinished.abort (hu : r.Unfinished) (stage : Stage) (kind : FailureKind)
    (reason : String) : (r.abort stage kind reason).Consistent where
  ordered := hu.ordered
  downloaded := hu.downloaded
  applied := hu.applied
  aborted := by simp [RunResult.abort]
  abort := by
    intro kind' hkind
    rw [RunResult.abort, hu.abortKind] at hkind
    cases hkind
    exact ⟨⟨stage, none, kind, reason⟩, by simp [RunResult.abort, fail], rfl, rfl⟩
  completed := by simp [RunResult.abort]
  partialFailure := by simp [RunResult.abort]
  idle := by simp [RunResult.abort]

/-- Whether a result fits together is a matter of its deeds. -/
theorem Consistent.of_deeds (hr : r.Consistent) (hdeeds : r'.deeds = r.deeds) :
    r'.Consistent := by
  have hconsistent : r.deeds.Consistent :=
    ⟨hr.ordered, hr.downloaded, hr.applied, hr.aborted, hr.abort, hr.completed, hr.partialFailure,
      hr.idle⟩
  rw [← hdeeds] at hconsistent
  obtain ⟨hordered, hdownloaded, happlied, haborted, habort, hcompleted, hpartial, hidle⟩ :=
    hconsistent
  exact ⟨hordered, hdownloaded, happlied, haborted, habort, hcompleted, hpartial, hidle⟩

/-- The exit status tells how a run ended. -/
theorem Consistent.exitCode (hr : r.Consistent) :
    (r.exitCode = 0 ↔ r.outcome = .upToDate ∨ r.outcome = .skipped) ∧
      (r.exitCode = 100 ↔ r.outcome = .completed) ∧
      (r.exitCode = 2 ↔ r.outcome = .partialFailure) ∧
      (r.exitCode = 75 ↔ r.abortKind = some .lockContention) ∧
      (r.exitCode = 130 ↔ r.abortKind = some .interrupted) := by
  have haborted := hr.aborted
  rw [RunResult.exitCode]
  cases houtcome : r.outcome with
  | skipped | upToDate | partialFailure =>
    have hnone : r.abortKind = none := by simpa [houtcome] using haborted
    simp [hnone]
  | completed =>
    have hnone : r.abortKind = none := by simpa [houtcome] using haborted
    have hchanges : r.hasChanges = true := by simp [hasChanges, (hr.completed houtcome).2.1]
    simp [hnone, hchanges]
  | aborted =>
    obtain ⟨kind, hkind⟩ := Option.isSome_iff_exists.mp (haborted.mpr houtcome)
    rw [hkind]
    cases kind <;> simp

end RunResult

namespace Run

/-! ### The result beside the history -/

/-- The download stage reported: the downloads in the history came to a report and were not
interrupted. -/
def DownloadsReturned (s : Settings) (h : History) (considered : List Candidate)
    (report : Download.Report) : Prop :=
  (Download.all s.config.download considered).Passed false (h.during .download) report

/-- What a result says of the downloads is what the download stage reported, if it did. -/
structure Accounted (s : Settings) (h : History) (r : RunResult) : Prop where
  /-- If it reported, every candidate was downloaded or has a failure of its own. -/
  returned : ∀ report, DownloadsReturned s h r.considered report →
    r.downloaded = report.succeeded.map Artifact.candidate ∧
      ∃ failed, Parted r.considered r.downloaded failed ∧
        r.failedPackages.map FailureRecord.package = failed.map fun c => some c.id
  /-- If it did not, no candidate was downloaded or has a failure of its own. -/
  lost : (¬∃ report, DownloadsReturned s h r.considered report) →
    r.downloaded = [] ∧ r.failedPackages = []

section

variable {s : Settings} {h h' : History} {r r' : RunResult} {report : Download.Report}

theorem Accounted.of_during (ha : Accounted s h r)
    (hduring : h'.during .download = h.during .download) : Accounted s h' r := by
  constructor
  · intro report hreturned
    rw [DownloadsReturned, hduring] at hreturned
    exact ha.returned report hreturned
  · intro hlost
    simp only [DownloadsReturned, hduring] at hlost
    exact ha.lost hlost

theorem Accounted.congr (ha : Accounted s h r) (hconsidered : r'.considered = r.considered)
    (hdownloaded : r'.downloaded = r.downloaded)
    (hfailed : r'.failedPackages = r.failedPackages) : Accounted s h r' := by
  constructor
  · rw [hconsidered, hdownloaded, hfailed]
    exact ha.returned
  · rw [hconsidered, hdownloaded, hfailed]
    exact ha.lost

theorem Accounted.of_deeds (ha : Accounted s h r) (hdeeds : r'.deeds = r.deeds) :
    Accounted s h r' := by
  have haccounted : Accounted s h r.deeds := ⟨ha.returned, ha.lost⟩
  rw [← hdeeds] at haccounted
  exact ⟨haccounted.returned, haccounted.lost⟩

theorem Accounted.abort (ha : Accounted s h r) (stage : Stage) (kind : FailureKind)
    (reason : String) : Accounted s h (r.abort stage kind reason) :=
  ha.congr rfl rfl (by simp [RunResult.abort, RunResult.fail, RunResult.failedPackages])

/-- Nothing is lost when the downloads did not report and nothing was recorded of them. -/
theorem Accounted.of_lost (hlost : ∀ report, ¬DownloadsReturned s h r.considered report)
    (hdownloaded : r.downloaded = []) (hfailed : r.failedPackages = []) : Accounted s h r :=
  ⟨fun report hreturned => absurd hreturned (hlost report), fun _ => ⟨hdownloaded, hfailed⟩⟩

/-- A history has one report. -/
theorem Accounted.of_returned (hreturned : DownloadsReturned s h r.considered report)
    (hdownloaded : r.downloaded = report.succeeded.map Artifact.candidate)
    (hfailed : r.failedPackages = report.failed.map downloadFailure) : Accounted s h r := by
  constructor
  · intro report' hreturned'
    obtain rfl : report' = report := hreturned'.2.1.unique hreturned.2.1
    obtain ⟨b, -, hfinished, hcs, rfl⟩ := Download.leads_all hreturned.2.1
    refine ⟨hdownloaded, (Download.Report.ofBoard b).failed.map Download.Failure.candidate, ?_, ?_⟩
    · rw [hdownloaded, ← hcs]
      exact Download.Report.parted hfinished
    · rw [hfailed, List.map_map, List.map_map]
      rfl
  · exact fun hlost => absurd ⟨report, hreturned⟩ hlost

/-- Without downloads nothing is returned, unless there is nothing to download. -/
theorem not_downloadsReturned {cs : List Candidate} (hcs : cs ≠ [])
    (hduring : h.during .download = []) : ¬DownloadsReturned s h cs report := by
  rintro ⟨-, hleads, -⟩
  rw [hduring] at hleads
  exact hcs (Download.leads_all_nil hleads)

theorem Accounted.of_blank (hb : r.Blank) (hduring : h.during .download = []) :
    Accounted s h r := by
  have hfailed : r.failedPackages = [] := by rw [RunResult.failedPackages, hb.failures]; rfl
  constructor
  · intro report hreturned
    rw [DownloadsReturned, hduring, hb.considered] at hreturned
    obtain ⟨b, -, -, hcs, rfl⟩ := Download.leads_all hreturned.2.1
    obtain rfl := List.map_eq_nil_iff.mp hcs
    refine ⟨hb.downloaded, [], ?_, by rw [hfailed]; rfl⟩
    rw [hb.considered, hb.downloaded]
    exact .nil
  · exact fun _ => ⟨hb.downloaded, hfailed⟩

/-! ### The stages keep it so -/

/-- There is something to consider, and nothing has been done about it. -/
structure Offered (r : RunResult) : Prop where
  /-- The run was not aborted. -/
  abortKind : r.abortKind = none
  /-- Candidates are considered by name and architecture. -/
  ordered : Selection.Ordered r.considered
  /-- There are some. -/
  considered : r.considered ≠ []
  /-- None was downloaded. -/
  downloaded : r.downloaded = []
  /-- None was applied. -/
  applied : r.applied = []
  /-- Nothing failed. -/
  failures : r.failures = []

/-- The downloads have been recorded, and no more. -/
structure Recorded (report : Download.Report) (r : RunResult) : Prop where
  /-- The run was not aborted. -/
  abortKind : r.abortKind = none
  /-- Candidates are considered by name and architecture. -/
  ordered : Selection.Ordered r.considered
  /-- There are some. -/
  considered : r.considered ≠ []
  /-- Each was downloaded or failed. -/
  parted : Parted r.considered r.downloaded (report.failed.map Download.Failure.candidate)
  /-- What was downloaded is what the report says. -/
  downloaded : r.downloaded = report.succeeded.map Artifact.candidate
  /-- None was applied. -/
  applied : r.applied = []
  /-- The failures are those of the report. -/
  failures : r.failures = report.failed.map downloadFailure

theorem Offered.unfinished (ho : Offered r) : r.Unfinished where
  abortKind := ho.abortKind
  ordered := ho.ordered
  downloaded := by
    rw [ho.downloaded]
    exact List.nil_sublist _
  applied := Or.inl ho.applied

theorem Recorded.unfinished (hr : Recorded report r) : r.Unfinished where
  abortKind := hr.abortKind
  ordered := hr.ordered
  downloaded := hr.parted.sublist_left
  applied := Or.inl hr.applied

theorem Offered.record (ho : Offered r) (hreturned : DownloadsReturned s h r.considered report) :
    Recorded report (recordDownloads report r) := by
  obtain ⟨b, -, hfinished, hcs, rfl⟩ := Download.leads_all hreturned.2.1
  rw [recordDownloads_eq]
  refine ⟨ho.abortKind, ho.ordered, ho.considered, ?_, rfl, ho.applied, ?_⟩
  · show Parted r.considered _ _
    rw [← hcs]
    exact Download.Report.parted hfinished
  · simp [ho.failures]

theorem Recorded.failedPackages (hr : Recorded report r) :
    r.failedPackages = report.failed.map downloadFailure := by
  rw [RunResult.failedPackages, hr.failures, List.filter_eq_self]
  intro f hf
  obtain ⟨f, -, rfl⟩ := List.mem_map.mp hf
  rfl

/-- Once the downloads have been recorded the run is done, completely or in part. -/
theorem Recorded.done (hr : Recorded report r) {applied : List Candidate}
    (happlied : applied = [] ∨ applied = r.downloaded)
    (hmode : r.mode = .apply → applied = r.downloaded) :
    RunResult.Consistent
      { r with applied := applied, outcome := doneOutcome (!report.failed.isEmpty) } where
  ordered := hr.ordered
  downloaded := hr.parted.sublist_left
  applied := happlied
  aborted := by
    rw [hr.abortKind]
    cases report.failed <;> simp [doneOutcome]
  abort := by
    intro kind hkind
    rw [hr.abortKind] at hkind
    cases hkind
  completed := by
    intro hcompleted
    have hnone : report.failed = [] := by
      cases hfailed : report.failed with
      | nil => rfl
      | cons f fs => simp [doneOutcome, hfailed] at hcompleted
    have hall : r.downloaded = r.considered := by
      have hparted := hr.parted
      rw [hnone] at hparted
      exact hparted.eq_left_of_right_nil
    refine ⟨?_, hr.considered, fun _ => hall, fun happly => (hmode happly).trans hall⟩
    show r.failures = []
    rw [hr.failures, hnone]
    rfl
  partialFailure := by
    intro hpartial
    cases hfailed : report.failed with
    | nil => simp [doneOutcome, hfailed] at hpartial
    | cons f fs =>
      refine ⟨downloadFailure f, ?_, rfl, rfl⟩
      show downloadFailure f ∈ r.failures
      rw [hr.failures, hfailed]
      exact List.mem_cons_self
  idle := by
    intro hidle
    cases hfailed : report.failed <;> simp [doneOutcome, hfailed] at hidle

/-- Once the downloads have been recorded and some failed, a refused transaction adds its own
failure. -/
theorem Recorded.refuse (hr : Recorded report r) (hfailed : report.failed ≠ []) (reason : String) :
    RunResult.Consistent
      { r.fail .apply none .transactionRejected reason with outcome := .partialFailure } where
  ordered := hr.ordered
  downloaded := hr.parted.sublist_left
  applied := Or.inl hr.applied
  aborted := by
    show r.abortKind.isSome = true ↔ _
    simp [hr.abortKind]
  abort := by
    intro kind hkind
    have hnone : r.abortKind = some kind := hkind
    rw [hr.abortKind] at hnone
    cases hnone
  completed := by simp
  partialFailure := by
    intro _
    obtain ⟨f, fs, hcons⟩ := List.exists_cons_of_ne_nil hfailed
    refine ⟨downloadFailure f, ?_, rfl, rfl⟩
    show downloadFailure f ∈ r.failures ++ _
    rw [hr.failures, hcons]
    exact List.mem_append_left _ List.mem_cons_self
  idle := by simp

/-- A transaction that goes through applies all its artifacts. -/
theorem leads_apply {artifacts : List Artifact} {limit : Span} {applied : List Candidate}
    (hl : (Transaction.apply artifacts limit).Leads h (.ok applied)) :
    applied = artifacts.map Artifact.candidate := by
  rw [Transaction.apply] at hl
  split at hl
  · rename_i hempty
    obtain ⟨-, heq⟩ := hl
    cases heq
    rw [List.isEmpty_iff.mp hempty]
    rfl
  · obtain ⟨answer, rest, -, -, heq⟩ := hl
    rcases hanswer : answer.value with (e | ⟨⟩) | _ <;> rw [hanswer] at heq <;> cases heq
    rfl

/-- What holds of the result at each spot. -/
def Holds (s : Settings) (h : History) : Spot → RunResult → Prop
  | .download, r => Offered r ∧ r.mode ≠ .reportOnly ∧ h.during .download = []
  | .transaction report, r =>
    Recorded report r ∧ r.mode = .apply ∧ DownloadsReturned s h r.considered report
  | .advice, r => r.Consistent ∧ r.Unfinished ∧ Accounted s h r
  | _, r => r.Blank ∧ r.abortKind = none ∧ h.during .download = []

theorem Holds.unfinished {p : Spot} (hinv : Holds s h p r) : r.Unfinished := by
  cases p with
  | download => exact hinv.1.unfinished
  | transaction report => exact hinv.1.unfinished
  | advice => exact hinv.2.1
  | _ => exact hinv.1.unfinished hinv.2.1

theorem Holds.accounted {p : Spot} (hinv : Holds s h p r) : Accounted s h r := by
  cases p with
  | download =>
    obtain ⟨hoffered, -, hduring⟩ := hinv
    exact .of_lost (fun report => not_downloadsReturned hoffered.considered hduring)
      hoffered.downloaded (by rw [RunResult.failedPackages, hoffered.failures]; rfl)
  | transaction report =>
    obtain ⟨hrecorded, -, hreturned⟩ := hinv
    exact .of_returned hreturned hrecorded.downloaded hrecorded.failedPackages
  | advice => exact hinv.2.2
  | _ => exact .of_blank hinv.1 hinv.2.2

/-- The first downloads of a history are all of them. -/
theorem downloadsReturned {h₀ : History} {c : Bool} {cs : List Candidate}
    (hduring : h₀.during .download = [])
    (passed : (Download.all s.config.download cs).Passed c h report) :
    DownloadsReturned s (h₀ ++ h) cs report := by
  rw [DownloadsReturned, History.during_append, hduring, List.nil_append,
    History.during_eq_self (passed.keeps (keeps_all _ _))]
  exact ⟨rfl, passed.2⟩

theorem Step.holds {p p' : Spot} {l l' : Ledger} {h₀ : History} (step : Step s p l h p' l')
    (hinv : Holds s h₀ p l.result) : Holds s (h₀ ++ h) p' l'.result := by
  have hquiet := History.during_append_of_ne .download h₀ step.keeps
  cases step with
  | due _ _ | awake _ | slept _ _ | hasty _ | waiting _ | impatient | online _ | overdue _ _ _
  | offline _ _ _ | rested _ | timed _ =>
    obtain ⟨hblank, hkind, hduring⟩ := hinv
    exact ⟨hblank, hkind, (hquiet (by simp)).trans hduring⟩
  | refreshed passed =>
    obtain ⟨hblank, hkind, hduring⟩ := hinv
    rw [Ledger.result_update, warnDegraded_eq]
    exact ⟨⟨hblank.considered, hblank.downloaded, hblank.applied, hblank.failures⟩, hkind,
      (hquiet (by simp)).trans hduring⟩
  | offered passed some wanted =>
    obtain ⟨hblank, hkind, hduring⟩ := hinv
    obtain ⟨answer, offered, -, -, rfl⟩ := Upgrades.leads_list passed.2.1
    exact ⟨⟨hkind, Selection.select_ordered offered, some, hblank.downloaded, hblank.applied,
      hblank.failures⟩, wanted, (hquiet (by simp)).trans hduring⟩
  | downloaded passed wanted =>
    obtain ⟨hoffered, hmode, hduring⟩ := hinv
    rename_i report
    have hreturned : DownloadsReturned s (h₀ ++ h) l.result.considered report :=
      downloadsReturned hduring passed
    have hrecorded := hoffered.record hreturned
    rw [Ledger.result_update, Ledger.result_note, Ledger.result_visit]
    refine ⟨hrecorded, ?_, ?_⟩
    · rw [mode_recordDownloads]
      cases h : l.result.mode with
      | reportOnly => exact absurd h hmode
      | downloadOnly => exact absurd h wanted
      | apply => rfl
    · rw [considered_recordDownloads]
      exact hreturned
  | applied passed =>
    have hunfinished := Holds.unfinished hinv
    have haccounted := (Holds.accounted hinv).of_during (hquiet (by simp))
    obtain ⟨hrecorded, -, -⟩ := hinv
    obtain rfl := leads_apply passed.2.1
    have hall := hrecorded.downloaded.symm
    exact ⟨hrecorded.done (Or.inr hall) fun _ => hall,
      ⟨hunfinished.abortKind, hunfinished.ordered, hunfinished.downloaded, Or.inr hall⟩,
      haccounted.congr rfl rfl rfl⟩
  | refused passed known partly =>
    have hunfinished := Holds.unfinished hinv
    have haccounted := (Holds.accounted hinv).of_during (hquiet (by simp))
    obtain ⟨hrecorded, -, -⟩ := hinv
    exact ⟨hrecorded.refuse partly _,
      ⟨hunfinished.abortKind, hunfinished.ordered, hunfinished.downloaded, hunfinished.applied⟩,
      haccounted.congr rfl rfl (by simp [RunResult.failedPackages, RunResult.fail])⟩

/-- Downloads that are interrupted do not report. -/
theorem Holds.broken {l : Ledger} {h₀ : History} {w : Watch}
    (hinv : Holds s h₀ .download l.result) (watch : Spot.download.watch? s l = some w)
    (broken : w.program.Broken w.ledger.cancelled h) : Accounted s (h₀ ++ h) l.result := by
  cases watch
  obtain ⟨hoffered, -, hduring⟩ := hinv
  have hduring : (h₀ ++ h).during .download = h := by
    rw [History.during_append, hduring, List.nil_append,
      History.during_eq_self (broken.keeps (keeps_all _ _))]
  refine .of_lost ?_ hoffered.downloaded (by rw [RunResult.failedPackages, hoffered.failures]; rfl)
  intro report hreturned
  by_cases hnil : h = []
  · exact not_downloadsReturned hoffered.considered (hduring.trans hnil) hreturned
  · rw [DownloadsReturned, hduring] at hreturned
    exact broken.not_passed hnil report hreturned

theorem Exit.consistent {p : Spot} {l l' : Ledger} {h₀ : History} {reached : Reached}
    (exit : Exit s p l h l' reached) (hinv : Holds s h₀ p l.result) :
    l'.result.Consistent ∧ Accounted s (h₀ ++ h) l'.result := by
  have hquiet := History.during_append_of_ne .download h₀ exit.keeps
  have hunfinished := hinv.unfinished
  have hcarried : p.phase ≠ .download → Accounted s (h₀ ++ h) l.result :=
    fun hp => hinv.accounted.of_during (hquiet hp)
  cases exit with
  | interrupted watch broken =>
    have haccounted : Accounted s (h₀ ++ h) l.result := by
      cases p with
      | download => exact hinv.broken watch broken
      | _ => exact hcarried (by simp)
    rw [Ledger.stop_eq, Ledger.result_update, Ledger.result_note, (Spot.ledger_watch? watch).1]
    exact ⟨hunfinished.abort _ _ _, haccounted.abort _ _ _⟩
  | notDue answer due =>
    obtain ⟨hblank, hkind, -⟩ := hinv
    refine ⟨?_, (hcarried (by simp)).congr rfl rfl rfl⟩
    exact RunResult.Blank.idle
      ⟨hblank.considered, hblank.downloaded, hblank.applied, hblank.failures⟩ hkind (Or.inr rfl)
  | unavailable passed => exact ⟨hunfinished.abort _ _ _, (hcarried (by simp)).abort _ _ _⟩
  | unanswered passed => exact ⟨hunfinished.abort _ _ _, (hcarried (by simp)).abort _ _ _⟩
  | upToDate passed =>
    obtain ⟨hblank, hkind, -⟩ := hinv
    refine ⟨?_, (hcarried (by simp)).congr rfl rfl rfl⟩
    exact RunResult.Blank.idle
      ⟨hblank.considered, hblank.downloaded, hblank.applied, hblank.failures⟩ hkind (Or.inl rfl)
  | reportOnly passed some mode =>
    obtain ⟨hblank, hkind, hduring⟩ := hinv
    obtain ⟨answer, offered, -, -, rfl⟩ := Upgrades.leads_list passed.2.1
    constructor
    · exact {
        ordered := Selection.select_ordered offered
        downloaded := by
          show l.result.downloaded.Sublist _
          rw [hblank.downloaded]
          exact List.nil_sublist _
        applied := Or.inl hblank.applied
        aborted := by
          show l.result.abortKind.isSome = true ↔ Outcome.completed = .aborted
          simp [hkind]
        abort := by
          intro kind hsome
          exact absurd (hkind.symm.trans hsome) (by simp)
        completed := fun _ => ⟨hblank.failures, some, fun hmode => absurd mode hmode,
          fun hmode => absurd (mode.symm.trans hmode) (by simp)⟩
        partialFailure := by simp
        idle := by simp }
    · exact .of_lost (fun report => not_downloadsReturned some ((hquiet (by simp)).trans hduring))
        hblank.downloaded (by rw [RunResult.failedPackages]; exact congrArg _ hblank.failures)
  | downloadOnly passed mode =>
    obtain ⟨hoffered, -, hduring⟩ := hinv
    have hreturned := downloadsReturned hduring passed
    have hrecorded := hoffered.record hreturned
    refine ⟨hrecorded.done (Or.inl hrecorded.applied) fun happly => ?_, ?_⟩
    · rw [mode_recordDownloads, mode] at happly
      cases happly
    · rw [← considered_recordDownloads] at hreturned
      exact .of_returned hreturned hrecorded.downloaded hrecorded.failedPackages
  | stateUnknown passed unknown => exact ⟨hunfinished.abort _ _ _, (hcarried (by simp)).abort _ _ _⟩
  | rejected passed known whole => exact ⟨hunfinished.abort _ _ _, (hcarried (by simp)).abort _ _ _⟩
  | unadvised passed => exact ⟨hinv.1.of_deeds rfl, (hcarried (by simp)).of_deeds rfl⟩
  | advised passed => exact ⟨hinv.1.of_deeds rfl, (hcarried (by simp)).of_deeds rfl⟩

/-- At the gate nothing has been done. -/
theorem holds_begun (started : Answer Instant) (answer : Answer (Except LockError Unit)) :
    Holds s [⟨.now, started⟩, ⟨.acquireLock, answer⟩] .gate (begun s started answer).result :=
  ⟨⟨rfl, rfl, rfl, rfl⟩, rfl, rfl⟩

/-- Once a run has taken the lock, its stages leave a consistent result. -/
theorem Trip.consistent {started : Answer Instant} {answer : Answer (Except LockError Unit)}
    {l : Ledger} {reached : Reached} (ht : Trip s .gate (begun s started answer) h l reached) :
    l.result.Consistent ∧
      Accounted s (⟨.now, started⟩ :: ⟨.acquireLock, answer⟩ :: h) l.result :=
  ht.preserves (fun h p l => Holds s h p l.result)
    (fun h l _ => l.result.Consistent ∧ Accounted s h l.result)
    (fun step hinv => step.holds hinv) (fun exit hinv => exit.consistent hinv)
    [_, _] (holds_begun started answer)

/-- Closing downloads nothing. -/
theorem Closing.during_download {reached : Reached} {locked : Bool} {l : Ledger} {record : Record}
    (hc : Closing s reached locked l h record) : h.during .download = [] := by
  refine History.during_eq_nil fun e he hphase => ?_
  have hkeeps := hc.keeps e he
  rw [hphase] at hkeeps
  exact absurd hkeeps (by decide)

/-- What is consistent at the end of the stages is consistent after closing. -/
theorem Closing.consistent {reached : Reached} {locked : Bool} {l : Ledger} {record : Record}
    (hc : Closing s reached locked l h record) (h₀ : History) (hl : l.result.Consistent)
    (ha : Accounted s h₀ l.result) :
    record.result.Consistent ∧ Accounted s (h₀ ++ h) record.result := by
  refine ⟨hl.of_deeds hc.deeds, (ha.of_during ?_).of_deeds hc.deeds⟩
  rw [History.during_append, hc.during_download, List.append_nil]

/-- **The result of every run fits together**, in itself and beside the history, and the exit
status tells how the run ended. -/
theorem leads_consistent {record : Record} (hl : (run s).Leads h record) :
    record.result.mode = s.config.mode ∧ record.result.Consistent ∧ Accounted s h record.result ∧
      (record.result.exitCode = 0 ↔
        record.result.outcome = .upToDate ∨ record.result.outcome = .skipped) ∧
      (record.result.exitCode = 100 ↔ record.result.outcome = .completed) ∧
      (record.result.exitCode = 2 ↔ record.result.outcome = .partialFailure) ∧
      (record.result.exitCode = 75 ↔ record.result.abortKind = some .lockContention) ∧
      (record.result.exitCode = 130 ↔ record.result.abortKind = some .interrupted) := by
  suffices hrun : record.result.Consistent ∧ Accounted s h record.result from
    ⟨(course_of_leads hl).mode, hrun.1, hrun.2, hrun.1.exitCode⟩
  cases course_of_leads hl with
  | contended started answer finished taken =>
    have hinv := holds_begun (s := s) started answer
    refine ⟨(hinv.unfinished.abort _ _ _).of_deeds rfl,
      Accounted.of_deeds (Accounted.of_during (hinv.accounted.abort _ _ _) ?_) rfl⟩
    simp [History.during, Request.phase]
  | unopened started answer failed closing =>
    have hinv := holds_begun (s := s) started answer
    exact closing.consistent [_, _] (hinv.unfinished.abort _ _ _)
      (hinv.accounted.abort _ _ _)
  | skipped started answer finished release locked trip =>
    obtain ⟨hconsistent, haccounted⟩ := trip.consistent
    refine ⟨hconsistent.of_deeds rfl, (haccounted.of_during ?_).of_deeds rfl⟩
    simp [History.during, Request.phase]
  | staged started answer locked trip due closing =>
    obtain ⟨hconsistent, haccounted⟩ := trip.consistent
    exact closing.consistent _ hconsistent haccounted

/-- A run that goes smoothly is such a run. -/
theorem leads_consistent_smooth : ∃ h record, (run applying).Leads h record ∧
    record.result.outcome = .completed ∧ record.result.applied = [bash] ∧
    record.result.Consistent ∧ Accounted applying h record.result := by
  have hl := Program.leads_history (smooth [bash]) (run applying) ()
  have hrun := leads_consistent hl
  exact ⟨_, _, hl, by decide +kernel, by decide +kernel, hrun.2.1, hrun.2.2.1⟩

end

end Run

end Upkeep
