import Upkeep.Proofs.Run.Phases
import Upkeep.Proofs.Run.Results

/-!
# The way through the stages

The stages of a run as steps from one spot to the next. `Step` has one case for each way on and
`Exit` one for each way out, each with the history it leaves and the ledger it hands over, and
`trip_of_leads` says that the stages of a run are nothing else. What is to be shown of every run
is shown of each step and each exit, and `Trip.preserves` makes it a fact about the run.

## Interruptions

Whatever stage is interrupted, the same happens: the run is aborted, and the stage is blamed. So
there is one exit for all interruptions, and `Spot.watch?` says which program is guarded at a
spot.

## Main definitions

* `Spot`, `Spot.phase`, `Spot.watch?`.
* `Step`, `Exit`, `Trip`.

## Main results

* `Step.keeps`, `Exit.keeps`: a spot asks only for what belongs to it.
* `trip_of_leads`: the stages of a run are a trip.
* `Trip.preserves`: what steps keep and exits turn into an outcome.
-/

namespace Upkeep.Run

/-- Where a run stands among its stages. -/
inductive Spot where
  /-- Before the interval gate. -/
  | gate
  /-- Before the random sleep. -/
  | sleep
  /-- Before the wait for a network. -/
  | network
  /-- Before the network is looked for so many times at most. -/
  | look (patience : Nat)
  /-- Before a rest, after which the network is looked for so many times at most. -/
  | rest (patience : Nat)
  /-- Before metadata is refreshed. -/
  | refresh
  /-- The same, at a time. -/
  | metadata (now : Instant)
  /-- Before usable repositories are queried. -/
  | query (available : List String)
  /-- Before the candidates are downloaded. -/
  | download
  /-- Before what was downloaded is applied. -/
  | transaction (report : Download.Report)
  /-- Before the decision about a reboot. -/
  | advice

/-- A guarded program: what it comes to, where it starts, which stage is to blame when it is
interrupted, and how far the run got then. -/
structure Watch where
  /-- What the program comes to. -/
  {Value : Type}
  /-- The program. -/
  program : Program Value
  /-- The ledger it starts from. -/
  ledger : Ledger
  /-- The stage to blame. -/
  stage : Stage
  /-- How far the run got. -/
  reached : Reached

/-- The part of a run that a spot belongs to. -/
@[simp]
def Spot.phase : Spot → Phase
  | .gate => .interval
  | .sleep => .sleep
  | .network | .look _ | .rest _ => .network
  | .refresh => .clock
  | .metadata _ => .metadata
  | .query _ => .query
  | .download => .download
  | .transaction _ => .transaction
  | .advice => .advice

/-- The limit on the wait for a network. -/
def Settings.networkLimit (s : Settings) : Span :=
  Span.ofSeconds s.config.commands.networkOnlineTimeoutSecs

/-- Whether a run sleeps first. -/
def Settings.sleeps (s : Settings) : Bool := s.timer && s.config.commands.randomSleepSecs != 0

/-- The program that is guarded at a spot. -/
def Spot.watch? (s : Settings) (l : Ledger) : Spot → Option Watch
  | .sleep =>
    if s.sleeps then
      some ⟨Program.call (.sleepRandomly s.config.commands.randomSleepSecs), l, .intervalCheck,
        .stopped⟩
    else none
  | .look (_ + 1) => some ⟨Program.call .lookForNetwork, l, .refresh, .stopped⟩
  | .rest _ => some ⟨Program.call .sleepBetweenLooks, l, .refresh, .stopped⟩
  | .metadata now =>
    some ⟨Metadata.ensureFresh s.config.base.repos s.config.metadataMaxAge s.metadataLimit now, l,
      .refresh, .stopped⟩
  | .query available =>
    some ⟨Upgrades.list s.config.scope s.config.base.excludePkgs available s.metadataLimit,
      l.visit .querying, .query, .stopped⟩
  | .download =>
    some ⟨Download.all s.config.download l.result.considered, l.visit .downloading, .download,
      .queried⟩
  | .transaction report =>
    some ⟨Transaction.apply report.succeeded (Span.ofSeconds s.config.apply.timeoutSecs),
      l.visit .applying, .apply, .queried⟩
  | .advice =>
    some ⟨Reboot.advise s.config.commands.reboot l.result.applied, l.visit .evaluatingReboot,
      .reboot, .queried⟩
  | _ => none

/-- From one spot to the next, with the history that this leaves. -/
inductive Step (s : Settings) : Spot → Ledger → History → Spot → Ledger → Prop
  /-- The run is due. -/
  | due {l : Ledger} (answer : Answer (Option Instant))
      (due : Marker.isDue answer.value l.result.startedAt s.config.minInterval = true) :
      Step s .gate l [⟨.readMarker, answer⟩] .sleep
        ((l.visit .intervalCheck).note [⟨.readMarker, answer⟩])
  /-- The run does not sleep first. -/
  | awake {l : Ledger} (awake : s.sleeps = false) : Step s .sleep l [] .network l
  /-- The run has slept. -/
  | slept {l : Ledger} {h : History} (asleep : s.sleeps = true)
      (passed : (Program.call (.sleepRandomly s.config.commands.randomSleepSecs)).Passed
        l.cancelled h ()) :
      Step s .sleep l h .network (l.note h)
  /-- The run does not wait for a network. -/
  | hasty {l : Ledger} (hasty : s.config.commands.networkOnlineTimeoutSecs = 0) :
      Step s .network l [] .refresh l
  /-- The run waits for a network. -/
  | waiting {l : Ledger} (waiting : s.config.commands.networkOnlineTimeoutSecs ≠ 0) :
      Step s .network l [] (.look s.patience) l
  /-- Patience is at an end. -/
  | impatient {l : Ledger} : Step s (.look 0) l [] .refresh l
  /-- There is a network. -/
  | online {l : Ledger} {h : History} {patience : Nat}
      (passed : (Program.call .lookForNetwork).Passed l.cancelled h true) :
      Step s (.look (patience + 1)) l h .refresh (l.note h)
  /-- There is no network, and time is up. -/
  | overdue {l : Ledger} {h : History} {patience : Nat}
      (passed : (Program.call .lookForNetwork).Passed l.cancelled h false)
      (answer : Answer Bool) (overdue : answer.value = true) :
      Step s (.look (patience + 1)) l (h ++ [⟨.networkOverdue s.networkLimit, answer⟩]) .refresh
        ((l.note h).note [⟨.networkOverdue s.networkLimit, answer⟩])
  /-- There is no network yet. -/
  | offline {l : Ledger} {h : History} {patience : Nat}
      (passed : (Program.call .lookForNetwork).Passed l.cancelled h false)
      (answer : Answer Bool) (early : answer.value = false) :
      Step s (.look (patience + 1)) l (h ++ [⟨.networkOverdue s.networkLimit, answer⟩])
        (.rest patience) ((l.note h).note [⟨.networkOverdue s.networkLimit, answer⟩])
  /-- The network is to be looked for again. -/
  | rested {l : Ledger} {h : History} {patience : Nat}
      (passed : (Program.call .sleepBetweenLooks).Passed l.cancelled h ()) :
      Step s (.rest patience) l h (.look patience) (l.note h)
  /-- The time of the refresh is known. -/
  | timed {l : Ledger} (answer : Answer Instant) :
      Step s .refresh l [⟨.now, answer⟩] (.metadata answer.value)
        ((l.visit .refreshing).note [⟨.now, answer⟩])
  /-- There are usable repositories. -/
  | refreshed {l : Ledger} {h : History} {now : Instant} {summary : Metadata.Summary}
      (passed : (Metadata.ensureFresh s.config.base.repos s.config.metadataMaxAge s.metadataLimit
        now).Passed l.cancelled h (.ok summary)) :
      Step s (.metadata now) l h (.query summary.available)
        ((l.note h).update (warnDegraded summary.failed))
  /-- There are upgrades, and they are to be downloaded. -/
  | offered {l : Ledger} {h : History} {available : List String} {candidates : List Candidate}
      (passed : (Upgrades.list s.config.scope s.config.base.excludePkgs available
        s.metadataLimit).Passed l.cancelled h (.ok candidates))
      (some : candidates ≠ []) (wanted : l.result.mode ≠ .reportOnly) :
      Step s (.query available) l h .download
        (((l.visit .querying).note h).update fun r => { r with considered := candidates })
  /-- The downloads are over, and what came of them is to be applied. -/
  | downloaded {l : Ledger} {h : History} {report : Download.Report}
      (passed : (Download.all s.config.download l.result.considered).Passed l.cancelled h report)
      (wanted : l.result.mode ≠ .downloadOnly) :
      Step s .download l h (.transaction report)
        (((l.visit .downloading).note h).update (recordDownloads report))
  /-- The transaction went through. -/
  | applied {l : Ledger} {h : History} {report : Download.Report} {applied : List Candidate}
      (passed : (Transaction.apply report.succeeded
        (Span.ofSeconds s.config.apply.timeoutSecs)).Passed l.cancelled h (.ok applied)) :
      Step s (.transaction report) l h .advice
        (((l.visit .applying).note h).update fun r =>
          { r with applied := applied, outcome := doneOutcome (!report.failed.isEmpty) })
  /-- The transaction was refused, after downloads had failed. -/
  | refused {l : Ledger} {h : History} {report : Download.Report} {e : TransactionError}
      (passed : (Transaction.apply report.succeeded
        (Span.ofSeconds s.config.apply.timeoutSecs)).Passed l.cancelled h (.error e))
      (known : e.stateUnknown = false) (partly : report.failed ≠ []) :
      Step s (.transaction report) l h .advice
        (((l.visit .applying).note h).update fun r =>
          { r.fail .apply none .transactionRejected e.message with outcome := .partialFailure })

/-- From a spot to the end of the stages. -/
inductive Exit (s : Settings) : Spot → Ledger → History → Ledger → Reached → Prop
  /-- A guarded program was interrupted. -/
  | interrupted {p : Spot} {l : Ledger} {h : History} {w : Watch} (watch : p.watch? s l = some w)
      (broken : w.program.Broken w.ledger.cancelled h) :
      Exit s p l h ((w.ledger.note h).stop w.stage .interrupted) w.reached
  /-- The run is not due. -/
  | notDue {l : Ledger} (answer : Answer (Option Instant))
      (due : Marker.isDue answer.value l.result.startedAt s.config.minInterval = false) :
      Exit s .gate l [⟨.readMarker, answer⟩]
        ((((l.visit .intervalCheck).note [⟨.readMarker, answer⟩]).update fun r =>
          { r with outcome := .skipped }).warn .intervalCheck .intervalNotElapsed
            (notDueReason answer.value)) .skipped
  /-- No repository is usable. -/
  | unavailable {l : Ledger} {h : History} {now : Instant} {e : RunError}
      (passed : (Metadata.ensureFresh s.config.base.repos s.config.metadataMaxAge s.metadataLimit
        now).Passed l.cancelled h (.error e)) :
      Exit s (.metadata now) l h ((l.note h).stop .refresh e) .stopped
  /-- The query failed. -/
  | unanswered {l : Ledger} {h : History} {available : List String} {e : RunError}
      (passed : (Upgrades.list s.config.scope s.config.base.excludePkgs available
        s.metadataLimit).Passed l.cancelled h (.error e)) :
      Exit s (.query available) l h (((l.visit .querying).note h).stop .query e) .stopped
  /-- There is nothing to upgrade. -/
  | upToDate {l : Ledger} {h : History} {available : List String}
      (passed : (Upgrades.list s.config.scope s.config.base.excludePkgs available
        s.metadataLimit).Passed l.cancelled h (.ok [])) :
      Exit s (.query available) l h
        ((((l.visit .querying).note h).visit .upToDate).update fun r =>
          { r with outcome := .upToDate }) .queried
  /-- Upgrades are only reported. -/
  | reportOnly {l : Ledger} {h : History} {available : List String} {candidates : List Candidate}
      (passed : (Upgrades.list s.config.scope s.config.base.excludePkgs available
        s.metadataLimit).Passed l.cancelled h (.ok candidates))
      (some : candidates ≠ []) (mode : l.result.mode = .reportOnly) :
      Exit s (.query available) l h
        (((((l.visit .querying).note h).update fun r =>
          { r with considered := candidates }).update fun r =>
            { r with outcome := .completed }).visit .evaluatingReboot) .queried
  /-- Upgrades are only downloaded. -/
  | downloadOnly {l : Ledger} {h : History} {report : Download.Report}
      (passed : (Download.all s.config.download l.result.considered).Passed l.cancelled h report)
      (mode : l.result.mode = .downloadOnly) :
      Exit s .download l h
        ((((((l.visit .downloading).note h).update (recordDownloads report)).visit
          .downloadOnlyDone).update fun r =>
            { r with outcome := doneOutcome (!report.failed.isEmpty) }).visit .evaluatingReboot)
        .queried
  /-- The transaction was given up on. -/
  | stateUnknown {l : Ledger} {h : History} {report : Download.Report} {e : TransactionError}
      (passed : (Transaction.apply report.succeeded
        (Span.ofSeconds s.config.apply.timeoutSecs)).Passed l.cancelled h (.error e))
      (unknown : e.stateUnknown = true) :
      Exit s (.transaction report) l h
        (((l.visit .applying).note h).abort .apply .transactionStateUnknown e.message) .queried
  /-- The transaction was refused, though no download had failed. -/
  | rejected {l : Ledger} {h : History} {report : Download.Report} {e : TransactionError}
      (passed : (Transaction.apply report.succeeded
        (Span.ofSeconds s.config.apply.timeoutSecs)).Passed l.cancelled h (.error e))
      (known : e.stateUnknown = false) (whole : report.failed = []) :
      Exit s (.transaction report) l h
        (((l.visit .applying).note h).abort .apply .transactionRejected e.message) .queried
  /-- Whether to reboot cannot be said. -/
  | unadvised {l : Ledger} {h : History} {reason : String}
      (passed : (Reboot.advise s.config.commands.reboot l.result.applied).Passed l.cancelled h
        (.error reason)) :
      Exit s .advice l h
        (((l.visit .evaluatingReboot).note h).warn .reboot .collaborator
          ("reboot check failed: " ++ reason)) .queried
  /-- Whether to reboot is known. -/
  | advised {l : Ledger} {h : History} {advice : RebootAdvice}
      (passed : (Reboot.advise s.config.commands.reboot l.result.applied).Passed l.cancelled h
        (.ok advice)) :
      Exit s .advice l h
        (((l.visit .evaluatingReboot).note h).update fun r => { r with reboot := advice }) .queried

/-- From a spot to the end of the stages, step by step. -/
inductive Trip (s : Settings) : Spot → Ledger → History → Ledger → Reached → Prop
  /-- The end. -/
  | out {p : Spot} {l l' : Ledger} {h : History} {reached : Reached}
      (exit : Exit s p l h l' reached) : Trip s p l h l' reached
  /-- A step, and the way from there. -/
  | on {p p' : Spot} {l l' l'' : Ledger} {h h' : History} {reached : Reached}
      (step : Step s p l h p' l') (rest : Trip s p' l' h' l'' reached) :
      Trip s p l (h ++ h') l'' reached

section

variable {s : Settings} {p : Spot} {l l' : Ledger} {h : History} {reached : Reached}

/-- **What steps keep and exits turn into an outcome** holds at the end of every trip. -/
theorem Trip.preserves (Inv : History → Spot → Ledger → Prop)
    (Post : History → Ledger → Reached → Prop)
    (hstep : ∀ {h₀ p l h p' l'}, Step s p l h p' l' → Inv h₀ p l → Inv (h₀ ++ h) p' l')
    (hexit : ∀ {h₀ p l h l' reached}, Exit s p l h l' reached → Inv h₀ p l →
      Post (h₀ ++ h) l' reached)
    (ht : Trip s p l h l' reached) : ∀ h₀, Inv h₀ p l → Post (h₀ ++ h) l' reached := by
  induction ht with
  | out exit => exact fun h₀ hinv => hexit exit hinv
  | on step _ ih =>
    intro h₀ hinv
    rw [← List.append_assoc]
    exact ih _ (hstep step hinv)

theorem Spot.keeps_watch? {w : Watch} (watch : p.watch? s l = some w) :
    w.program.Keeps p.phase := by
  cases p with
  | sleep =>
    rw [watch?] at watch
    split at watch
    · cases watch
      exact keeps_call _
    · cases watch
  | look patience =>
    cases patience with
    | zero => cases watch
    | succ patience =>
      cases watch
      exact keeps_call _
  | rest patience =>
    cases watch
    exact keeps_call _
  | metadata now =>
    cases watch
    exact keeps_ensureFresh _ _ _ _
  | query available =>
    cases watch
    exact keeps_list _ _ _ _
  | download =>
    cases watch
    exact keeps_all _ _
  | transaction report =>
    cases watch
    exact keeps_apply _ _
  | advice =>
    cases watch
    exact keeps_advise _ _
  | gate | network | refresh => cases watch

/-- A guarded program starts from what the run has so far. -/
theorem Spot.ledger_watch? {w : Watch} (watch : p.watch? s l = some w) :
    w.ledger.result = l.result ∧ w.ledger.cancelled = l.cancelled := by
  cases p with
  | sleep =>
    rw [watch?] at watch
    split at watch
    · cases watch
      exact ⟨rfl, rfl⟩
    · cases watch
  | look patience =>
    cases patience with
    | zero => cases watch
    | succ patience =>
      cases watch
      exact ⟨rfl, rfl⟩
  | rest _ | metadata _ | query _ | download | transaction _ | advice =>
    cases watch
    exact ⟨rfl, rfl⟩
  | gate | network | refresh => cases watch

/-- No interruption makes a run one that was not due. -/
theorem Spot.reached_watch? {w : Watch} (watch : p.watch? s l = some w) : w.reached ≠ .skipped := by
  cases p with
  | sleep =>
    rw [watch?] at watch
    split at watch
    · cases watch
      simp
    · cases watch
  | look patience =>
    cases patience with
    | zero => cases watch
    | succ patience =>
      cases watch
      simp
  | rest _ | metadata _ | query _ | download | transaction _ | advice =>
    cases watch
    simp
  | gate | network | refresh => cases watch

/-- A step asks only for what belongs to its spot. -/
theorem Step.keeps {p' : Spot} (step : Step s p l h p' l') :
    ∀ e ∈ h, e.request.phase = p.phase := by
  cases step with
  | due answer _ => simp [Request.phase, Spot.phase]
  | awake _ => simp
  | slept _ passed => exact passed.keeps (keeps_call _)
  | hasty _ => simp
  | waiting _ => simp
  | impatient => simp
  | online passed => exact passed.keeps (keeps_call _)
  | overdue passed answer _ | offline passed answer _ =>
    intro e he
    rcases List.mem_append.mp he with he | he
    · exact passed.keeps (keeps_call _) e he
    · obtain rfl := List.mem_singleton.mp he
      rfl
  | rested passed => exact passed.keeps (keeps_call _)
  | timed answer => simp [Request.phase, Spot.phase]
  | refreshed passed => exact passed.keeps (keeps_ensureFresh _ _ _ _)
  | offered passed _ _ => exact passed.keeps (keeps_list _ _ _ _)
  | downloaded passed _ => exact passed.keeps (keeps_all _ _)
  | applied passed => exact passed.keeps (keeps_apply _ _)
  | refused passed _ _ => exact passed.keeps (keeps_apply _ _)

/-- An exit asks only for what belongs to its spot. -/
theorem Exit.keeps (exit : Exit s p l h l' reached) : ∀ e ∈ h, e.request.phase = p.phase := by
  cases exit with
  | interrupted watch broken => exact broken.keeps (Spot.keeps_watch? watch)
  | notDue answer _ => simp [Request.phase, Spot.phase]
  | unavailable passed => exact passed.keeps (keeps_ensureFresh _ _ _ _)
  | unanswered passed => exact passed.keeps (keeps_list _ _ _ _)
  | upToDate passed => exact passed.keeps (keeps_list _ _ _ _)
  | reportOnly passed _ _ => exact passed.keeps (keeps_list _ _ _ _)
  | downloadOnly passed _ => exact passed.keeps (keeps_all _ _)
  | stateUnknown passed _ => exact passed.keeps (keeps_apply _ _)
  | rejected passed _ _ => exact passed.keeps (keeps_apply _ _)
  | unadvised passed => exact passed.keeps (keeps_advise _ _)
  | advised passed => exact passed.keeps (keeps_advise _ _)

theorem Step.frame {p' : Spot} (step : Step s p l h p' l') :
    l'.result.frame = l.result.frame := by
  cases step with
  | refreshed passed =>
    rw [Ledger.result_update, warnDegraded_eq]
    rfl
  | downloaded passed _ =>
    rw [Ledger.result_update, recordDownloads_eq]
    rfl
  | _ => rfl

theorem Exit.frame (exit : Exit s p l h l' reached) : l'.result.frame = l.result.frame := by
  cases exit with
  | interrupted watch broken =>
    rw [Ledger.stop_eq, Ledger.result_update, Ledger.result_note, (Spot.ledger_watch? watch).1]
    rfl
  | downloadOnly passed _ =>
    simp only [Ledger.result_update, Ledger.result_visit, recordDownloads_eq]
    rfl
  | _ => rfl

/-- The stages ask for nothing that comes before or after them. -/
theorem Trip.keeps (ht : Trip s p l h l' reached) :
    ∀ e ∈ h, e.request.phase ∉ [Phase.lock, .report, .persist, .reboot] := by
  have hspot : ∀ p : Spot, p.phase ∉ [Phase.lock, .report, .persist, .reboot] := by
    intro p
    cases p <;> simp [Spot.phase]
  induction ht with
  | out exit =>
    intro e he
    rw [exit.keeps e he]
    exact hspot _
  | on step _ ih =>
    intro e he
    rcases List.mem_append.mp he with he | he
    · rw [step.keeps e he]
      exact hspot _
    · exact ih e he

theorem Trip.frame (ht : Trip s p l h l' reached) : l'.result.frame = l.result.frame := by
  induction ht with
  | out exit => exact exit.frame
  | on step _ ih => exact ih.trans step.frame

/-! ### The stages are a trip -/

theorem Trip.of_done {l₁ : Ledger} {reached₁ : Reached} {h₂ : History}
    (exit : Exit s p l h l₁ reached₁)
    (hend : (Program.done (l₁, reached₁)).Leads h₂ (l', reached)) :
    Trip s p l (h ++ h₂) l' reached := by
  obtain ⟨rfl, heq⟩ := hend
  cases heq
  rw [List.append_nil]
  exact .out exit

theorem Trip.of_broken {w : Watch} {h₂ : History} (watch : p.watch? s l = some w)
    (broken : w.program.Broken w.ledger.cancelled h)
    (hend : (Program.done ((w.ledger.note h).stop w.stage .interrupted, w.reached)).Leads h₂
      (l', reached)) :
    Trip s p l (h ++ h₂) l' reached :=
  .of_done (.interrupted watch broken) hend

theorem trip_adviseReboot (hl : (adviseReboot s l).Leads h (l', reached)) :
    Trip s .advice l h l' reached := by
  rw [adviseReboot] at hl
  obtain ⟨h₁, h₂, rfl, ⟨hbroken, hend⟩ | ⟨answer, hpassed, hend⟩⟩ := Ledger.leads_guard hl
  · exact .of_broken rfl hbroken hend
  · cases answer with
    | error reason =>
      exact .of_done (.unadvised hpassed) hend
    | ok advice =>
      exact .of_done (.advised hpassed) hend

theorem trip_applyArtifacts {report : Download.Report}
    (hl : (applyArtifacts s report l).Leads h (l', reached)) :
    Trip s (.transaction report) l h l' reached := by
  rw [applyArtifacts] at hl
  obtain ⟨h₁, h₂, rfl, ⟨hbroken, hend⟩ | ⟨answer, hpassed, hend⟩⟩ := Ledger.leads_guard hl
  · exact .of_broken rfl hbroken hend
  · cases answer with
    | ok applied => exact .on (.applied hpassed) (trip_adviseReboot hend)
    | error e =>
      dsimp only at hend
      cases hunknown : e.stateUnknown with
      | true =>
        rw [hunknown, if_pos rfl] at hend
        exact .of_done (.stateUnknown hpassed hunknown) hend
      | false =>
        rw [hunknown, if_neg Bool.false_ne_true] at hend
        cases hfailed : report.failed with
        | nil =>
          rw [hfailed] at hend
          exact .of_done (.rejected hpassed hunknown hfailed) hend
        | cons f fs =>
          rw [hfailed] at hend
          refine .on (.refused hpassed hunknown ?_) (trip_adviseReboot hend)
          rw [hfailed]
          exact List.cons_ne_nil f fs

theorem trip_download (hl : (download s l).Leads h (l', reached)) :
    Trip s .download l h l' reached := by
  rw [download] at hl
  obtain ⟨h₁, h₂, rfl, ⟨hbroken, hend⟩ | ⟨report, hpassed, hend⟩⟩ := Ledger.leads_guard hl
  · exact .of_broken rfl hbroken hend
  · dsimp only at hend
    split at hend
    · rename_i hdownloadOnly
      exact .of_done (.downloadOnly hpassed (by simpa using hdownloadOnly)) hend
    · rename_i happly
      refine .on (.downloaded hpassed ?_) (trip_applyArtifacts hend)
      simpa using happly

theorem trip_query {available : List String} (hl : (query s available l).Leads h (l', reached)) :
    Trip s (.query available) l h l' reached := by
  rw [query] at hl
  obtain ⟨h₁, h₂, rfl, ⟨hbroken, hend⟩ | ⟨answer, hpassed, hend⟩⟩ := Ledger.leads_guard hl
  · exact .of_broken rfl hbroken hend
  · cases answer with
    | error e => exact .of_done (.unanswered hpassed) hend
    | ok candidates =>
      cases candidates with
      | nil => exact .of_done (.upToDate hpassed) hend
      | cons c cs =>
        dsimp only at hend
        rw [if_neg (by simp)] at hend
        split at hend
        · rename_i hreportOnly
          exact .of_done
            (.reportOnly hpassed (List.cons_ne_nil c cs) (by simpa using hreportOnly)) hend
        · rename_i hother
          exact .on (.offered hpassed (List.cons_ne_nil c cs) (by simpa using hother))
            (trip_download hend)

theorem trip_refresh (hl : (refresh s l).Leads h (l', reached)) :
    Trip s .refresh l h l' reached := by
  obtain ⟨now, rest, rfl, hrest⟩ := Ledger.leads_call.mp hl
  refine .on (h := [_]) (.timed now) ?_
  obtain ⟨h₁, h₂, rfl, ⟨hbroken, hend⟩ | ⟨answer, hpassed, hend⟩⟩ := Ledger.leads_guard hrest
  · exact .of_broken rfl hbroken hend
  · cases answer with
    | error e => exact .of_done (.unavailable hpassed) hend
    | ok summary => exact .on (.refreshed hpassed) (trip_query hend)

theorem trip_lookForNetwork {patience : Nat}
    (hl : (lookForNetwork s s.networkLimit patience l).Leads h (l', reached)) :
    Trip s (.look patience) l h l' reached := by
  induction patience generalizing l h with
  | zero => exact .on (h := []) .impatient (trip_refresh hl)
  | succ patience ih =>
    obtain ⟨h₁, h₂, rfl, ⟨hbroken, hend⟩ | ⟨answer, hpassed, hend⟩⟩ := Ledger.leads_guard hl
    · exact .of_broken rfl hbroken hend
    · cases answer with
      | true => exact .on (.online hpassed) (trip_refresh hend)
      | false =>
        dsimp only at hend
        obtain ⟨overdue, h₃, rfl, hlater⟩ := Ledger.leads_call.mp hend
        rw [List.append_cons]
        cases hoverdue : overdue.value with
        | true =>
          rw [hoverdue, if_pos rfl] at hlater
          exact .on (.overdue hpassed overdue hoverdue) (trip_refresh hlater)
        | false =>
          rw [hoverdue, if_neg Bool.false_ne_true] at hlater
          refine .on (.offline hpassed overdue hoverdue) ?_
          obtain ⟨h₄, h₅, rfl, ⟨hbroken, hend⟩ | ⟨⟨⟩, hpassed, hend⟩⟩ := Ledger.leads_guard hlater
          · exact .of_broken rfl hbroken hend
          · exact .on (.rested hpassed) (ih hend)

theorem trip_awaitNetwork (hl : (awaitNetwork s l).Leads h (l', reached)) :
    Trip s .network l h l' reached := by
  rw [awaitNetwork] at hl
  split at hl
  · rename_i hzero
    exact .on (h := []) (.hasty (by simpa using hzero)) (trip_refresh hl)
  · rename_i hpositive
    exact .on (h := []) (.waiting (by simpa using hpositive)) (trip_lookForNetwork hl)

theorem trip_sleepFirst (hl : (sleepFirst s l).Leads h (l', reached)) :
    Trip s .sleep l h l' reached := by
  rw [sleepFirst] at hl
  cases hsleeps : s.sleeps with
  | false =>
    rw [← Settings.sleeps, hsleeps, if_neg Bool.false_ne_true] at hl
    exact .on (h := []) (.awake hsleeps) (trip_awaitNetwork hl)
  | true =>
    rw [← Settings.sleeps, if_pos hsleeps] at hl
    obtain ⟨h₁, h₂, rfl, ⟨hbroken, hend⟩ | ⟨⟨⟩, hpassed, hend⟩⟩ := Ledger.leads_guard hl
    · exact .of_broken (if_pos hsleeps) hbroken hend
    · exact .on (.slept hsleeps hpassed) (trip_awaitNetwork hend)

/-- **The stages of a run are a trip from the gate.** -/
theorem trip_of_leads (hl : (gate s l).Leads h (l', reached)) : Trip s .gate l h l' reached := by
  obtain ⟨answer, rest, rfl, hrest⟩ := Ledger.leads_call.mp hl
  rw [Ledger.result_note, Ledger.result_visit] at hrest
  cases hdue : Marker.isDue answer.value l.result.startedAt s.config.minInterval with
  | true =>
    rw [hdue, if_pos rfl] at hrest
    exact .on (h := [_]) (.due answer hdue) (trip_sleepFirst hrest)
  | false =>
    rw [hdue, if_neg Bool.false_ne_true] at hrest
    obtain ⟨rfl, heq⟩ := hrest
    cases heq
    exact .out (.notDue answer hdue)

end

end Upkeep.Run
