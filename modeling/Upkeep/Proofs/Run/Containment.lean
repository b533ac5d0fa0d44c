import Upkeep.Proofs.Emission
import Upkeep.Proofs.Likeness
import Upkeep.Proofs.Run.Settling

/-!
# Emitters are contained

Whatever emitters there are, and whatever they do, a run is the same but for the warnings about
them. The stages of a run do not know its emitters; closing goes on from what they answer, but all
it does with the answers is to add those warnings, and nothing that it decides afterwards depends
on warnings. So runs with different emitters are alike apart from what they ask of them.

What a run asks of its emitters is told by its result: each one is asked to deliver one report, or
each one to withdraw its notices.

## Main definitions

* `RunResult.muted`, `RunResult.complaints`: a result without the warnings about emitters, and those
  warnings.
* `RunResult.warned`: the warnings of one kind.
* `Request.isForEmitter`.
* `Akin`: the same but for those warnings.
* `Informed`: what a run asks of its emitters, and what it makes of their answers.

## Main results

* `alike_run`: runs with different emitters are alike.
* `leads_contained`: in one world they end in the same way, and each informs its emitters.
-/

namespace Upkeep

/-- A request to an emitter. -/
def Request.isForEmitter (q : Request) : Bool := q.phase = .report

namespace RunResult

/-- A result without the warnings about emitters. -/
def muted (r : RunResult) : RunResult :=
  { r with warnings := r.warnings.filter fun w => w.kind ≠ .emitterFailure }

/-- The warnings about emitters. -/
def complaints (r : RunResult) : List FailureRecord :=
  r.warnings.filter fun w => w.kind = .emitterFailure

theorem muted_warn (r : RunResult) (stage : Stage) {kind : FailureKind} (reason : String)
    (hkind : kind ≠ .emitterFailure) :
    (r.warn stage kind reason).muted = r.muted.warn stage kind reason := by
  simp [muted, warn, hkind]

/-- The warnings of one kind. -/
def warned (kind : FailureKind) (r : RunResult) : List FailureRecord :=
  r.warnings.filter fun w => w.kind = kind

theorem warned_append {kind : FailureKind} (r : RunResult) {ws : List FailureRecord}
    (hws : ∀ w ∈ ws, w.kind ≠ kind) :
    { r with warnings := r.warnings ++ ws }.warned kind = r.warned kind := by
  have hnone : ws.filter (fun w => w.kind = kind) = [] :=
    List.filter_eq_nil_iff.mpr fun w hw => by simpa using hws w hw
  rw [warned, List.filter_append, hnone, List.append_nil, warned]

theorem warned_warn {kind kind' : FailureKind} (r : RunResult) (stage : Stage) (reason : String)
    (hkind : kind' ≠ kind) : (r.warn stage kind' reason).warned kind = r.warned kind :=
  r.warned_append (by simpa using hkind)

end RunResult

namespace Run

theorem muted_warnUndelivered (failed : List (String × String)) (r : RunResult) :
    (warnUndelivered failed r).muted = r.muted := by
  have hnone : (failed.map undelivered).filter (fun w => w.kind ≠ .emitterFailure) = [] :=
    List.filter_eq_nil_iff.mpr fun w hw => by
      obtain ⟨f, -, rfl⟩ := List.mem_map.mp hw
      simp [undelivered]
  rw [warnUndelivered_eq, RunResult.muted, RunResult.muted]
  dsimp only
  rw [List.filter_append]
  rw [hnone, List.append_nil]

theorem complaints_warnUndelivered (failed : List (String × String)) (r : RunResult) :
    (warnUndelivered failed r).complaints = r.complaints ++ failed.map undelivered := by
  rw [warnUndelivered_eq, RunResult.complaints, RunResult.complaints, List.filter_append]
  congr 1
  exact List.filter_eq_self.mpr fun w hw => by
    obtain ⟨f, -, rfl⟩ := List.mem_map.mp hw
    rfl

/-! ### Runs with different emitters -/

section

variable {s : Settings} {p p' : Spot} {l l' : Ledger} {h h₁ h₂ : History} {reached : Reached}
  {locked : Bool} {record : Record}

theorem lookForNetwork_emitters (e : Emission.Settings) (limit : Span) (patience : Nat)
    (l : Ledger) :
    lookForNetwork { s with emitters := e } limit patience l =
      lookForNetwork s limit patience l := by
  induction patience generalizing l with
  | zero => rfl
  | succ patience ih =>
    rw [lookForNetwork, lookForNetwork]
    simp only [ih]
    rfl

/-- The stages of a run do not know its emitters. -/
theorem gate_emitters (e : Emission.Settings) (l : Ledger) :
    gate { s with emitters := e } l = gate s l := by
  have hawait : ∀ l, awaitNetwork { s with emitters := e } l = awaitNetwork s l := by
    intro l
    rw [awaitNetwork, awaitNetwork]
    simp only [lookForNetwork_emitters]
    rfl
  have hsleep : ∀ l, sleepFirst { s with emitters := e } l = sleepFirst s l := by
    intro l
    rw [sleepFirst, sleepFirst]
    simp only [hawait]
  rw [gate, gate]
  simp only [hsleep]

/-- The stages of a run ask nothing of its emitters. -/
theorem asks_gate (l : Ledger) : (gate s l).Asks fun q => q.isForEmitter = false := by
  refine Program.asks_of_leads (smooth []) () fun h a hl e he => ?_
  have hphase := (trip_of_leads hl).keeps e he
  simp only [List.mem_cons, not_or] at hphase
  simpa [Request.isForEmitter] using hphase.2.1

/-- Two ledgers that are the same but for warnings about emitters. -/
structure Akin (l l' : Ledger) : Prop where
  /-- The runs have been in the same states. -/
  history : l'.history = l.history
  /-- The results are the same. -/
  result : l'.result.muted = l.result.muted

/-- Two records that are the same but for warnings about emitters. -/
structure AkinRecords (r r' : Record) : Prop where
  /-- The runs have been in the same states. -/
  history : r'.history = r.history
  /-- The results are the same. -/
  result : r'.result.muted = r.result.muted

theorem Akin.visit (ha : Akin l l') (state : RunState) : Akin (l.visit state) (l'.visit state) :=
  ⟨congrArg (· ++ [state]) ha.history, ha.result⟩

theorem Akin.update (ha : Akin l l') (f : RunResult → RunResult)
    (hf : ∀ r, (f r).muted = f r.muted) : Akin (l.update f) (l'.update f) :=
  ⟨ha.history, by rw [Ledger.result_update, Ledger.result_update, hf, hf, ha.result]⟩

theorem Akin.warn (ha : Akin l l') (stage : Stage) {kind : FailureKind} (reason : String)
    (hkind : kind ≠ .emitterFailure) :
    Akin (l.warn stage kind reason) (l'.warn stage kind reason) :=
  ha.update _ fun r => r.muted_warn stage reason hkind

/-- What does not depend on warnings about emitters is the same. -/
theorem Akin.congr {β : Type} (ha : Akin l l') (f : RunResult → β) (hf : ∀ r, f r.muted = f r) :
    f l'.result = f l.result := by
  rw [← hf, ha.result, hf]

theorem Akin.finishAt (ha : Akin l l') (time : Instant) :
    AkinRecords (finishAt l time) (finishAt l' time) := by
  have hend := ha.update (fun r => { r with finishedAt := some (r.finishedAt.getD time) })
    fun _ => rfl
  have houtcome := ha.congr RunResult.outcome fun _ => rfl
  refine ⟨?_, hend.result⟩
  simp only [Run.finishAt, Ledger.history_visit, Ledger.history_update, Ledger.result_update,
    ha.history, houtcome]
  rfl

/-- The exit status does not depend on emitters. -/
theorem AkinRecords.exitCode {r r' : Record} (ha : AkinRecords r r') :
    r'.result.exitCode = r.result.exitCode := by
  have hmuted : ∀ r : RunResult, r.muted.exitCode = r.exitCode := fun _ => rfl
  rw [← hmuted, ha.result, hmuted]

/-- Runs that ask for the same thing are alike if they are alike afterwards. -/
theorem alike_call {α β : Type} {R : α → β → Prop} {q : Request}
    {next : Ledger → q.Reply → Program α} {next' : Ledger → q.Reply → Program β}
    (ha : Akin l l') (shared : q.isForEmitter = false)
    (hnext : ∀ (l l' : Ledger) (answer : q.Reply), Akin l l' →
      Program.Alike Request.isForEmitter R (next l answer) (next' l' answer)) :
    Program.Alike Request.isForEmitter R (l.call q next) (l'.call q next') :=
  .both shared fun _ => hnext _ _ _ ⟨ha.history, ha.result⟩

theorem alike_finish (ha : Akin l l') :
    Program.Alike Request.isForEmitter AkinRecords (finish l) (finish l') := by
  rw [finish, finish, ha.congr RunResult.finishedAt fun _ => rfl]
  cases l.result.finishedAt with
  | some time => exact .done (ha.finishAt time)
  | none => exact alike_call ha rfl fun l l' time ha => .done (ha.finishAt time)

theorem alike_letGo (locked : Bool) (ha : Akin l l') :
    Program.Alike Request.isForEmitter AkinRecords (letGo locked l) (letGo locked l') := by
  rw [letGo, letGo]
  cases locked with
  | false => exact alike_finish ha
  | true => exact alike_call ha rfl fun l l' _ ha => alike_finish ha

theorem alike_triggerReboot (e : Emission.Settings) (locked : Bool) (ha : Akin l l') :
    Program.Alike Request.isForEmitter AkinRecords (triggerReboot s locked l)
      (triggerReboot { s with emitters := e } locked l') := by
  have hreboots : reboots { s with emitters := e } l'.result = reboots s l.result :=
    ha.congr (reboots s) fun _ => rfl
  rw [triggerReboot, triggerReboot, ← reboots, ← reboots, hreboots]
  cases reboots s l.result with
  | false => exact alike_letGo locked ha
  | true =>
    rw [if_pos rfl, if_pos rfl]
    refine alike_call ha rfl fun l l' answer ha => alike_letGo locked ?_
    cases answer with
    | error reason => exact ha.warn _ _ (by decide)
    | ok => exact ha.update _ fun _ => rfl

theorem alike_persist (e : Emission.Settings) (reached : Reached) (locked : Bool)
    (ha : Akin l l') :
    Program.Alike Request.isForEmitter AkinRecords (persist s reached locked l)
      (persist { s with emitters := e } reached locked l') := by
  have hsettles : settles reached l'.result = settles reached l.result :=
    ha.congr (settles reached) fun _ => rfl
  rw [persist, persist, ← settles, ← settles, hsettles]
  cases settles reached l.result with
  | false => exact alike_triggerReboot e locked ha
  | true =>
    rw [if_pos rfl, if_pos rfl]
    refine alike_call (ha.visit _) rfl fun l l' now ha => ?_
    refine alike_call ha rfl fun l l' failure ha => alike_triggerReboot e locked ?_
    cases failure with
    | none => exact ha
    | some reason => exact ha.warn _ _ (by decide)

/-- Whatever emitters are told, and whatever they answer, a run goes on in the same way. -/
theorem alike_emit (e : Emission.Settings) (reached : Reached) (locked : Bool) (l : Ledger) :
    Program.Alike Request.isForEmitter AkinRecords (emit s reached locked l)
      (emit { s with emitters := e } reached locked l) := by
  have hreport : ∀ (settings : Emission.Settings) (r : RunResult),
      (Emission.report settings r).Asks fun q => q.isForEmitter = true := by
    intro settings r
    refine Program.asks_of_leads (smooth []) () fun h a hl e he => ?_
    simpa [Request.isForEmitter] using hl.begins.asks (keeps_report settings r) e he
  refine alike_call ⟨rfl, rfl⟩ rfl fun l l' now ha => ?_
  refine (Program.Alike.of_asks (hreport _ _) (hreport _ _)).bind fun summary summary' _ => ?_
  have hannounced := (ha.update (fun r => { r with finishedAt := some now }) fun _ => rfl).visit
    .emitting
  refine alike_persist e reached locked ⟨hannounced.history, ?_⟩
  rw [Ledger.result_update, Ledger.result_update, muted_warnUndelivered, muted_warnUndelivered,
    hannounced.result]

theorem alike_stages (e : Emission.Settings) (l : Ledger) :
    Program.Alike Request.isForEmitter AkinRecords ((gate s l).bind (conclude s))
      ((gate { s with emitters := e } l).bind (conclude { s with emitters := e })) := by
  rw [gate_emitters e]
  refine (Program.Alike.refl (asks_gate l)).bind ?_
  rintro ⟨l, reached⟩ _ rfl
  cases reached with
  | skipped =>
    refine (alike_finish ⟨rfl, rfl⟩).bind fun record record' hrecord => ?_
    exact .both rfl fun _ => .done hrecord
  | stopped | queried => exact alike_emit e _ _ _

/-- **Runs with different emitters are alike** apart from what they ask of them. -/
theorem alike_run (s : Settings) (e : Emission.Settings) :
    Program.Alike Request.isForEmitter AkinRecords (run s) (run { s with emitters := e }) := by
  refine .both rfl fun started => .both rfl fun answer => ?_
  rcases answer with ⟨(holder | ⟨path, cause⟩) | ⟨⟩, waited, cancelled⟩
  · exact alike_finish ⟨rfl, rfl⟩
  · exact alike_emit e _ _ _
  · exact alike_stages e _

/-! ### What emitters are asked -/

/-- What a run asks of its emitters, and what it makes of their answers. -/
inductive Informed (s : Settings) (h : History) (record : Record) : Prop
  /-- Every emitter was asked once and in order to deliver the one report of what the run did. Each
  has delivered or has not, and of those that have not the result warns, once of each. -/
  | delivered {told : RunResult} {answers : List Delivery} {ds : List String}
      {fs : List (String × String)} (wanted : Emission.isReported s.emitters record.result = true)
      (truthful : told.deeds = record.result.deeds)
      (asked : h.during .report =
        Emission.deliveries s.emitters.limit told (Report.render told) 0 answers)
      (tallied : Emission.Tallied s.emitters.limit s.emitters.names answers ds fs)
      (parted : Parted s.emitters.names ds (fs.map Prod.fst))
      (warned : record.result.complaints = fs.map undelivered)
  /-- There was nothing to upgrade, and that is not to be reported: every emitter was asked once and
  in order to withdraw its notices, whatever the others answered. -/
  | withdrawn {answers : List (Answer (Except EmitError Unit))}
      (upToDate : record.result.outcome = .upToDate) (unwanted : s.emitters.whenUpToDate = false)
      (asked : h.during .report = Emission.withdrawals 0 answers)
      (each : answers.length = s.emitters.names.length) (unwarned : record.result.complaints = [])

theorem Step.complaints (step : Step s p l h p' l') :
    l'.result.complaints = l.result.complaints := by
  cases step with
  | refreshed passed =>
    rw [Ledger.result_update, warnDegraded_eq]
    refine RunResult.warned_append _ fun w hw => ?_
    obtain ⟨f, -, rfl⟩ := List.mem_map.mp hw
    simp
  | downloaded passed _ =>
    rw [Ledger.result_update, recordDownloads_eq]
    rfl
  | _ => rfl

/-- Leaving the stages warns only of the interval, and of the advice on a reboot. -/
theorem Exit.warned {kind : FailureKind} (exit : Exit s p l h l' reached)
    (hkind : kind ∉ [FailureKind.intervalNotElapsed, .collaborator]) :
    l'.result.warned kind = l.result.warned kind := by
  simp only [List.mem_cons, List.not_mem_nil, or_false, not_or] at hkind
  cases exit with
  | interrupted watch broken =>
    rw [Ledger.stop_eq, Ledger.result_update, Ledger.result_note, (Spot.ledger_watch? watch).1]
    rfl
  | notDue answer due => exact RunResult.warned_warn _ _ _ (Ne.symm hkind.1)
  | downloadOnly passed _ =>
    simp only [Ledger.result_update, Ledger.result_visit, recordDownloads_eq]
    rfl
  | unadvised passed => exact RunResult.warned_warn _ _ _ (Ne.symm hkind.2)
  | _ => rfl

/-- The stages do not warn of emitters. -/
theorem Trip.complaints (ht : Trip s p l h l' reached) :
    l'.result.complaints = l.result.complaints := by
  induction ht with
  | out exit => exact exit.warned (by decide)
  | on step _ ih => exact ih.trans step.complaints

theorem Persisted.warned {kind : FailureKind} (hp : Persisted reached l h l')
    (hkind : kind ≠ .timestampPersistenceFailure) :
    l'.result.warned kind = l.result.warned kind := by
  cases hp with
  | spared _ | written _ _ _ _ => rfl
  | unwritten _ _ _ _ => exact RunResult.warned_warn _ _ _ hkind.symm

theorem Rebooted.warned {kind : FailureKind} (hr : Rebooted s l h l')
    (hkind : kind ≠ .collaborator) : l'.result.warned kind = l.result.warned kind := by
  cases hr with
  | spared _ | triggered _ _ _ => rfl
  | failed _ _ _ => exact RunResult.warned_warn _ _ _ hkind.symm

/-- A run that closes informs its emitters. -/
theorem Closing.informed (hc : Closing s reached locked l h₂ record) (early : Early h₁)
    (hopen : l.result.outcome ≠ .skipped) (hquiet : l.result.complaints = []) :
    Informed s (h₁ ++ h₂) record := by
  have hdeeds := hc.deeds
  obtain ⟨now, emitted, persisted, rebooted, released⟩ := hc
  rename_i emission persistence reboot release summary l₁ l₂
  have hasked : (h₁ ++ ⟨.now, now⟩ :: (emission ++ (persistence ++ (reboot ++ release)))).during
      .report = emission := by
    refine early.during_report_append now (emitted.begins.asks (keeps_report _ _)) ?_
    rw [History.during_append, persisted.during_eq_nil (by simp) (by simp), List.nil_append]
    exact History.during_eq_nil fun e he => by
      rcases late_of_closing rebooted released e he with heq | heq <;> simp [heq]
  have hwarned : l₂.result.complaints = summary.failed.map undelivered := by
    calc l₂.result.complaints = l₁.result.complaints := rebooted.warned (by decide)
      _ = _ := persisted.warned (by decide)
      _ = l.result.complaints ++ summary.failed.map undelivered :=
        complaints_warnUndelivered _ _
      _ = summary.failed.map undelivered := by rw [hquiet, List.nil_append]
  have houtcome : (finishAt (l₂.note release) now.value).result.outcome = l.result.outcome :=
    outcome_congr hdeeds
  generalize htold : (announced l now).result = told at emitted
  have htruthful : told.deeds = l.result.deeds := htold ▸ rfl
  have htoldOutcome : told.outcome = l.result.outcome := outcome_congr htruthful
  cases Emission.leads_report.mp emitted with
  | silent skipped => exact absurd (htoldOutcome.symm.trans skipped) hopen
  | delivered reported tallied =>
    refine .delivered ?_ (htruthful.trans hdeeds.symm) hasked tallied tallied.parted hwarned
    rw [Emission.isReported, houtcome, ← htoldOutcome]
    exact reported
  | withdrawn upToDate unwanted each =>
    exact .withdrawn (houtcome.trans (htoldOutcome.symm.trans upToDate)) unwanted hasked each
      hwarned

/-- A run that is not due counts as skipped. -/
theorem Trip.outcome_of_skipped (ht : Trip s p l h l' .skipped) : l'.result.outcome = .skipped := by
  refine ht.preserves (fun _ _ _ => True)
    (fun _ l reached => reached = .skipped → l.result.outcome = .skipped) (fun _ _ => trivial) ?_
    [] trivial rfl
  rintro h₀ p l h l' reached exit - hreached
  cases exit with
  | interrupted watch broken => exact absurd hreached (Spot.reached_watch? watch)
  | notDue answer due => rfl
  | _ => cases hreached

/-- A run that is due and gets as far as the lock informs its emitters. -/
theorem informed_of_leads (hl : (run s).Leads h record) (hdue : record.result.outcome ≠ .skipped)
    (hfree : record.result.isAbortedWith .lockContention = false) : Informed s h record := by
  cases course_of_leads hl with
  | contended started answer finished taken => cases hfree
  | unopened started answer failed closing =>
    exact closing.informed (early_begun (h := []) (by simp)) (by simp [RunResult.abort]) rfl
  | skipped started answer finished release locked trip =>
    exact absurd trip.outcome_of_skipped hdue
  | staged started answer locked trip due closing =>
    have hearly : Early (⟨.now, started⟩ :: ⟨.acquireLock, answer⟩ :: _) := early_begun trip.keeps
    refine closing.informed hearly ?_ trip.complaints
    intro hskipped
    exact hdue ((outcome_congr closing.deeds).trans hskipped)

/-- **Emitters are contained.** Two runs in one world, with any emitters that leave it alone, come
to the same but for warnings about emitters, leave the world in the same state, and ask it for the
same with the same answers. And a run that is due and gets as far as the lock informs its emitters,
whatever world it runs in. -/
theorem leads_contained (s : Settings) :
    (∀ {σ τ τ' : Type} (e : Emission.Settings) (world : World σ) (emitters : σ → World τ)
      (emitters' : σ → World τ') (start : σ) (t : τ) (t' : τ'),
      let there := world.beside Request.isForEmitter emitters
      let there' := world.beside Request.isForEmitter emitters'
      let s' := { s with emitters := e }
      AkinRecords ((run s).run there (start, t)).1 ((run s').run there' (start, t')).1 ∧
        ((run s').run there' (start, t')).2.1 = ((run s).run there (start, t)).2.1 ∧
        ((run s').history there' (start, t')).without Request.isForEmitter =
          ((run s).history there (start, t)).without Request.isForEmitter) ∧
    ∀ (h : History) (record : Record), (run s).Leads h record →
      record.result.outcome ≠ .skipped →
        record.result.isAbortedWith .lockContention = false → Informed s h record :=
  ⟨fun e world emitters emitters' start t t' =>
    (alike_run s e).run world emitters emitters' start t t',
    fun _ _ hl hdue hfree => informed_of_leads hl hdue hfree⟩

/-- Settings with three emitters. -/
def reporting : Settings := { applying with emitters := ⟨["stdio", "email", "motd"], false, ⟨0⟩⟩ }

/-- Emitters of which the first delivers, the second fails, and the others take too long. -/
def faulty : World Unit
  | .emit 0 .., u => (atOnce (.inTime (.ok ())), u)
  | .emit 1 .., u => (atOnce (.inTime (.error (.mail "refused"))), u)
  | .emit .., u => (atOnce .expired, u)
  | q, u => smooth [] q u

/-- A run with these emitters informs them, and warns of two; it is the same as one without
emitters. -/
theorem leads_contained_faulty : ∃ h record record', (run reporting).Leads h record ∧
    Informed reporting h record ∧ record.result.complaints.length = 2 ∧
      AkinRecords record record' ∧ record'.result.warnings = [] := by
  have hl := Program.leads_history ((smooth [bash]).beside Request.isForEmitter fun _ => faulty)
    (run reporting) ((), ())
  have hcontained := leads_contained reporting
  have hakin := (hcontained.1 ⟨[], true, ⟨0⟩⟩ (smooth [bash]) (fun _ => faulty) (fun _ => faulty)
    () () ()).1
  exact ⟨_, _, _, hl, hcontained.2 _ _ hl (by decide +kernel) (by decide +kernel),
    by decide +kernel, hakin, by decide +kernel⟩

end

end Run

end Upkeep
