import Upkeep.Proofs.Emission
import Upkeep.Proofs.Run.Standing

/-!
# Interrupted runs

Once cancellation has been requested, a run asks for nothing that belongs to another stage than the
one it is in: every stage is guarded, and a guard asks for nothing when cancellation comes first. A
run that comes to a guarded stage after that is halted. It still reports, as one that was
interrupted, and lets go of the lock; it neither writes the marker nor reboots.

The stage that is running may go on, though, as long as no answer has to be waited for. What that
means for the end of a run is another matter, and is not treated here.

## Main definitions

* `Phase.isStage`, `History.stage?`: the stages, and the one that asked last.
* `Enters`: a run comes to a guarded stage.
* `Halted`: how an interrupted run ends.

## Main results

* `each_lingers`: after a request for cancellation only the stage that asked last goes on.
* `halted_of_enters`: a run that comes to a guarded stage after that is halted.
* `leads_halted`: both, for every run.
-/

namespace Upkeep

/-- Whether a part of a run is one of its stages, in which cancellation is watched for. -/
def Phase.isStage : Phase → Bool
  | .sleep | .network | .metadata | .query | .download | .transaction | .advice => true
  | .clock | .lock | .interval | .report | .persist | .reboot => false

namespace History

/-- The stage that was the last to ask for something. -/
def stage? (h : History) : Option Phase :=
  ((h.map fun e => e.request.phase).filter Phase.isStage).getLast?

/-- What is asked for after a request for cancellation belongs to the stage that asked last. -/
def Lingers (before : History) (e : Event) : Prop :=
  e.request.phase.isStage = true → before.cancelled = true →
    before.stage? = some e.request.phase

variable {h h₀ : History} {phase : Phase} {e : Event}

theorem stage?_append_singleton (h : History) (hstage : e.request.phase.isStage = true) :
    stage? (h ++ [e]) = some e.request.phase := by
  simp [stage?, hstage]

theorem stage?_append_quiet (h : History) (hquiet : e.request.phase.isStage = false) :
    stage? (h ++ [e]) = h.stage? := by
  simp [stage?, hquiet]

theorem stage?_append_of_forall (h₀ : History) (hh : ∀ e ∈ h, e.request.phase = phase)
    (hstage : phase.isStage = true) (hne : h ≠ []) : stage? (h₀ ++ h) = some phase := by
  obtain ⟨start, e, rfl⟩ := h.eq_nil_or_concat.resolve_left hne
  rw [List.concat_eq_append] at hh ⊢
  obtain rfl := hh e (by simp)
  rw [← List.append_assoc]
  exact stage?_append_singleton _ hstage

theorem mem_of_stage?_eq_some (hh : h.stage? = some phase) : ∃ e ∈ h, e.request.phase = phase := by
  have hmem := List.mem_of_getLast? hh
  exact List.mem_map.mp (List.mem_filter.mp hmem).1

/-- What belongs to one part of the run lingers if nothing of it comes after a request for
cancellation that was made before. -/
theorem each_lingers_of_keeps (hh : ∀ e ∈ h, e.request.phase = phase)
    (hfresh : phase.isStage = true → h ≠ [] → h₀.cancelled = false) :
    h.Each fun before e => Lingers (h₀ ++ before) e := by
  rintro before e after rfl hstage hcancelled
  obtain rfl := hh e (by simp)
  rw [cancelled_append, hfresh hstage (by simp), Bool.false_or] at hcancelled
  refine stage?_append_of_forall h₀ (fun e' he' => hh e' (by simp [he'])) hstage ?_
  rintro rfl
  cases hcancelled

theorem each_lingers_of_quiet (h₀ : History) (hquiet : ∀ e ∈ h, e.request.phase.isStage = false) :
    h.Each fun before e => Lingers (h₀ ++ before) e := by
  refine each_of_forall fun e he before hstage => ?_
  rw [hquiet e he] at hstage
  cases hstage

/-- What lingers keeps the stage. -/
theorem Each.stage?_eq {before after : History} (hh : (before ++ after).Each Lingers)
    (hcancelled : before.cancelled = true) :
    ∀ e ∈ after, e.request.phase.isStage = true → before.stage? = some e.request.phase := by
  induction after generalizing before with
  | nil => simp
  | cons e' after ih =>
    intro e he hstage
    rcases List.mem_cons.mp he with rfl | he
    · exact hh before e after rfl hstage hcancelled
    · have hlater := @ih (before ++ [e']) (by rwa [← List.append_cons]) (by simp [hcancelled])
        e he hstage
      cases hstage' : e'.request.phase.isStage with
      | false => rwa [stage?_append_quiet before hstage'] at hlater
      | true =>
        rw [stage?_append_singleton before hstage'] at hlater
        rw [← hlater]
        exact hh before e' after rfl hstage' hcancelled

end History

/-- An interrupted run exits with a status of its own. -/
theorem RunResult.exitCode_of_interrupted {r : RunResult}
    (hr : r.isAbortedWith .interrupted = true) : r.exitCode = 130 := by
  obtain ⟨houtcome, hkind⟩ := Bool.and_eq_true_iff.mp hr
  rw [exitCode, eq_of_beq houtcome, eq_of_beq hkind]

namespace Run

/-- The run comes to a guarded stage. -/
def Enters (s : Settings) (h : History) : Prop :=
  ∃ p l, Stands s h p l ∧ (p.watch? s l).isSome = true

/-- How an interrupted run ends. -/
structure Halted (s : Settings) (h : History) (record : Record) : Prop where
  /-- It was aborted, and for that reason. -/
  aborted : record.result.isAbortedWith .interrupted = true
  /-- Its exit status says so. -/
  status : record.result.exitCode = 130
  /-- Every emitter was asked once to deliver the one report of what the run did. -/
  reported : ∃ told : RunResult, told.deeds = record.result.deeds ∧
    (h.during .report).map Event.request = (List.range' 0 s.emitters.names.length).map fun i =>
      .emit i told (Report.render told) s.emitters.limit
  /-- The marker was not written. -/
  unmarked : h.during .persist = []
  /-- There was no reboot. -/
  running : h.during .reboot = []
  /-- The lock was taken, and let go of. -/
  released : ∃ (answer : Answer (Except LockError Unit)) (release : Answer Unit),
    answer.value = .ok () ∧ h.during .lock = [⟨.acquireLock, answer⟩, ⟨.releaseLock, release⟩]

section

variable {s : Settings} {p p' : Spot} {l l' : Ledger} {h h₁ h₂ : History} {reached : Reached}
  {record : Record}

/-! ### The stage that is running -/

/-- A stage that asks for something was not cancelled before. -/
theorem Step.fresh (step : Step s p l h p' l') (hstage : p.phase.isStage = true) (hne : h ≠ []) :
    l.cancelled = false := by
  cases step with
  | due _ _ | timed _ => cases hstage
  | awake _ | hasty _ | waiting _ | impatient => exact absurd rfl hne
  | slept _ passed | online passed | overdue passed _ _ | offline passed _ _ | rested passed
  | refreshed passed | offered passed _ _ | downloaded passed _ | applied passed
  | refused passed _ _ => exact passed.1

/-- A stage that asks for something was not cancelled before, also when it is the last one. -/
theorem Exit.fresh (exit : Exit s p l h l' reached) (hstage : p.phase.isStage = true)
    (hne : h ≠ []) : l.cancelled = false := by
  cases exit with
  | interrupted watch broken =>
    rcases broken with ⟨-, hnil⟩ | ⟨hcancelled, -⟩
    · exact absurd hnil hne
    · exact (Spot.ledger_watch? watch).2.symm.trans hcancelled
  | notDue _ _ => cases hstage
  | unavailable passed | unanswered passed | upToDate passed | reportOnly passed _ _
  | downloadOnly passed _ | stateUnknown passed _ | rejected passed _ _ | unadvised passed
  | advised passed => exact passed.1

theorem Stands.each_lingers (hs : Stands s h p l) : h.Each History.Lingers := by
  induction hs with
  | locked started answer locked =>
    exact History.each_lingers_of_quiet [] (by simp [Request.phase, Phase.isStage])
  | on before step ih =>
    refine History.each_append ih (History.each_lingers_of_keeps step.keeps fun hstage hne => ?_)
    rw [← before.cancelled]
    exact step.fresh hstage hne

theorem Closing.quiet {locked : Bool} (hc : Closing s reached locked l h record) :
    ∀ e ∈ h, e.request.phase.isStage = false := by
  intro e he
  have hphase := hc.keeps e he
  simp only [List.mem_cons, List.not_mem_nil, or_false] at hphase
  rcases hphase with hphase | hphase | hphase | hphase | hphase <;> rw [hphase] <;> rfl

/-- **After a request for cancellation only the stage that asked last goes on.** -/
theorem each_lingers (hl : (run s).Leads h record) : h.Each History.Lingers := by
  have htrip : ∀ {started : Answer Instant} {answer : Answer (Except LockError Unit)}
      {h : History} {l : Ledger} {reached : Reached}, answer.value = .ok () →
      Trip s .gate (begun s started answer) h l reached →
      History.Each History.Lingers ([⟨.now, started⟩, ⟨.acquireLock, answer⟩] ++ h) := by
    intro started answer h l reached hlocked trip
    obtain ⟨h₁, h₂, p₁, l₁, heq, hs, exit⟩ :=
      trip.exists_exit _ (.locked started answer hlocked)
    rw [heq]
    refine History.each_append hs.each_lingers
      (History.each_lingers_of_keeps exit.keeps fun hstage hne => ?_)
    rw [← hs.cancelled]
    exact exit.fresh hstage hne
  cases course_of_leads hl with
  | contended started answer finished taken =>
    exact History.each_lingers_of_quiet [] (by simp [Request.phase, Phase.isStage])
  | unopened started answer failed closing =>
    refine History.each_lingers_of_quiet [] fun e he => ?_
    simp only [List.mem_cons] at he
    rcases he with rfl | rfl | he
    · rfl
    · rfl
    · exact closing.quiet e he
  | skipped started answer finished release locked trip =>
    exact History.each_append (htrip locked trip)
      (History.each_lingers_of_quiet _ (by simp [Request.phase, Phase.isStage]))
  | staged started answer locked trip due closing =>
    exact History.each_append (htrip locked trip) (History.each_lingers_of_quiet _ closing.quiet)

/-! ### How an interrupted run ends -/

/-- A spot asks for nothing about the lock. -/
theorem Spot.during_lock (h₀ : History) (hkeeps : ∀ e ∈ h, e.request.phase = p.phase) :
    History.during .lock (h₀ ++ h) = h₀.during .lock :=
  History.during_append_of_ne .lock h₀ hkeeps (by cases p <;> simp)

theorem Stands.during_lock (hs : Stands s h p l) : ∃ answer : Answer (Except LockError Unit),
    answer.value = .ok () ∧ h.during .lock = [⟨.acquireLock, answer⟩] := by
  induction hs with
  | locked started answer locked => exact ⟨answer, locked, rfl⟩
  | on before step ih =>
    rw [Spot.during_lock _ step.keeps]
    exact ih

/-- A run that is unsettled only reports, and lets go of the lock. -/
theorem Closing.of_isUnsettled (hc : Closing s reached true l h record)
    (hunsettled : isUnsettled l.result = true) :
    ∃ (now : Answer Instant) (emission : History) (summary : Emission.Summary)
      (release : Answer Unit), h = ⟨.now, now⟩ :: (emission ++ [⟨.releaseLock, release⟩]) ∧
        (Emission.report s.emitters (announced l now).result).Leads emission summary := by
  obtain ⟨now, emitted, persisted, rebooted, release, rfl⟩ := hc
  rename_i emission persistence reboot summary l₁ l₂
  have hwarned : isUnsettled
      ((announced l now).update (warnUndelivered summary.failed)).result = true := by
    rw [Ledger.result_update, isUnsettled_congr (deeds_warnUndelivered _ _)]
    exact hunsettled
  cases persisted with
  | written settled _ _ _ | unwritten settled _ _ _ =>
    rw [settles, hwarned, Bool.not_true, Bool.and_false] at settled
    cases settled
  | spared open_ =>
    cases rebooted with
    | triggered due _ _ | failed due _ _ =>
      rw [reboots, hwarned, Bool.not_true, Bool.and_false] at due
      cases due
    | spared quiet => exact ⟨now, emission, summary, release, rfl, emitted⟩

/-- A run that closes after an interruption is halted. -/
theorem Closing.halted (hc : Closing s reached true l h₂ record) (early : Early h₁)
    (hlock : ∃ answer : Answer (Except LockError Unit),
      answer.value = .ok () ∧ h₁.during .lock = [⟨.acquireLock, answer⟩])
    (hinterrupted : l.result.isAbortedWith .interrupted = true) : Halted s (h₁ ++ h₂) record := by
  have hdeeds := hc.deeds
  have haborted := (isAbortedWith_congr hdeeds .interrupted).trans hinterrupted
  obtain ⟨now, emission, summary, release, rfl, emitted⟩ :=
    hc.of_isUnsettled (by simp [isUnsettled, hinterrupted])
  obtain ⟨answer, hlocked, hlock⟩ := hlock
  have hreport := emitted.begins.asks (keeps_report _ _)
  have hclose : ∀ phase, phase ≠ .report → History.during phase emission = [] :=
    fun phase hphase => History.during_eq_nil fun e he => hreport e he ▸ hphase.symm
  have houtcome : (announced l now).result.outcome = .aborted :=
    eq_of_beq (Bool.and_eq_true_iff.mp hinterrupted).1
  rw [Emission.report, houtcome, if_neg (by decide),
    if_pos (by rw [Emission.isReported, houtcome])] at emitted
  refine ⟨haborted, RunResult.exitCode_of_interrupted haborted,
    ⟨(announced l now).result, hdeeds.symm, ?_⟩, ?_, ?_, answer, release, hlocked, ?_⟩ <;>
      rw [List.append_cons, History.during_append, History.during_append, History.during_append]
  · rw [early.during_eq_nil (by simp), History.during_eq_self hreport,
      ← Emission.requests_of_leads_deliver emitted]
    simp [History.during, Request.phase]
  · rw [early.during_eq_nil (by simp), hclose _ (by simp)]
    rfl
  · rw [early.during_eq_nil (by simp), hclose _ (by simp)]
    rfl
  · rw [hlock, hclose _ (by simp)]
    rfl

/-- An interruption is the first reason to abort a run. -/
theorem isAbortedWith_interrupted {w : Watch} (watch : p.watch? s l = some w)
    (hkind : l.result.abortKind = none) :
    ((w.ledger.note h).stop w.stage .interrupted).result.isAbortedWith .interrupted = true := by
  have hresult := (Spot.ledger_watch? watch).1
  simp [RunResult.isAbortedWith, RunResult.abort, RunResult.fail, hresult, hkind, RunError.kind]

/-- **A run that comes to a guarded stage after a request for cancellation** is halted, and none
of its stages asks for anything more. -/
theorem halted_of_enters (hl : (run s).Leads (h₁ ++ h₂) record) (henters : Enters s h₁)
    (hcancelled : h₁.cancelled = true) :
    (∀ e ∈ h₂, e.request.phase.isStage = false) ∧ Halted s (h₁ ++ h₂) record := by
  obtain ⟨p, l, hs, hwatch⟩ := henters
  obtain ⟨w, hwatch⟩ := Option.isSome_iff_exists.mp hwatch
  have hrest := hs.after.leads_iff.mp hl
  rw [stagesFrom_of_cancelled hwatch (hs.cancelled.trans hcancelled), Program.done_bind,
    conclude_eq_emit _ (Spot.reached_watch? hwatch)] at hrest
  have hclosing := closing_of_leads hrest
  have hinterrupted := isAbortedWith_interrupted (h := []) hwatch hs.pending.abortKind
  exact ⟨hclosing.quiet, hclosing.halted hs.early hs.during_lock hinterrupted⟩

/-- **Whenever cancellation is requested, a run asks for nothing that belongs to another stage
than the one that is running then**; in particular it applies nothing unless it had come to that.
If it comes to a guarded stage afterwards, it is halted. -/
theorem leads_halted (hl : (run s).Leads h record) :
    (∀ (before : History) (e : Event) (after : History), h = before ++ e :: after →
      e.answer.cancelled = true →
      (∀ e' ∈ after, e'.request.phase.isStage = true →
        History.stage? (before ++ [e]) = some e'.request.phase) ∧
      (History.during .transaction (before ++ [e]) = [] → after.during .transaction = [])) ∧
    (∀ before after : History, h = before ++ after → before.cancelled = true → Enters s before →
      (∀ e ∈ after, e.request.phase.isStage = false) ∧ Halted s h record) := by
  have heach := each_lingers hl
  refine ⟨?_, ?_⟩
  · rintro before e after rfl hcancelled
    rw [List.append_cons] at heach
    have hstage := heach.stage?_eq (by simp [hcancelled])
    refine ⟨hstage, fun hnone => History.during_eq_nil fun e' he' heq => ?_⟩
    have htransaction := hstage e' he' (by rw [heq]; rfl)
    rw [heq] at htransaction
    obtain ⟨e'', he'', hphase⟩ := History.mem_of_stage?_eq_some htransaction
    rw [History.during, List.filter_eq_nil_iff] at hnone
    exact hnone e'' he'' (by simpa using hphase)
  · rintro before after rfl hcancelled henters
    exact halted_of_enters hl henters hcancelled

/-- A world that is the same otherwise, but in which cancellation is requested while some requests
are answered. -/
def struck (struck : Request → Bool) (world : World Unit) : World Unit :=
  fun q u => ({ (world q u).1 with cancelled := struck q }, (world q u).2)

/-- Settings under which a timer starts a run, which then sleeps first. -/
def sleeping : Settings :=
  { applying with
    config := { commands := { applyUpdates := true, randomSleepSecs := 60 } }
    timer := true }

/-- A run that is cancelled before it starts comes to its sleep, and is halted there. -/
theorem leads_halted_sleeping : ∃ h record, (run sleeping).Leads h record ∧
    Halted sleeping h record := by
  have hl := Program.leads_history (struck (fun q => q.phase = .clock) (smooth [bash]))
    (run sleeping) ()
  have hsleep : Stands sleeping [⟨.now, ⟨⟨0, 0⟩, false, true⟩⟩, ⟨.acquireLock, atOnce (.ok ())⟩,
      ⟨.readMarker, atOnce none⟩] .sleep _ :=
    .on (.locked _ _ rfl) (.due _ rfl)
  exact ⟨_, _, hl, ((leads_halted hl).2 _ _ rfl rfl ⟨_, _, hsleep, rfl⟩).2⟩

end

end Run

end Upkeep
