import Upkeep.Proofs.Run.Course
import Upkeep.Proofs.Selection

/-!
# When a run settles

A run settles when its query was answered and what is installed is known at its end. Exactly then
it writes the last-run marker, once and after the report, and the run goes on in the same way
whether that succeeds or not: a marker that could not be written adds a warning.

How far a run got is in no result. But the outcome tells it (`Concluded`): a run that was not
aborted has either been skipped or had an answer to its query, and of the aborts only a refused
transaction comes after the answer and leaves no doubt about what is installed.

## Main definitions

* `History.answered`, `Settled`: what it means to settle.
* `RunResult.IsSettled`: the same, as far as a result tells it.
* `Ends`: a run closes in any way there is, or does not report.
* `Attempted`: how a run writes the marker.

## Main results

* `Trip.concluded`: whether a run settles, told from its history and from its result.
* `settling_of_leads`: a run writes the marker if and only if it settled.
-/

namespace Upkeep

/-- Whether the event is an answer to the query for upgrades. -/
def Event.offers : Event → Bool
  | ⟨.query .., answer⟩ =>
    match answer.value with
    | .inTime (.ok _) => true
    | _ => false
  | _ => false

/-- Whether the query for upgrades was answered. -/
def History.answered (h : History) : Bool := h.any Event.offers

namespace History

theorem answered_append (h₁ h₂ : History) :
    answered (h₁ ++ h₂) = (answered h₁ || answered h₂) := by
  simp [answered]

theorem answered_eq_false {h : History} (hh : ∀ e ∈ h, e.request.phase ≠ .query) :
    h.answered = false := by
  rw [answered, List.any_eq_false]
  intro e he
  obtain ⟨q, answer⟩ := e
  have hphase := hh _ he
  cases q with
  | query repositories limit => exact absurd rfl hphase
  | _ => exact Bool.false_ne_true

end History

/-- A query was answered if it comes to candidates. -/
theorem Upgrades.answered_of_leads {scope : Scope} {exclude available : List String} {limit : Span}
    {h : History} {r : Except RunError (List Candidate)}
    (hl : (list scope exclude available limit).Leads h r) : h.answered = r.toBool := by
  obtain ⟨answer, rest, rfl, rfl, rfl⟩ := hl
  rw [History.answered, List.any_cons, List.any_nil, Bool.or_false, Event.offers]
  rcases answer.value with (reason | offered) | _
  · rfl
  · rfl
  · rfl

/-- The result is that of a run that settled. -/
def RunResult.IsSettled (r : RunResult) : Prop :=
  r.outcome = .upToDate ∨ r.outcome = .completed ∨ r.outcome = .partialFailure ∨
    r.isAbortedWith .transactionRejected = true

namespace Run

/-! ### What the stages conclude -/

/-- Whether a query comes before a spot. -/
def Spot.isLate : Spot → Bool
  | .download | .transaction _ | .advice => true
  | _ => false

/-- A run among its stages: it was not aborted, and its query was answered if it came to that. -/
structure Pending (h : History) (p : Spot) (r : RunResult) : Prop where
  /-- The run was not aborted. -/
  abortKind : r.abortKind = none
  /-- Unless something happens, it will count as done. -/
  outcome : r.outcome = .completed ∨ r.outcome = .partialFailure
  /-- The query was answered if the run is past it. -/
  answered : h.answered = p.isLate

/-- A run past its stages: how far it got is told by its history, and by its result. -/
structure Concluded (h : History) (reached : Reached) (r : RunResult) : Prop where
  /-- The history tells it, unless the run is unsettled anyway. -/
  answered : isUnsettled r = false → h.answered = (reached == .queried)
  /-- The result tells it. -/
  settled : settles reached r = true ↔ r.IsSettled

section

variable {s : Settings} {p p' : Spot} {l l' : Ledger} {h h₀ : History} {reached : Reached}
  {locked : Bool} {record : Record}

theorem Step.pending (step : Step s p l h p' l') (hinv : Pending h₀ p l.result) :
    Pending (h₀ ++ h) p' l'.result := by
  have hquiet : p.phase ≠ .query → (h₀ ++ h).answered = p.isLate := by
    intro hphase
    have hnone := History.answered_eq_false fun e he => step.keeps e he ▸ hphase
    rw [History.answered_append, hnone, Bool.or_false, hinv.answered]
  obtain ⟨hkind, houtcome, hanswered⟩ := hinv
  cases step with
  | due _ _ | awake _ | slept _ _ | hasty _ | waiting _ | impatient | online _ | overdue _ _ _
  | offline _ _ _ | rested _ | timed _ => exact ⟨hkind, houtcome, hquiet (by simp)⟩
  | refreshed passed =>
    rw [Ledger.result_update, warnDegraded_eq]
    exact ⟨hkind, houtcome, hquiet (by simp)⟩
  | offered passed some wanted =>
    refine ⟨hkind, houtcome, ?_⟩
    rw [History.answered_append, Upgrades.answered_of_leads passed.2.1]
    exact Bool.or_true _
  | downloaded passed wanted =>
    rw [Ledger.result_update, recordDownloads_eq]
    exact ⟨hkind, houtcome, hquiet (by simp)⟩
  | applied passed =>
    refine ⟨hkind, ?_, hquiet (by simp)⟩
    simp only [Ledger.result_update, doneOutcome]
    split
    · exact Or.inr rfl
    · exact Or.inl rfl
  | refused passed known partly => exact ⟨hkind, Or.inr rfl, hquiet (by simp)⟩

/-- A run that is aborted by an interruption is unsettled, however far it got. -/
theorem concluded_interrupted {r : RunResult} (hkind : r.abortKind = none) (stage : Stage)
    (reason : String) (h : History) (reached : Reached) :
    Concluded h reached (r.abort stage .interrupted reason) := by
  have hunsettled : isUnsettled (r.abort stage .interrupted reason) = true := by
    simp [isUnsettled, RunResult.isAbortedWith, RunResult.abort, hkind]
  refine ⟨fun hsettled => ?_, ?_⟩
  · rw [hunsettled] at hsettled
    cases hsettled
  · rw [settles, hunsettled, Bool.not_true, Bool.and_false]
    simp [RunResult.IsSettled, RunResult.isAbortedWith, RunResult.abort, hkind]

/-- A run that is stopped short of an answer does not settle. -/
theorem concluded_stopped {r : RunResult} {kind : FailureKind} (hkind : r.abortKind = none)
    (stage : Stage) (reason : String) (hanswered : h.answered = false)
    (hne : kind ≠ .transactionRejected) : Concluded h .stopped (r.abort stage kind reason) := by
  refine ⟨fun _ => hanswered, ?_⟩
  simp [settles, RunResult.IsSettled, RunResult.isAbortedWith, RunResult.abort, hkind, hne]

/-- A run that was not aborted settles if its query was answered. -/
theorem concluded_queried {r : RunResult} (hanswered : h.answered = true)
    (houtcome : r.outcome = .upToDate ∨ r.outcome = .completed ∨ r.outcome = .partialFailure) :
    Concluded h .queried r := by
  refine ⟨fun _ => hanswered, ?_⟩
  rcases houtcome with houtcome | houtcome | houtcome <;>
    simp [settles, isUnsettled, RunResult.IsSettled, RunResult.isAbortedWith, houtcome]

theorem Exit.concluded (exit : Exit s p l h l' reached) (hinv : Pending h₀ p l.result) :
    Concluded (h₀ ++ h) reached l'.result := by
  have hquiet : p.phase ≠ .query → (h₀ ++ h).answered = p.isLate := by
    intro hphase
    have hnone := History.answered_eq_false fun e he => exit.keeps e he ▸ hphase
    rw [History.answered_append, hnone, Bool.or_false, hinv.answered]
  have hlist : ∀ {available : List String} {answer : Except RunError (List Candidate)},
      p = .query available →
      (Upgrades.list s.config.scope s.config.base.excludePkgs available s.metadataLimit).Leads h
        answer → (h₀ ++ h).answered = answer.toBool := by
    rintro available answer rfl hleads
    rw [History.answered_append, hinv.answered, Upgrades.answered_of_leads hleads]
    rfl
  obtain ⟨hkind, houtcome, hanswered⟩ := hinv
  cases exit with
  | interrupted watch broken =>
    rw [Ledger.stop_eq, Ledger.result_update, Ledger.result_note, (Spot.ledger_watch? watch).1]
    exact concluded_interrupted hkind _ _ _ _
  | notDue answer due =>
    refine ⟨fun _ => hquiet (by simp), ?_⟩
    simp [settles, RunResult.IsSettled, RunResult.isAbortedWith, RunResult.warn]
  | unavailable passed =>
    rename_i e
    exact concluded_stopped hkind _ _ (hquiet (by simp)) (by cases e <;> simp [RunError.kind])
  | unanswered passed =>
    rename_i e
    exact concluded_stopped hkind _ _ (hlist rfl passed.2.1) (by cases e <;> simp [RunError.kind])
  | upToDate passed => exact concluded_queried (hlist rfl passed.2.1) (Or.inl rfl)
  | reportOnly passed some mode =>
    exact concluded_queried (hlist rfl passed.2.1) (Or.inr (Or.inl rfl))
  | downloadOnly passed mode =>
    refine concluded_queried (hquiet (by simp)) (Or.inr ?_)
    simp only [Ledger.result_visit, Ledger.result_update, doneOutcome]
    split
    · exact Or.inr rfl
    · exact Or.inl rfl
  | stateUnknown passed unknown =>
    refine ⟨fun hsettled => ?_, ?_⟩
    · simp [isUnsettled, RunResult.isAbortedWith, RunResult.abort, hkind] at hsettled
    · simp [settles, isUnsettled, RunResult.IsSettled, RunResult.isAbortedWith, RunResult.abort,
        hkind]
  | rejected passed known whole =>
    refine ⟨fun _ => hquiet (by simp), ?_⟩
    simp [settles, isUnsettled, RunResult.IsSettled, RunResult.isAbortedWith, RunResult.abort,
      hkind]
  | unadvised passed | advised passed =>
    exact concluded_queried (hquiet (by simp)) (Or.inr houtcome)

/-- **Whether a run settles is told by its history, and by its result.** -/
theorem Trip.concluded {started : Answer Instant} {answer : Answer (Except LockError Unit)}
    (ht : Trip s .gate (begun s started answer) h l reached) :
    Concluded (⟨.now, started⟩ :: ⟨.acquireLock, answer⟩ :: h) reached l.result :=
  ht.preserves (fun h p l => Pending h p l.result) (fun h l reached => Concluded h reached l.result)
    (fun step hinv => step.pending hinv) (fun exit hinv => exit.concluded hinv) [_, _]
    ⟨rfl, Or.inl rfl, rfl⟩

/-- Only at the lock is a run aborted for want of it. -/
theorem Exit.uncontended (exit : Exit s p l h l' reached) (hkind : l.result.abortKind = none) :
    l'.result.isAbortedWith .lockContention = false := by
  have habort : ∀ {r : RunResult} {kind : FailureKind} (stage : Stage) (reason : String),
      r.abortKind = none → kind ≠ .lockContention →
        (r.abort stage kind reason).isAbortedWith .lockContention = false := by
    intro r kind stage reason hr hne
    simp [RunResult.isAbortedWith, RunResult.abort, hr, hne]
  have hsame : ∀ {r : RunResult}, r.abortKind = none →
      r.isAbortedWith .lockContention = false := by
    intro r hr
    simp [RunResult.isAbortedWith, hr]
  have hstopped : ∀ e : RunError, e.kind ≠ .lockContention := by
    intro e
    cases e <;> simp [RunError.kind]
  cases exit with
  | interrupted watch broken =>
    rw [Ledger.stop_eq, Ledger.result_update, Ledger.result_note, (Spot.ledger_watch? watch).1]
    exact habort _ _ hkind (hstopped _)
  | unavailable passed | unanswered passed => exact habort _ _ hkind (hstopped _)
  | stateUnknown passed _ | rejected passed _ _ => exact habort _ _ hkind (by simp)
  | downloadOnly passed _ =>
    simp only [Ledger.result_update, Ledger.result_visit, recordDownloads_eq]
    exact hsame hkind
  | notDue _ _ | upToDate _ | reportOnly _ _ _ | unadvised _ | advised _ => exact hsame hkind

theorem Trip.uncontended {started : Answer Instant} {answer : Answer (Except LockError Unit)}
    (ht : Trip s .gate (begun s started answer) h l reached) :
    l.result.isAbortedWith .lockContention = false :=
  ht.preserves (fun h p l => Pending h p l.result)
    (fun _ l _ => l.result.isAbortedWith .lockContention = false)
    (fun step hinv => step.pending hinv) (fun exit hinv => exit.uncontended hinv.abortKind)
    [] ⟨rfl, Or.inl rfl, rfl⟩

/-! ### How a run ends -/

/-- Whether a run settled is a matter of its deeds. -/
theorem isUnsettled_congr {r r' : RunResult} (h : r'.deeds = r.deeds) :
    isUnsettled r' = isUnsettled r := by
  rw [← isUnsettled_deeds, h, isUnsettled_deeds]

/-- The outcome is a matter of the deeds. -/
theorem outcome_congr {r r' : RunResult} (h : r'.deeds = r.deeds) : r'.outcome = r.outcome := by
  have houtcome := congrArg RunResult.outcome h
  exact houtcome

theorem isAbortedWith_congr {r r' : RunResult} (h : r'.deeds = r.deeds) (kind : FailureKind) :
    r'.isAbortedWith kind = r.isAbortedWith kind := by
  have haborted := congrArg (·.isAbortedWith kind) h
  exact haborted

theorem isSettled_congr {r r' : RunResult} (h : r'.deeds = r.deeds) :
    r'.IsSettled ↔ r.IsSettled := by
  have hdeeds : ∀ r : RunResult, r.IsSettled ↔ r.deeds.IsSettled := fun r => Iff.rfl
  rw [hdeeds r', h, ← hdeeds]

/-- A run settled: its query was answered, and what is installed is known at its end. -/
def Settled (h : History) (record : Record) : Prop :=
  h.answered = true ∧ isUnsettled record.result = false

/-- A run that concluded settles if it got an answer and its deeds stay as they are. -/
theorem Concluded.settled_iff {h' : History} (hc : Concluded h reached l.result) (record : Record)
    (hquiet : ∀ e ∈ h', e.request.phase ≠ .query) (hdeeds : record.result.deeds = l.result.deeds) :
    (Settled (h ++ h') record ↔ settles reached l.result = true) ∧
      (Settled (h ++ h') record ↔ record.result.IsSettled) := by
  have hsettles : Settled (h ++ h') record ↔ settles reached l.result = true := by
    rw [Settled, History.answered_append, History.answered_eq_false hquiet, Bool.or_false,
      isUnsettled_congr hdeeds, settles, Bool.and_eq_true, Bool.not_eq_true']
    constructor
    · rintro ⟨hanswered, hsettled⟩
      exact ⟨(hc.answered hsettled).symm.trans hanswered, hsettled⟩
    · rintro ⟨hreached, hsettled⟩
      exact ⟨(hc.answered hsettled).trans hreached, hsettled⟩
  refine ⟨hsettles, ?_⟩
  rw [hsettles, hc.settled, isSettled_congr hdeeds]

/-- What the run asks for belongs to its stages or is done before them. -/
def Early (h : History) : Prop := ∀ e ∈ h, e.request.phase ∉ [Phase.report, .persist, .reboot]

/-- How a run ends: it closes, and may close in every way there is; or it does not report. -/
inductive Ends (s : Settings) : History → Record → Prop
  /-- The run does not report. -/
  | silent {h : History} {record : Record} (early : Early h) (open_ : ¬Settled h record)
      (result : ¬record.result.IsSettled) : Ends s h record
  /-- The run closes. -/
  | closed {h₁ h₂ : History} {reached : Reached} {locked : Bool} {l : Ledger} {record : Record}
      (early : Early h₁) (concluded : Concluded h₁ reached l.result)
      (closing : Closing s reached locked l h₂ record)
      (free : ∀ h₂' record', Closing s reached locked l h₂' record' →
        (run s).Leads (h₁ ++ h₂') record') :
      Ends s (h₁ ++ h₂) record

theorem early_begun {started : Answer Instant} {answer : Answer (Except LockError Unit)}
    (hh : ∀ e ∈ h, e.request.phase ∉ [Phase.lock, .report, .persist, .reboot]) :
    Early (⟨.now, started⟩ :: ⟨.acquireLock, answer⟩ :: h) := by
  intro e he
  rcases List.mem_cons.mp he with rfl | he
  · simp [Request.phase]
  · rcases List.mem_cons.mp he with rfl | he
    · simp [Request.phase]
    · exact fun hmem => hh e he (List.mem_cons_of_mem _ hmem)

/-- A run that has been through its stages closes. -/
theorem ends_conclude {started : Answer Instant} {answer : Answer (Except LockError Unit)}
    {h' : History} (hlocked : answer.value = .ok ())
    (hgate : (gate s (begun s started answer)).Leads h (l, reached)) (hdue : reached ≠ .skipped)
    (hend : (conclude s (l, reached)).Leads h' record) :
    Ends s (⟨.now, started⟩ :: ⟨.acquireLock, answer⟩ :: (h ++ h')) record := by
  have htrip := trip_of_leads hgate
  rw [conclude_eq_emit l hdue] at hend
  rw [← List.cons_append, ← List.cons_append]
  refine .closed (early_begun htrip.keeps) htrip.concluded (closing_of_leads hend) ?_
  intro h₂' record' hclosing
  refine leads_run.mpr ⟨started, answer, h ++ h₂', rfl, ?_⟩
  rw [hlocked]
  refine Program.leads_bind.mpr ⟨h, (l, reached), h₂', rfl, hgate, ?_⟩
  rw [conclude_eq_emit l hdue]
  exact hclosing.leads

/-- A run that is not due does not report. -/
theorem ends_skipped {started : Answer Instant} {answer : Answer (Except LockError Unit)}
    {h' : History} (hgate : (gate s (begun s started answer)).Leads h (l, .skipped))
    (hend : (conclude s (l, .skipped)).Leads h' record) :
    Ends s (⟨.now, started⟩ :: ⟨.acquireLock, answer⟩ :: (h ++ h')) record := by
  have htrip := trip_of_leads hgate
  obtain ⟨h₃, r, h₄, rfl, hfinish, release, rest, rfl, rfl, rfl⟩ := Program.leads_bind.mp hend
  have hopen : l.result.finishedAt = none := congrArg (·.2.1) htrip.frame
  obtain ⟨finished, rfl, rfl⟩ := leads_finish hopen hfinish
  have hend : ∀ e ∈ ([⟨.now, finished⟩, ⟨.releaseLock, release⟩] : History),
      e.request.phase ∈ [Phase.clock, .lock] := by
    simp [Request.phase]
  obtain ⟨hsettles, hresult⟩ := htrip.concluded.settled_iff
    (finishAt (l.note [⟨.now, finished⟩]) finished.value)
    (fun e he heq => absurd (hend e he) (by simp [heq])) rfl
  have hopen' : ¬settles .skipped l.result = true := Bool.false_ne_true
  refine .silent ?_ (fun hs => hopen' (hsettles.mp hs))
    fun hr => hopen' (hsettles.mp (hresult.mpr hr))
  rw [List.singleton_append, ← List.cons_append, ← List.cons_append]
  intro e he
  rcases List.mem_append.mp he with he | he
  · exact early_begun htrip.keeps e he
  · have hphase := hend e he
    intro hmem
    simp only [List.mem_cons, List.not_mem_nil, or_false] at hphase hmem
    rcases hphase with hphase | hphase <;> simp [hphase] at hmem

/-- A run that finds the lock taken does not report. -/
theorem ends_contended {started : Answer Instant} {answer : Answer (Except LockError Unit)}
    {holder : Option Holder} (hcontended : answer.value = .error (.alreadyRunning holder))
    (hend : (entered s (begun s started answer) answer.value).Leads h record) :
    Ends s (⟨.now, started⟩ :: ⟨.acquireLock, answer⟩ :: h) record := by
  rw [hcontended, entered] at hend
  obtain ⟨finished, rfl, rfl⟩ := leads_finish rfl hend
  refine .silent (early_begun (by simp [Request.phase])) ?_ ?_
  · rintro ⟨hanswered, -⟩
    cases hanswered
  · simp [RunResult.IsSettled, RunResult.isAbortedWith, RunResult.abort, finishAt, begun,
      opening, RunResult.start]

theorem ends_of_leads (hl : (run s).Leads h record) : Ends s h record := by
  obtain ⟨started, answer, rest, rfl, hrest⟩ := leads_run.mp hl
  cases hanswer : answer.value with
  | ok =>
    rw [hanswer] at hrest
    obtain ⟨h₁, ⟨l, reached⟩, h₂, rfl, hgate, hend⟩ := Program.leads_bind.mp hrest
    cases reached with
    | stopped => exact ends_conclude hanswer hgate (by simp) hend
    | queried => exact ends_conclude hanswer hgate (by simp) hend
    | skipped => exact ends_skipped hgate hend
  | error e =>
    cases e with
    | alreadyRunning holder => exact ends_contended hanswer hrest
    | io path cause =>
      rw [hanswer] at hrest
      have hearly : Early [⟨.now, started⟩, ⟨.acquireLock, answer⟩] := early_begun (by simp)
      refine .closed hearly ?_ (closing_of_leads hrest) ?_
      · exact concluded_stopped rfl _ _ rfl (by simp)
      · intro h₂' record' hclosing
        refine leads_run.mpr ⟨started, answer, h₂', rfl, ?_⟩
        rw [hanswer]
        exact hclosing.leads

/-! ### Writing the marker -/

/-- The warning about a marker that could not be written. -/
def unwritten (reason : String) : FailureRecord :=
  ⟨.persist, none, .timestampPersistenceFailure, reason⟩

/-- The second record has one more warning, and is the same otherwise. -/
def Warned (warning : FailureRecord) (record record' : Record) : Prop :=
  record'.history = record.history ∧ ∃ ws ws', record.result.warnings = ws ++ ws' ∧
    record'.result = { record.result with warnings := ws ++ warning :: ws' }

/-- The run writes the marker: once, with a time it has just asked for, after the emitters were
told of the deeds it returns, and with only a reboot and the lock left to ask for. Had the marker
been written, the run would have gone on in the same way, with a warning less. -/
inductive Attempted (s : Settings) : History → Record → Prop
  /-- That is all of it. -/
  | intro {before after : History} {record : Record} {told : RunResult}
      {summary : Emission.Summary} (now : Answer Instant) (answer : Answer (Option String))
      (first : before.during .persist = [])
      (emitted : (Emission.report s.emitters told).Leads (before.during .report) summary)
      (truthful : told.deeds = record.result.deeds)
      (late : ∀ e ∈ after, e.request.phase = .reboot ∨ e.request.phase = .lock)
      (contained : ∀ reason, answer.value = some reason → ∃ record',
        (run s).Leads (before ++ ⟨.now, now⟩ ::
          ⟨.writeMarker now.value, { answer with value := none }⟩ :: after) record' ∧
          Warned (unwritten reason) record' record) :
      Attempted s (before ++ ⟨.now, now⟩ :: ⟨.writeMarker now.value, answer⟩ :: after) record

/-- The second ledger has one more warning, and is the same otherwise. -/
structure Heavier (warning : FailureRecord) (l l' : Ledger) : Prop where
  /-- The runs have been in the same states. -/
  history : l'.history = l.history
  /-- The results differ in the warning. -/
  result : ∃ ws ws', l.result.warnings = ws ++ ws' ∧
    l'.result = { l.result with warnings := ws ++ warning :: ws' }

section Heavier

variable {warning : FailureRecord}

theorem heavier_append (l : Ledger) (warning : FailureRecord) :
    Heavier warning l (l.update fun r => { r with warnings := r.warnings ++ [warning] }) :=
  ⟨rfl, l.result.warnings, [], (List.append_nil _).symm, rfl⟩

/-- What does not depend on warnings is the same. -/
theorem Heavier.congr {β : Type} (hh : Heavier warning l l') (f : RunResult → β)
    (hf : ∀ r ws, f { r with warnings := ws } = f r) : f l'.result = f l.result := by
  obtain ⟨ws, ws', -, hresult⟩ := hh.result
  rw [hresult, hf]

theorem Heavier.note (hh : Heavier warning l l') (h h' : History) :
    Heavier warning (l.note h) (l'.note h') :=
  ⟨hh.history, hh.result⟩

theorem Heavier.visit (hh : Heavier warning l l') (state : RunState) :
    Heavier warning (l.visit state) (l'.visit state) :=
  ⟨congrArg (· ++ [state]) hh.history, hh.result⟩

theorem Heavier.update (hh : Heavier warning l l') (f : RunResult → RunResult)
    (hf : ∀ r ws, f { r with warnings := ws } = { f r with warnings := ws }) :
    Heavier warning (l.update f) (l'.update f) := by
  obtain ⟨ws, ws', hws, hresult⟩ := hh.result
  have hwarnings := congrArg RunResult.warnings (hf l.result l.result.warnings)
  refine ⟨hh.history, ws, ws', ?_, ?_⟩
  · rw [← hws]
    exact hwarnings
  · rw [Ledger.result_update, hresult, hf]
    rfl

/-- More warnings come after the one. -/
theorem Heavier.append (hh : Heavier warning l l') (more : List FailureRecord) :
    Heavier warning (l.update fun r => { r with warnings := r.warnings ++ more })
      (l'.update fun r => { r with warnings := r.warnings ++ more }) := by
  obtain ⟨ws, ws', hws, hresult⟩ := hh.result
  refine ⟨hh.history, ws, ws' ++ more, ?_, ?_⟩
  · simp [hws]
  · simp [hresult]

theorem Heavier.finishAt (hh : Heavier warning l l') (time : Instant) :
    Warned warning (finishAt l time) (finishAt l' time) := by
  have hend := hh.update (fun r => { r with finishedAt := some (r.finishedAt.getD time) })
    fun _ _ => rfl
  have houtcome := hh.congr RunResult.outcome fun _ _ => rfl
  refine ⟨?_, hend.result⟩
  simp only [Run.finishAt, Ledger.history_visit, Ledger.history_update, Ledger.result_update,
    hh.history, houtcome]
  rfl

/-- A warning more makes no difference to the marker. -/
theorem Persisted.lighten {l₁' : Ledger} (hp : Persisted reached l' h l₁')
    (hh : Heavier warning l l') : ∃ l₁, Persisted reached l h l₁ ∧ Heavier warning l₁ l₁' := by
  have hsettles := hh.congr (settles reached) fun _ _ => rfl
  cases hp with
  | spared open_ => exact ⟨l, .spared (hsettles.symm.trans open_), hh⟩
  | written settled now answer success =>
    exact ⟨_, .written (hsettles.symm.trans settled) now answer success,
      ((hh.visit _).note _ _).note _ _⟩
  | unwritten settled now answer failure =>
    exact ⟨_, .unwritten (hsettles.symm.trans settled) now answer failure,
      (((hh.visit _).note _ _).note _ _).append _⟩

/-- A warning more makes no difference to the reboot. -/
theorem Rebooted.lighten {l₁' : Ledger} (hr : Rebooted s l' h l₁') (hh : Heavier warning l l') :
    ∃ l₁, Rebooted s l h l₁ ∧ Heavier warning l₁ l₁' := by
  have hreboots := hh.congr (reboots s) fun _ _ => rfl
  cases hr with
  | spared quiet => exact ⟨l, .spared (hreboots.symm.trans quiet), hh⟩
  | triggered due answer success =>
    exact ⟨_, .triggered (hreboots.symm.trans due) answer success,
      (hh.note _ _).update _ fun _ _ => rfl⟩
  | failed due answer failure =>
    exact ⟨_, .failed (hreboots.symm.trans due) answer failure, (hh.note _ _).append _⟩

end Heavier

theorem late_of_closing {l₁ l₂ : Ledger} {reboot release : History}
    (rebooted : Rebooted s l₁ reboot l₂) (released : Released locked release) :
    ∀ e ∈ reboot ++ release, e.request.phase = .reboot ∨ e.request.phase = .lock := by
  intro e he
  rcases List.mem_append.mp he with he | he
  · exact Or.inl (rebooted.keeps e he)
  · exact Or.inr (released.keeps e he)

/-- What belongs to its end is not asked for before. -/
theorem Early.during_eq_nil {phase : Phase} (early : Early h)
    (hphase : phase ∈ [Phase.report, .persist, .reboot]) : h.during phase = [] :=
  History.during_eq_nil fun e he heq => early e he (heq ▸ hphase)

/-- Up to its end a run reports what it reports when it closes. -/
theorem Early.during_report {emission : History} (early : Early h) (now : Answer Instant)
    (hemission : ∀ e ∈ emission, e.request.phase = .report) :
    (h ++ ⟨.now, now⟩ :: emission).during .report = emission := by
  have hnow : History.during .report [⟨.now, now⟩] = [] := rfl
  rw [List.append_cons, History.during_append, History.during_append,
    early.during_eq_nil (by simp), hnow, History.during_eq_self hemission]
  rfl

/-- Whatever else it asks for then. -/
theorem Early.during_report_append {emission rest : History} (early : Early h)
    (now : Answer Instant) (hemission : ∀ e ∈ emission, e.request.phase = .report)
    (hrest : rest.during .report = []) :
    (h ++ ⟨.now, now⟩ :: (emission ++ rest)).during .report = emission := by
  rw [← List.cons_append, ← List.append_assoc, History.during_append,
    early.during_report now hemission, hrest, List.append_nil]

/-- A run that closes writes the marker if it settles, and does not otherwise. -/
theorem Closing.attempted {h₁ h₂ : History} (hearly : Early h₁)
    (hc : Closing s reached locked l h₂ record)
    (hfree : ∀ h₂' record', Closing s reached locked l h₂' record' →
      (run s).Leads (h₁ ++ h₂') record') :
    (settles reached l.result = true → Attempted s (h₁ ++ h₂) record) ∧
      (settles reached l.result = false → (h₁ ++ h₂).during .persist = []) := by
  have hdeeds := hc.deeds
  obtain ⟨now, emitted, persisted, rebooted, released⟩ := hc
  rename_i emission persistence reboot release summary l₁ l₂
  have hemission := emitted.begins.asks (keeps_report _ _)
  have hlate := late_of_closing rebooted released
  have hsettles : settles reached
      ((announced l now).update (warnUndelivered summary.failed)).result =
        settles reached l.result := by
    have hsame : ((announced l now).update (warnUndelivered summary.failed)).result.deeds =
        l.result.deeds := deeds_warnUndelivered _ _
    rw [settles, settles, isUnsettled_congr hsame]
  have hfirst : (h₁ ++ ⟨.now, now⟩ :: emission).during .persist = [] := by
    rw [List.append_cons, History.during_append_of_ne .persist _ hemission (by simp),
      History.during_append, hearly.during_eq_nil (by simp)]
    rfl
  have hreport := hearly.during_report now hemission
  have htruthful : (announced l now).result.deeds =
      (finishAt (l₂.note release) now.value).result.deeds := hdeeds.symm
  have hbefore : ∀ rest, h₁ ++ ⟨.now, now⟩ :: (emission ++ rest) =
      (h₁ ++ ⟨.now, now⟩ :: emission) ++ rest := by
    intro rest
    simp
  rw [hbefore]
  cases persisted with
  | spared open_ =>
    rw [hsettles] at open_
    refine ⟨fun hsettled => absurd (open_.symm.trans hsettled) (by simp), fun _ => ?_⟩
    rw [List.nil_append, History.during_append, hfirst, List.nil_append]
    exact History.during_eq_nil fun e he => by rcases hlate e he with heq | heq <;> simp [heq]
  | written settled time answer success =>
    rw [hsettles] at settled
    refine ⟨fun _ => ?_, fun hopen => absurd (hopen.symm.trans settled) (by simp)⟩
    refine .intro time answer hfirst (hreport.symm ▸ emitted) htruthful hlate ?_
    intro reason hreason
    rw [success] at hreason
    cases hreason
  | unwritten settled time answer failure =>
    have settled' := hsettles.symm.trans settled
    refine ⟨fun _ => ?_, fun hopen => absurd (hopen.symm.trans settled') (by simp)⟩
    refine .intro time answer hfirst (hreport.symm ▸ emitted) htruthful hlate ?_
    intro reason hreason
    rw [failure] at hreason
    cases hreason
    obtain ⟨l₃, hrebooted, hheavier⟩ := rebooted.lighten (heavier_append _ _)
    refine ⟨_, ?_, (hheavier.note release release).finishAt now.value⟩
    have hclosing := hfree _ _ (.intro now emitted
      (.written settled time { answer with value := none } rfl) hrebooted released)
    rw [hbefore] at hclosing
    exact hclosing

/-- **A run writes the marker if and only if it settled**, and its result tells whether it did. -/
theorem settling_of_leads (hl : (run s).Leads h record) :
    (Settled h record → Attempted s h record) ∧
      (¬Settled h record → h.during .persist = []) ∧
      (Settled h record ↔ record.result.IsSettled) := by
  cases ends_of_leads hl with
  | silent early open_ result =>
    refine ⟨fun hsettled => absurd hsettled open_, fun _ => ?_, ?_⟩
    · exact History.during_eq_nil fun e he heq => early e he (by simp [heq])
    · exact ⟨fun hsettled => absurd hsettled open_, fun hsettled => absurd hsettled result⟩
  | closed early concluded closing free =>
    rename_i h₁ h₂ reached locked l
    have hquiet : ∀ e ∈ h₂, e.request.phase ≠ .query := by
      intro e he heq
      have hphase := closing.keeps e he
      simp [heq] at hphase
    obtain ⟨hsettles, hresult⟩ := concluded.settled_iff record hquiet closing.deeds
    obtain ⟨hattempted, hwithheld⟩ := closing.attempted early free
    refine ⟨fun hsettled => hattempted (hsettles.mp hsettled), fun hopen => hwithheld ?_, hresult⟩
    exact Bool.eq_false_iff.mpr fun hsettled => hopen (hsettles.mpr hsettled)

end

end Run

end Upkeep
