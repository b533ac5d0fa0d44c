import Mathlib.Data.List.Chain
import Upkeep.Proofs.Run.Series
import Upkeep.Proofs.Run.Standing

/-!
# The states a run goes through

A run enters its states by hand, before or after what they are named for and on every way out. So
nothing but a walk through the stages tells whether the states agree with what the run did.

Where a run stands among its stages fixes the states it has been in (`Spot.trail`), and what it has
begun with there fixes the states when it goes on (`Spot.entered`). From there it is a matter of the
few ways in which stages can end (`Ending`), which no longer mention ledgers or requests: that the
states come in order is seen by looking at each of them.

## Main definitions

* `RunState.next`, `RunState.rank`: which states may come next, and the order of all of them.
* `Phase.state?`: the state in which a run asks for something.
* `Spot.trail`, `Spot.entered`, `Ending`: the states of a run among its stages.
* `Prepared`, `Faithful`: what the states say of a run.

## Main results

* `Stands.traced`: a run at a spot has been in the states of its trail.
* `Closing.faithful`: closing keeps the states faithful.
* `states_faithful`: the states of every run are faithful to what it did.
-/

namespace Upkeep

/-! ### The order of the states -/

namespace RunState

/-- The states that may come next. Wherever the stages end early, the report is next; a run that
leaves everything to others, or is not due, ends without one. -/
def next : RunState → List RunState
  | .idle => [.locking]
  | .locking => [.intervalCheck, .emitting, .aborted]
  | .intervalCheck => [.refreshing, .emitting, .done]
  | .refreshing => [.querying, .emitting]
  | .querying => [.upToDate, .downloading, .evaluatingReboot, .emitting]
  | .upToDate => [.emitting]
  | .downloading => [.applying, .downloadOnlyDone, .emitting]
  | .applying => [.evaluatingReboot, .emitting]
  | .downloadOnlyDone => [.evaluatingReboot]
  | .evaluatingReboot => [.emitting]
  | .emitting => [.persisting, .done, .aborted]
  | .persisting => [.done, .aborted]
  | .done => []
  | .aborted => []

/-- The rank of a state; of the states of one rank a run takes one. -/
def rank : RunState → Nat
  | .idle => 0
  | .locking => 1
  | .intervalCheck => 2
  | .refreshing => 3
  | .querying => 4
  | .upToDate | .downloading => 5
  | .applying | .downloadOnlyDone => 6
  | .evaluatingReboot => 7
  | .emitting => 8
  | .persisting => 9
  | .done | .aborted => 10

/-- A state may come right after another one. -/
def Follows (a b : RunState) : Prop := b ∈ a.next

instance : DecidableRel Follows := fun a b => inferInstanceAs (Decidable (b ∈ a.next))

/-- The last state of a run with an outcome. -/
def last (outcome : Outcome) : RunState := if outcome = .aborted then .aborted else .done

theorem follows_last {a : RunState} (h : a = .emitting ∨ a = .persisting) (outcome : Outcome) :
    a.Follows (last outcome) := by
  rw [last]
  split <;> rcases h with rfl | rfl <;> decide

/-- One state has a lower rank than another. -/
def Before (a b : RunState) : Prop := a.rank < b.rank

instance : DecidableRel Before := fun a b => inferInstanceAs (Decidable (a.rank < b.rank))

instance : Trans Before Before Before := ⟨Nat.lt_trans⟩

/-- A state that may come next has a higher rank. -/
theorem Follows.before {a b : RunState} (h : a.Follows b) : a.Before b := by
  revert h
  cases a <;> cases b <;> decide

/-- States that come one right after the other come in their order. -/
theorem before_of_isChain {states : List RunState} (h : states.IsChain Follows) :
    states.Pairwise Before :=
  List.IsChain.pairwise (h.imp fun _ _ hfollows => hfollows.before)

theorem nodup_of_before {states : List RunState} (h : states.Pairwise Before) : states.Nodup :=
  h.imp fun hlt heq => Nat.ne_of_lt hlt (congrArg rank heq)

theorem isChain_concat {states : List RunState} {a b : RunState}
    (h : (states ++ [a]).IsChain Follows) (hab : a.Follows b) :
    (states ++ [a] ++ [b]).IsChain Follows :=
  h.append (.singleton b) (by simpa using hab)

end RunState

/-- The state in which a run asks for what belongs to a part of it. The time is asked for in any
state, and a reboot is carried out in none of its own. -/
def Phase.state? : Phase → Option RunState
  | .lock => some .locking
  | .interval | .sleep | .network => some .intervalCheck
  | .metadata => some .refreshing
  | .query => some .querying
  | .download => some .downloading
  | .transaction => some .applying
  | .advice => some .evaluatingReboot
  | .report => some .emitting
  | .persist => some .persisting
  | .clock | .reboot => none

namespace Run

/-- A run has been in the states for all that it asked for. -/
def Covered (states : List RunState) (h : History) : Prop :=
  ∀ e ∈ h, ∀ state ∈ e.request.phase.state?, state ∈ states

/-- The run was to apply what it downloads, and its downloads returned before anything was to be
applied. -/
structure Prepared (s : Settings) (h : History) (r : RunResult) : Prop where
  /-- The run was to apply. -/
  mode : r.mode = .apply
  /-- First the downloads returned, and then there were none. -/
  returned : ∃ (before after : History) (report : Download.Report), h = before ++ after ∧
    DownloadsReturned s before r.considered report ∧
      (∀ e ∈ before, e.request.phase ≠ .transaction) ∧ ∀ e ∈ after, e.request.phase ≠ .download

/-- The states of a run are faithful to what it did. -/
structure Faithful (s : Settings) (h : History) (record : Record) : Prop where
  /-- The run starts with the lock. -/
  opens : [.idle, .locking] <+: record.history
  /-- Each state may come right after the one before. -/
  follows : record.history.IsChain RunState.Follows
  /-- The states come in their order, and of alternatives the run takes one. -/
  ordered : record.history.Pairwise RunState.Before
  /-- No state comes twice. -/
  once : record.history.Nodup
  /-- The last state tells whether the run was aborted. -/
  ends : record.history.getLast? =
    some (if record.result.outcome = .aborted then .aborted else .done)
  /-- The run reports unless it was not due or another one holds the lock. -/
  emitting : .emitting ∈ record.history ↔
    record.result.outcome ≠ .skipped ∧ record.result.isAbortedWith .lockContention = false
  /-- The run persists if it tries to write the marker. -/
  persisting : .persisting ∈ record.history ↔ ∃ time answer, ⟨.writeMarker time, answer⟩ ∈ h
  /-- The run is up to date if that is its outcome. -/
  upToDate : .upToDate ∈ record.history ↔ record.result.outcome = .upToDate
  /-- The run has been in the states for all that it asked for. -/
  covered : Covered record.history h
  /-- It came to applying when it was to apply and its downloads had returned. -/
  applying : .applying ∈ record.history → Prepared s h record.result

/-! ### Among the stages -/

/-- The states that a run at a spot has been in. -/
def Spot.trail : Spot → List RunState
  | .gate => [.idle, .locking]
  | .sleep | .network | .look _ | .rest _ | .refresh => [.idle, .locking, .intervalCheck]
  | .metadata _ | .query _ => [.idle, .locking, .intervalCheck, .refreshing]
  | .download => [.idle, .locking, .intervalCheck, .refreshing, .querying]
  | .transaction _ => [.idle, .locking, .intervalCheck, .refreshing, .querying, .downloading]
  | .advice =>
    [.idle, .locking, .intervalCheck, .refreshing, .querying, .downloading, .applying]

/-- The states that it has been in once it has begun with what is to be done there. -/
def Spot.entered : Spot → List RunState
  | .gate => [.idle, .locking, .intervalCheck]
  | .refresh => [.idle, .locking, .intervalCheck, .refreshing]
  | .query _ => [.idle, .locking, .intervalCheck, .refreshing, .querying]
  | .download => [.idle, .locking, .intervalCheck, .refreshing, .querying, .downloading]
  | .transaction _ =>
    [.idle, .locking, .intervalCheck, .refreshing, .querying, .downloading, .applying]
  | .advice =>
    [.idle, .locking, .intervalCheck, .refreshing, .querying, .downloading, .applying,
      .evaluatingReboot]
  | p => p.trail

/-- The states that follow when the stages end at a spot, and the outcome this leaves. -/
inductive Ending : Spot → Reached → Outcome → List RunState → Prop
  /-- The run is not due. -/
  | skipped : Ending .gate .skipped .skipped []
  /-- The run is aborted. -/
  | aborted {p : Spot} {reached : Reached} (due : reached ≠ .skipped) :
      Ending p reached .aborted []
  /-- There is nothing to upgrade. -/
  | upToDate {available : List String} : Ending (.query available) .queried .upToDate [.upToDate]
  /-- Upgrades are only reported. -/
  | reportOnly {available : List String} :
      Ending (.query available) .queried .completed [.evaluatingReboot]
  /-- Upgrades are only downloaded. -/
  | downloadOnly {outcome : Outcome} (done : outcome = .completed ∨ outcome = .partialFailure) :
      Ending .download .queried outcome [.downloadOnlyDone, .evaluatingReboot]
  /-- The last stage is over. -/
  | advised {outcome : Outcome} (done : outcome = .completed ∨ outcome = .partialFailure) :
      Ending .advice .queried outcome []

/-- What comes right after the stages. -/
def Reached.after : Reached → RunState
  | .skipped => .done
  | .stopped | .queried => .emitting

/-- What the states say of a run whose stages are over. -/
structure Traced (s : Settings) (h : History) (l : Ledger) (reached : Reached) : Prop where
  /-- The run starts with the lock. -/
  opens : [.idle, .locking] <+: l.history
  /-- Each state may come right after the one before, and so may what comes after the stages. -/
  follows : (l.history ++ [reached.after]).IsChain RunState.Follows
  /-- It has not come to its end. -/
  early : .emitting ∉ l.history ∧ .persisting ∉ l.history
  /-- The run is up to date if that is its outcome. -/
  upToDate : .upToDate ∈ l.history ↔ l.result.outcome = .upToDate
  /-- The run has been in the states for all that it asked for. -/
  covered : Covered l.history h
  /-- It came to applying when it was to apply and its downloads had returned. -/
  applying : .applying ∈ l.history → Prepared s h l.result
  /-- It counts as skipped if it was not due. -/
  skipped : l.result.outcome = .skipped ↔ reached = .skipped
  /-- It has had the lock to itself. -/
  uncontended : l.result.isAbortedWith .lockContention = false

section

variable {s : Settings} {p p' : Spot} {l l' : Ledger} {h h₀ h' : History} {reached : Reached}
  {locked : Bool} {record : Record} {states states' : List RunState} {outcome : Outcome}

theorem Covered.mono (hc : Covered states h) (hsub : states ⊆ states') : Covered states' h :=
  fun e he state hstate => hsub (hc e he state hstate)

theorem Covered.append (hc : Covered states h) (hc' : Covered states h') :
    Covered states (h ++ h') :=
  List.forall_mem_append.mpr ⟨hc, hc'⟩

/-- One part of a run has one state. -/
theorem covered_of_keeps {phase : Phase} (hkeeps : ∀ e ∈ h, e.request.phase = phase)
    (hstate : ∀ state ∈ phase.state?, state ∈ states) : Covered states h :=
  fun e he => hkeeps e he ▸ hstate

theorem Spot.trail_subset (p : Spot) : p.trail ⊆ p.entered := by
  cases p <;> simp [trail, entered]

theorem Spot.state_mem_entered (p : Spot) : ∀ state ∈ p.phase.state?, state ∈ p.entered := by
  cases p <;> simp [Phase.state?, entered, trail]

/-- A run goes on from the states that it has entered. -/
theorem Step.trail (step : Step s p l h p' l') (hl : l.history = p.trail) :
    l'.history = p'.trail ∧ p'.trail = p.entered := by
  cases step <;> simp [hl, Spot.trail, Spot.entered]

/-- **A run at a spot has been in the states of its trail**, and in those for all that it asked
for. -/
theorem Stands.traced (hs : Stands s h p l) : l.history = p.trail ∧ Covered p.trail h := by
  induction hs with
  | locked started answer locked =>
    refine ⟨rfl, ?_⟩
    simp [Covered, Request.phase, Phase.state?, Spot.trail]
  | on before step ih =>
    rename_i p p' l l'
    obtain ⟨hhistory, htrail⟩ := step.trail ih.1
    refine ⟨hhistory, ?_⟩
    rw [htrail]
    exact (ih.2.mono p.trail_subset).append (covered_of_keeps step.keeps p.state_mem_entered)

/-- A guarded program starts once the run has entered its state. -/
theorem Spot.history_watch? {w : Watch} (watch : p.watch? s l = some w)
    (hl : l.history = p.trail) : w.ledger.history = p.entered := by
  cases p with
  | sleep =>
    rw [watch?] at watch
    split at watch
    · cases watch
      exact hl
    · cases watch
  | look patience =>
    cases patience with
    | zero => cases watch
    | succ patience =>
      cases watch
      exact hl
  | rest _ | metadata _ =>
    cases watch
    exact hl
  | query _ | download | transaction _ | advice =>
    cases watch
    rw [Ledger.history_visit, hl]
    rfl
  | gate | network | refresh => cases watch

theorem doneOutcome_done (anyFailed : Bool) :
    doneOutcome anyFailed = .completed ∨ doneOutcome anyFailed = .partialFailure := by
  cases anyFailed
  · exact Or.inl rfl
  · exact Or.inr rfl

/-- **The stages end in one of a few ways.** -/
theorem Exit.ending (exit : Exit s p l h l' reached) (hl : l.history = p.trail)
    (hpending : Pending h₀ p l.result) :
    ∃ more, l'.history = p.entered ++ more ∧ Ending p reached l'.result.outcome more := by
  cases exit with
  | interrupted watch broken =>
    refine ⟨[], ?_, .aborted (Spot.reached_watch? watch)⟩
    rw [List.append_nil]
    exact Spot.history_watch? watch hl
  | notDue answer due =>
    refine ⟨[], ?_, .skipped⟩
    simp [hl, Spot.trail, Spot.entered]
  | unavailable passed | unanswered passed | stateUnknown passed unknown
  | rejected passed known whole =>
    refine ⟨[], ?_, .aborted (by simp)⟩
    simp [hl, Spot.trail, Spot.entered]
  | upToDate passed =>
    refine ⟨[.upToDate], ?_, .upToDate⟩
    simp [hl, Spot.trail, Spot.entered]
  | reportOnly passed some mode =>
    refine ⟨[.evaluatingReboot], ?_, .reportOnly⟩
    simp [hl, Spot.trail, Spot.entered]
  | downloadOnly passed mode =>
    refine ⟨[.downloadOnlyDone, .evaluatingReboot], ?_, .downloadOnly (doneOutcome_done _)⟩
    simp [hl, Spot.trail, Spot.entered]
  | unadvised passed | advised passed =>
    refine ⟨[], ?_, .advised hpending.outcome⟩
    simp [hl, Spot.trail, Spot.entered]

/-- **However the stages end**, the states come one after the other, and none of them belongs to the
end of the run. -/
theorem Ending.follows {more : List RunState} (he : Ending p reached outcome more) :
    (p.entered ++ more ++ [reached.after]).IsChain RunState.Follows ∧
      .emitting ∉ p.entered ++ more ∧ .persisting ∉ p.entered ++ more := by
  cases he with
  | aborted due =>
    have hafter : reached.after = .emitting := by
      cases reached with
      | skipped => exact absurd rfl due
      | stopped | queried => rfl
    rw [hafter, List.append_nil]
    cases p <;> (simp only [Spot.entered, Spot.trail, List.cons_append, List.nil_append]; decide)
  | skipped | upToDate | reportOnly | downloadOnly _ | advised _ =>
    simp only [Spot.entered, Reached.after, List.cons_append, List.nil_append]
    decide

/-- The states tell whether there was nothing to upgrade, and how far the run got. -/
theorem Ending.tells {more : List RunState} (he : Ending p reached outcome more) :
    (.upToDate ∈ p.entered ++ more ↔ outcome = .upToDate) ∧
      (outcome = .skipped ↔ reached = .skipped) ∧
        (.applying ∈ p.entered ++ more → .applying ∈ p.entered) := by
  cases he with
  | skipped => simp [Spot.entered]
  | aborted due => cases p <;> simp [Spot.entered, Spot.trail, due]
  | upToDate => simp [Spot.entered]
  | reportOnly => simp [Spot.entered]
  | downloadOnly done => rcases done with rfl | rfl <;> simp [Spot.entered]
  | advised done => rcases done with rfl | rfl <;> simp [Spot.entered]

/-! ### What was downloaded before it was applied -/

/-- Nothing is downloaded later on. -/
theorem Prepared.append {r r' : RunResult} (hp : Prepared s h r)
    (hquiet : ∀ e ∈ h', e.request.phase ≠ .download) (hmode : r'.mode = r.mode)
    (hconsidered : r'.considered = r.considered) : Prepared s (h ++ h') r' := by
  obtain ⟨hmode₀, before, after, report, rfl, hreturned, hbefore, hafter⟩ := hp
  refine ⟨hmode.trans hmode₀, before, after ++ h', report, List.append_assoc _ _ _, ?_, hbefore,
    List.forall_mem_append.mpr ⟨hafter, hquiet⟩⟩
  rw [hconsidered]
  exact hreturned

/-- A run that is about to apply what it downloaded is prepared. -/
theorem Stands.prepared_transaction {report : Download.Report}
    (hs : Stands s h (.transaction report) l) : Prepared s h l.result := by
  obtain ⟨-, hmode, hreturned⟩ := hs.holds
  refine ⟨hmode, h, [], report, (List.append_nil h).symm, hreturned, fun e he hphase => ?_, by simp⟩
  have hstate := hs.traced.2 e he .applying (by rw [hphase]; rfl)
  simp [Spot.trail] at hstate

/-- A run that has come to applying is prepared. -/
theorem Stands.prepared (hs : Stands s h p l) (happlying : .applying ∈ p.entered) :
    Prepared s h l.result := by
  cases hs with
  | locked _ _ _ => simp [Spot.entered] at happlying
  | on before step =>
    have hkeeps := step.keeps
    cases step with
    | downloaded passed wanted => exact (before.on (.downloaded passed wanted)).prepared_transaction
    | applied _ | refused _ _ _ =>
      exact before.prepared_transaction.append (fun e he => by simp [hkeeps e he]) rfl rfl
    | _ => simp [Spot.entered, Spot.trail] at happlying

theorem Exit.prepared (exit : Exit s p l h l' reached) (hs : Stands s h₀ p l)
    (happlying : .applying ∈ p.entered) : Prepared s (h₀ ++ h) l'.result := by
  have hquiet : ∀ e ∈ h, e.request.phase ≠ .download := by
    intro e he
    rw [exit.keeps e he]
    cases p <;> simp [Spot.entered, Spot.trail] at happlying ⊢
  refine (hs.prepared happlying).append hquiet (congrArg (·.2.2.2) exit.frame) ?_
  cases exit with
  | interrupted watch broken =>
    rw [Ledger.stop_eq, Ledger.result_update, Ledger.result_note, (Spot.ledger_watch? watch).1]
    rfl
  | stateUnknown _ _ | rejected _ _ _ | unadvised _ | advised _ => rfl
  | _ => simp [Spot.entered, Spot.trail] at happlying

/-- **What the states say of a run whose stages are over.** -/
theorem Exit.traced (exit : Exit s p l h l' reached) (hs : Stands s h₀ p l) :
    Traced s (h₀ ++ h) l' reached := by
  obtain ⟨hl, hcovered⟩ := hs.traced
  obtain ⟨more, hhistory, hending⟩ := exit.ending hl hs.pending
  obtain ⟨hfollows, hemitting, hpersisting⟩ := hending.follows
  obtain ⟨hupToDate, hskipped, happlying⟩ := hending.tells
  have hall := (hcovered.mono p.trail_subset).append
    (covered_of_keeps exit.keeps p.state_mem_entered)
  have hopens : [.idle, .locking] <+: p.entered := by cases p <;> simp [Spot.entered, Spot.trail]
  rw [← hhistory] at hfollows hemitting hpersisting hupToDate happlying
  exact {
    opens := hhistory ▸ hopens.trans (List.prefix_append _ _)
    follows := hfollows
    early := ⟨hemitting, hpersisting⟩
    upToDate := hupToDate
    covered := hhistory ▸ hall.mono (List.subset_append_left _ _)
    applying := fun hmem => exit.prepared hs (happlying hmem)
    skipped := hskipped
    uncontended := exit.uncontended hs.pending.abortKind }

theorem Trip.traced {started : Answer Instant} {answer : Answer (Except LockError Unit)}
    (locked : answer.value = .ok ()) (ht : Trip s .gate (begun s started answer) h l reached) :
    Traced s (⟨.now, started⟩ :: ⟨.acquireLock, answer⟩ :: h) l reached := by
  obtain ⟨h₁, h₂, p₁, l₁, heq, hs, hexit⟩ :=
    ht.exists_exit [_, _] (.locked started answer locked)
  have htraced := hexit.traced hs
  rw [← heq] at htraced
  exact htraced

/-- A run that could not open its lock has no stages. -/
theorem traced_unopened (started : Answer Instant) (answer : Answer (Except LockError Unit))
    (reason : String) : Traced s [⟨.now, started⟩, ⟨.acquireLock, answer⟩]
      ((begun s started answer).abort .lock .collaborator reason) .stopped where
  opens := List.prefix_rfl
  follows := by
    show List.IsChain _ [RunState.idle, .locking, .emitting]
    decide
  early := by simp [begun, opening]
  upToDate := by simp [begun, opening, RunResult.abort]
  covered := by simp [Covered, Request.phase, Phase.state?, begun, opening]
  applying := by simp [begun, opening]
  skipped := by simp [RunResult.abort]
  uncontended := rfl

/-! ### The end -/

/-- A run ends as its outcome says. -/
theorem history_finishAt (l : Ledger) (time : Instant) :
    (finishAt l time).history = l.history ++ [RunState.last l.result.outcome] := by
  rw [finishAt, RunState.last]
  simp

/-- How the states go on after the stages, beside what the run asks for then. -/
inductive Tail (h : History) : Reached → Outcome → List RunState → Prop
  /-- The run ends at once. -/
  | skipped (quiet : ∀ e ∈ h, e.request.phase ≠ .persist) : Tail h .skipped .skipped [.done]
  /-- The run reports. -/
  | unwritten {reached : Reached} {outcome : Outcome} (due : reached ≠ .skipped)
      (quiet : ∀ e ∈ h, e.request.phase ≠ .persist) :
      Tail h reached outcome [.emitting, .last outcome]
  /-- The run reports and persists. -/
  | written {reached : Reached} {outcome : Outcome} (due : reached ≠ .skipped)
      (write : ∃ time answer, ⟨.writeMarker time, answer⟩ ∈ h) :
      Tail h reached outcome [.emitting, .persisting, .last outcome]

theorem Reached.after_of_ne (due : reached ≠ .skipped) : reached.after = .emitting := by
  cases reached with
  | skipped => exact absurd rfl due
  | stopped | queried => rfl

/-- What follows the stages follows from them in order. -/
theorem Tail.follows {more : List RunState} (ht : Tail h reached outcome more)
    (hs : (states ++ [reached.after]).IsChain RunState.Follows) :
    (states ++ more).IsChain RunState.Follows := by
  cases ht with
  | skipped quiet => exact hs
  | unwritten due quiet =>
    rw [Reached.after_of_ne due] at hs
    simpa using RunState.isChain_concat hs (RunState.follows_last (Or.inl rfl) outcome)
  | written due write =>
    rw [Reached.after_of_ne due] at hs
    have hpersisting := RunState.isChain_concat hs (b := .persisting) (by decide)
    simpa using RunState.isChain_concat hpersisting (RunState.follows_last (Or.inr rfl) outcome)

/-- It tells whether the run reported, whether it persisted, and its outcome. -/
theorem Tail.tells {more : List RunState} (ht : Tail h reached outcome more) :
    more.getLast? = some (RunState.last outcome) ∧ (.emitting ∈ more ↔ reached ≠ .skipped) ∧
      (.persisting ∈ more ↔ ∃ time answer, ⟨.writeMarker time, answer⟩ ∈ h) ∧
        .upToDate ∉ more ∧ .applying ∉ more := by
  have hunwritten : (∀ e ∈ h, e.request.phase ≠ .persist) →
      ¬∃ time answer, ⟨.writeMarker time, answer⟩ ∈ h := by
    rintro hquiet ⟨time, answer, hmem⟩
    exact hquiet _ hmem rfl
  have hlast : RunState.last outcome = .done ∨ RunState.last outcome = .aborted := by
    rw [RunState.last]
    split
    · exact Or.inr rfl
    · exact Or.inl rfl
  cases ht with
  | skipped quiet => simp [hunwritten quiet, RunState.last]
  | unwritten due quiet => rcases hlast with heq | heq <;> simp [heq, due, hunwritten quiet]
  | written due write => rcases hlast with heq | heq <;> simp [heq, due, write]

/-- **The states of a run are faithful** if they are at the end of its stages and it goes on from
there as it should. -/
theorem Traced.faithful {more : List RunState} (ht : Traced s h₀ l reached)
    (hhistory : record.history = l.history ++ more)
    (tail : Tail h reached record.result.outcome more)
    (hdeeds : record.result.deeds = l.result.deeds) (hcovered : Covered record.history h)
    (hquiet : ∀ e ∈ h, e.request.phase ≠ .download) : Faithful s (h₀ ++ h) record := by
  obtain ⟨hlast, hemitting, hpersisting, hupToDate, happlying⟩ := tail.tells
  have houtcome := outcome_congr hdeeds
  have hfollows : record.history.IsChain RunState.Follows := hhistory ▸ tail.follows ht.follows
  have hordered := RunState.before_of_isChain hfollows
  have hunwritten : ∀ time answer, ⟨.writeMarker time, answer⟩ ∉ h₀ :=
    fun time answer hmem => ht.early.2 (ht.covered _ hmem .persisting rfl)
  exact {
    opens := hhistory ▸ ht.opens.trans (List.prefix_append _ _)
    follows := hfollows
    ordered := hordered
    once := RunState.nodup_of_before hordered
    ends := by
      rw [hhistory, List.getLast?_append, hlast]
      rfl
    emitting := by
      have hfree := ht.uncontended
      rw [← isAbortedWith_congr hdeeds] at hfree
      rw [hhistory, List.mem_append, hemitting, houtcome]
      simp [ht.early.1, ht.skipped, hfree]
    persisting := by
      rw [hhistory, List.mem_append, hpersisting]
      simp [ht.early.2, hunwritten]
    upToDate := by
      rw [hhistory, List.mem_append, houtcome, ← ht.upToDate]
      simp [hupToDate]
    covered := (ht.covered.mono (hhistory ▸ List.subset_append_left _ _)).append hcovered
    applying := by
      intro hmem
      rw [hhistory, List.mem_append] at hmem
      have hprepared := ht.applying (hmem.resolve_right happlying)
      have hmode := congrArg RunResult.mode hdeeds
      have hconsidered := congrArg RunResult.considered hdeeds
      exact hprepared.append hquiet hmode hconsidered }

theorem Rebooted.history (hr : Rebooted s l h l') : l'.history = l.history := by
  cases hr with
  | spared _ | triggered _ _ _ | failed _ _ _ => rfl

/-- How the states go on when a run closes. -/
theorem Closing.history (hc : Closing s reached locked l h record) (due : reached ≠ .skipped) :
    ∃ more, record.history = l.history ++ more ∧ Tail h reached record.result.outcome more := by
  obtain ⟨now, emitted, persisted, rebooted, released⟩ := hc
  rename_i emission persistence reboot release summary l₁ l₂
  rw [history_finishAt, Ledger.history_note, rebooted.history]
  cases persisted with
  | spared open_ =>
    refine ⟨_, List.append_assoc _ _ _, .unwritten due fun e he => ?_⟩
    simp only [List.nil_append, List.mem_cons, List.mem_append] at he
    rcases he with rfl | he | he | he
    · simp [Request.phase]
    · simp [emitted.begins.asks (keeps_report _ _) e he]
    · simp [rebooted.keeps e he]
    · simp [released.keeps e he]
  | written settled time answer success =>
    refine ⟨[.emitting, .persisting, .last _], ?_, .written due ⟨time.value, answer, by simp⟩⟩
    simp [announced, finishAt]
  | unwritten settled time answer failure =>
    refine ⟨[.emitting, .persisting, .last _], ?_, .written due ⟨time.value, answer, by simp⟩⟩
    simp [announced, finishAt]

/-- What a run asks for when it closes is covered by the states of its end. -/
theorem Closing.covered (hc : Closing s reached locked l h record) (due : reached ≠ .skipped)
    (hopens : [.idle, .locking] <+: l.history) : Covered record.history h := by
  obtain ⟨more, hhistory, tail⟩ := hc.history due
  obtain ⟨-, hemitting, hpersisting, -⟩ := tail.tells
  intro e he state hstate
  rw [hhistory, List.mem_append]
  have hphase := hc.keeps e he
  simp only [List.mem_cons, List.not_mem_nil, or_false] at hphase
  rcases hphase with hphase | hphase | hphase | hphase | hphase <;> rw [hphase] at hstate <;>
    cases hstate
  · exact Or.inr (hemitting.mpr due)
  · refine Or.inr (hpersisting.mpr ?_)
    obtain ⟨q, answer⟩ := e
    cases q with
    | writeMarker time => exact ⟨time, answer, he⟩
    | _ => cases hphase
  · exact Or.inl (hopens.subset (by simp))

/-- **Closing keeps the states faithful.** -/
theorem Closing.faithful (hc : Closing s reached locked l h record) (due : reached ≠ .skipped)
    (ht : Traced s h₀ l reached) : Faithful s (h₀ ++ h) record := by
  obtain ⟨more, hhistory, tail⟩ := hc.history due
  refine ht.faithful hhistory tail hc.deeds (hc.covered due ht.opens) fun e he hphase => ?_
  have hkeeps := hc.keeps e he
  rw [hphase] at hkeeps
  exact absurd hkeeps (by decide)

/-- A run that leaves everything to another one has only been at the lock. -/
theorem faithful_contended (started finished : Answer Instant)
    (answer : Answer (Except LockError Unit))
    (hhistory : record.history = [.idle, .locking, .aborted])
    (houtcome : record.result.outcome = .aborted)
    (hcontended : record.result.isAbortedWith .lockContention = true) :
    Faithful s [⟨.now, started⟩, ⟨.acquireLock, answer⟩, ⟨.now, finished⟩] record := by
  have hfollows : record.history.IsChain RunState.Follows := by
    rw [hhistory]
    decide
  have hordered := RunState.before_of_isChain hfollows
  exact {
    opens := ⟨[.aborted], hhistory.symm⟩
    follows := hfollows
    ordered := hordered
    once := RunState.nodup_of_before hordered
    ends := by simp [hhistory, houtcome]
    emitting := by simp [hhistory, hcontended]
    persisting := by simp [hhistory]
    upToDate := by simp [hhistory, houtcome]
    covered := by simp [Covered, Request.phase, Phase.state?, hhistory]
    applying := by simp [hhistory] }

/-- The states of every run are faithful. -/
theorem faithful_of_leads (hl : (run s).Leads h record) : Faithful s h record := by
  cases course_of_leads hl with
  | contended started answer finished taken =>
    exact faithful_contended started finished answer rfl rfl rfl
  | unopened started answer failed closing =>
    exact closing.faithful (by simp) (traced_unopened started answer _)
  | skipped started answer finished release locked trip =>
    rename_i h l
    have ht := trip.traced locked
    have houtcome : l.result.outcome = .skipped := ht.skipped.mpr rfl
    have htail : Tail [⟨.now, finished⟩, ⟨.releaseLock, release⟩] .skipped
        (finishAt (l.note [⟨.now, finished⟩]) finished.value).result.outcome
          [.last l.result.outcome] := by
      show Tail _ _ l.result.outcome _
      rw [houtcome]
      exact .skipped (by simp [Request.phase])
    refine ht.faithful (history_finishAt _ _) htail rfl ?_ (by simp [Request.phase])
    have hlocking : .locking ∈ l.history := ht.opens.subset (by simp)
    simp [Covered, Request.phase, Phase.state?, history_finishAt, hlocking]
  | staged started answer locked trip due closing =>
    exact closing.faithful due (trip.traced locked)

/-- What a run comes to in a journal it comes to with its own history. -/
theorem leads_of_mem_journal {σ : Type} {s : Settings} {worlds : List (World σ)} {start : σ}
    (hmem : (h, record) ∈ journal (worlds.map fun world => (s, world)) start) :
    (run s).Leads h record := by
  induction worlds generalizing start with
  | nil => cases hmem
  | cons world worlds ih =>
    rcases List.mem_cons.mp hmem with heq | hmem
    · cases heq
      exact Program.leads_history world (run s) start
    · exact ih hmem

/-- **The states of every run are faithful to what it did.** When runs follow one another with the
same settings, the states that each of them leaves are faithful to what this run did, so none is
left of the runs before it. -/
theorem states_faithful (s : Settings) :
    (∀ (h : History) (record : Record), (run s).Leads h record → Faithful s h record) ∧
      ∀ {σ : Type} (worlds : List (World σ)) (start : σ),
        ∀ account ∈ journal (worlds.map fun world => (s, world)) start,
          Faithful s account.1 account.2 :=
  ⟨fun _ _ hl => faithful_of_leads hl,
    fun _ _ _ hmem => faithful_of_leads (leads_of_mem_journal hmem)⟩

/-- Of two runs in a world that stores the marker the first goes all the way and the second is not
due, and each leaves its own states. -/
theorem states_faithful_twice : ∃ first second : History × Record,
    journal ([storing "last_run.json" [bash], storing "last_run.json" [bash]].map fun world =>
      (applying, world)) Files.empty = [first, second] ∧
    first.2.history = [.idle, .locking, .intervalCheck, .refreshing, .querying, .downloading,
      .applying, .evaluatingReboot, .emitting, .persisting, .done] ∧
    second.2.history = [.idle, .locking, .intervalCheck, .done] ∧
    Faithful applying first.1 first.2 ∧ Faithful applying second.1 second.2 := by
  refine ⟨_, _, rfl, by decide +kernel, by decide +kernel, ?_, ?_⟩
  · exact (states_faithful applying).1 _ _ (Program.leads_history _ _ _)
  · exact (states_faithful applying).2 [storing "last_run.json" [bash],
      storing "last_run.json" [bash]] Files.empty _ (List.mem_cons_of_mem _ List.mem_cons_self)

end

end Run

end Upkeep
