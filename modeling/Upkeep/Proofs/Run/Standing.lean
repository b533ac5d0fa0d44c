import Upkeep.Proofs.Remainders
import Upkeep.Proofs.Run.Consistency
import Upkeep.Proofs.Run.Settling

/-!
# Where a run stands

Among its stages a run stands at a spot with a ledger, and what is left of it from there is known:
the rest of its stages, and then its end. So a run that has come to a spot can be judged by that
spot alone, whatever answers brought it there.

`Stands` goes forward from the lock, one step at a time, and holds of every beginning of a run; a
trip is taken apart at its exit by `Trip.exists_exit`.

## Main definitions

* `stagesFrom`: the stages of a run from a spot on.
* `Stands`: a run has come to a spot.

## Main results

* `Step.after`: what is left after a step is what there is to do at the next spot.
* `stagesFrom_of_cancelled`: cancellation keeps a guarded stage from starting.
* `Stands.after`: what is left of a run that stands at a spot.
-/

namespace Upkeep.Run

/-- The stages of a run from a spot on. -/
def stagesFrom (s : Settings) (l : Ledger) : Spot → Program (Ledger × Reached)
  | .gate => gate s l
  | .sleep => sleepFirst s l
  | .network => awaitNetwork s l
  | .look patience => lookForNetwork s s.networkLimit patience l
  | .rest patience =>
    l.guard (Program.call .sleepBetweenLooks) fun l rested =>
      match rested with
      | none => .done (l.stop .refresh .interrupted, .stopped)
      | some () => lookForNetwork s s.networkLimit patience l
  | .refresh => refresh s l
  | .metadata now =>
    l.guard (Metadata.ensureFresh s.config.base.repos s.config.metadataMaxAge s.metadataLimit now)
      fun l answer =>
        match answer with
        | none => .done (l.stop .refresh .interrupted, .stopped)
        | some (.error e) => .done (l.stop .refresh e, .stopped)
        | some (.ok summary) =>
          query s summary.available (l.update (warnDegraded summary.failed))
  | .query available => query s available l
  | .download => download s l
  | .transaction report => applyArtifacts s report l
  | .advice => adviseReboot s l

/-- A run has made the requests of a history, and stands at a spot with a ledger. -/
inductive Stands (s : Settings) : History → Spot → Ledger → Prop
  /-- It has taken the lock. -/
  | locked (started : Answer Instant) (answer : Answer (Except LockError Unit))
      (locked : answer.value = .ok ()) :
      Stands s [⟨.now, started⟩, ⟨.acquireLock, answer⟩] .gate (begun s started answer)
  /-- It has gone on by a step. -/
  | on {h h' : History} {p p' : Spot} {l l' : Ledger} (before : Stands s h p l)
      (step : Step s p l h' p' l') : Stands s (h ++ h') p' l'

section

variable {s : Settings} {p p' : Spot} {l l' : Ledger} {h h' : History} {reached : Reached}
  {record : Record}

/-! ### What is left -/

/-- **What is left after a step** is what there is to do at the next spot. -/
theorem Step.after (step : Step s p l h p' l') :
    (stagesFrom s l p).After h (stagesFrom s l' p') := by
  cases step with
  | due answer due =>
    rw [stagesFrom, gate]
    exact Ledger.after_call (if_pos due)
  | awake awake =>
    refine Program.after_nil.mpr ?_
    rw [stagesFrom, stagesFrom, sleepFirst, ← Settings.sleeps, awake, if_neg Bool.false_ne_true]
  | slept asleep passed =>
    rw [stagesFrom, sleepFirst, ← Settings.sleeps, if_pos asleep]
    exact Ledger.after_guard passed rfl
  | hasty hasty =>
    refine Program.after_nil.mpr ?_
    rw [stagesFrom, stagesFrom, awaitNetwork, if_pos (by simpa using hasty)]
  | waiting waiting =>
    refine Program.after_nil.mpr ?_
    rw [stagesFrom, stagesFrom, awaitNetwork, if_neg (by simpa using waiting)]
    rfl
  | impatient => exact Program.after_nil.mpr rfl
  | online passed =>
    rw [stagesFrom, lookForNetwork]
    exact Ledger.after_guard passed rfl
  | overdue passed answer overdue =>
    rw [stagesFrom, lookForNetwork]
    exact (Ledger.after_guard passed rfl).trans (Ledger.after_call (if_pos overdue))
  | offline passed answer early =>
    rw [stagesFrom, lookForNetwork]
    exact (Ledger.after_guard passed rfl).trans (Ledger.after_call (if_neg (by simp [early])))
  | rested passed =>
    simp only [stagesFrom]
    exact Ledger.after_guard passed rfl
  | timed answer =>
    rw [stagesFrom, refresh]
    exact Ledger.after_call rfl
  | refreshed passed =>
    rw [stagesFrom]
    exact Ledger.after_guard passed rfl
  | offered passed some wanted =>
    rw [stagesFrom, query]
    refine Ledger.after_guard passed ?_
    dsimp only
    rw [if_neg (by simpa using some), if_neg (by simpa using wanted)]
    rfl
  | downloaded passed wanted =>
    rw [stagesFrom, download]
    refine Ledger.after_guard passed ?_
    dsimp only
    rw [if_neg (by simpa using wanted)]
    rfl
  | applied passed =>
    rw [stagesFrom, applyArtifacts]
    exact Ledger.after_guard passed rfl
  | refused passed known partly =>
    rw [stagesFrom, applyArtifacts]
    refine Ledger.after_guard passed ?_
    dsimp only
    rw [known, if_neg Bool.false_ne_true, if_pos (by simpa using partly)]
    rfl

/-- At a guarded spot a run guards the program there, and stops when it is interrupted. -/
theorem stagesFrom_eq_guard {w : Watch} (watch : p.watch? s l = some w) :
    ∃ next, stagesFrom s l p = w.ledger.guard w.program next ∧
      ∀ l', next l' none = .done (l'.stop w.stage .interrupted, w.reached) := by
  cases p with
  | sleep =>
    rw [Spot.watch?] at watch
    split at watch
    · rename_i hsleeps
      cases watch
      rw [stagesFrom, sleepFirst, ← Settings.sleeps, if_pos hsleeps]
      exact ⟨_, rfl, fun _ => rfl⟩
    · cases watch
  | look patience =>
    cases patience with
    | zero => cases watch
    | succ patience =>
      cases watch
      rw [stagesFrom, lookForNetwork]
      exact ⟨_, rfl, fun _ => rfl⟩
  | rest patience =>
    cases watch
    simp only [stagesFrom]
    exact ⟨_, rfl, fun _ => rfl⟩
  | metadata now =>
    cases watch
    rw [stagesFrom]
    exact ⟨_, rfl, fun _ => rfl⟩
  | query available =>
    cases watch
    rw [stagesFrom, query]
    exact ⟨_, rfl, fun _ => rfl⟩
  | download =>
    cases watch
    rw [stagesFrom, download]
    exact ⟨_, rfl, fun _ => rfl⟩
  | transaction report =>
    cases watch
    rw [stagesFrom, applyArtifacts]
    exact ⟨_, rfl, fun _ => rfl⟩
  | advice =>
    cases watch
    rw [stagesFrom, adviseReboot]
    exact ⟨_, rfl, fun _ => rfl⟩
  | gate | network | refresh => cases watch

/-- A guarded stage that cancellation keeps from starting ends the stages, and asks for nothing. -/
theorem stagesFrom_of_cancelled {w : Watch} (watch : p.watch? s l = some w)
    (cancelled : l.cancelled = true) :
    stagesFrom s l p = .done (w.ledger.stop w.stage .interrupted, w.reached) := by
  obtain ⟨next, hguard, hnext⟩ := stagesFrom_eq_guard watch
  rw [hguard, Ledger.guard_of_cancelled ((Spot.ledger_watch? watch).2.trans cancelled), hnext]

/-- What is left of a run that has asked for the time and for the lock. -/
theorem after_run (started : Answer Instant) (answer : Answer (Except LockError Unit)) :
    (run s).After [⟨.now, started⟩, ⟨.acquireLock, answer⟩]
      (entered s (begun s started answer) answer.value) := by
  have hopening : { opening s started.value with cancelled := started.cancelled } =
      (opening s started.value).note [⟨.now, started⟩] := by
    simp [Ledger.note, opening]
  refine ⟨started, rfl, ?_⟩
  dsimp only
  rw [hopening]
  refine Ledger.after_call ?_
  rcases answer with ⟨(holder | ⟨path, cause⟩) | ⟨⟩, waited, cancelled⟩ <;> rfl

/-- **What is left of a run that stands at a spot**: its stages from there, and then its end. -/
theorem Stands.after (hs : Stands s h p l) :
    (run s).After h ((stagesFrom s l p).bind (conclude s)) := by
  induction hs with
  | locked started answer locked =>
    have hlater := after_run (s := s) started answer
    rwa [locked] at hlater
  | on before step ih => exact ih.trans (step.after.bind _)

/-! ### What is known on the way -/

/-- A ledger keeps in mind whether cancellation has been requested. -/
theorem Step.cancelled (step : Step s p l h p' l') :
    l'.cancelled = (l.cancelled || h.cancelled) := by
  cases step with
  | overdue _ _ _ | offline _ _ _ => simp [Bool.or_assoc]
  | _ => simp

theorem Stands.cancelled (hs : Stands s h p l) : l.cancelled = h.cancelled := by
  induction hs with
  | locked started answer locked => simp [begun, opening]
  | on before step ih => rw [step.cancelled, ih, History.cancelled_append]

theorem Stands.pending (hs : Stands s h p l) : Pending h p l.result := by
  induction hs with
  | locked started answer locked => exact ⟨rfl, Or.inl rfl, rfl⟩
  | on before step ih => exact step.pending ih

theorem Stands.holds (hs : Stands s h p l) : Holds s h p l.result := by
  induction hs with
  | locked started answer locked => exact holds_begun started answer
  | on before step ih => exact step.holds ih

theorem Spot.early_phase (p : Spot) : p.phase ∉ [Phase.report, .persist, .reboot] := by
  cases p <;> simp

theorem Early.append (hh : Early h) (hkeeps : ∀ e ∈ h', e.request.phase = p.phase) :
    Early (h ++ h') := by
  intro e he
  rcases List.mem_append.mp he with he | he
  · exact hh e he
  · rw [hkeeps e he]
    exact p.early_phase

theorem Stands.early (hs : Stands s h p l) : Early h := by
  induction hs with
  | locked started answer locked => exact early_begun (by simp)
  | on before step ih => exact ih.append step.keeps

/-- A trip is taken apart at its exit. -/
theorem Trip.exists_exit (ht : Trip s p l h l' reached) : ∀ h₀, Stands s h₀ p l →
    ∃ h₁ h₂ p₁ l₁, h₀ ++ h = h₁ ++ h₂ ∧ Stands s h₁ p₁ l₁ ∧ Exit s p₁ l₁ h₂ l' reached := by
  induction ht with
  | out exit =>
    intro h₀ hs
    exact ⟨h₀, _, _, _, rfl, hs, exit⟩
  | on step _ ih =>
    intro h₀ hs
    rw [← List.append_assoc]
    exact ih _ (.on hs step)

end

end Upkeep.Run
