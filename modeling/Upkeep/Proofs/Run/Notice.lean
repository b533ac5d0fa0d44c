import Upkeep.Proofs.Metadata
import Upkeep.Proofs.Run.Interruption

/-!
# When a request for cancellation is noticed

Cancellation is looked at when a guarded stage starts and when one of its answers has to be waited
for, and at no other time. So a run notices a request for cancellation if it comes to one of these
afterwards. Otherwise it goes on as if nothing had happened: when cancellation is requested in the
last stage of a run and the answers are there at once, the run ends as it would have ended without
it. It may have been aborted in that stage for a reason of its own; if not, it writes the marker,
and it reboots when it is told to.

Which stage is the last one depends on what the run found and on what it is to do: the query when
there is nothing to upgrade or upgrades are only reported, the downloads when nothing is to be
applied, the decision about a reboot otherwise.

## Main definitions

* `Request.isWatched`: the requests that cancellation can interrupt.
* `Noticed`: a run looks at cancellation again.

## Main results

* `leads_notice`: a run is halted if it notices, and ends as it would have otherwise.
* `missed_late`: a run that does not notice, and reboots.
-/

namespace Upkeep

/-- Whether the answer to a request is watched for together with cancellation. -/
def Request.isWatched : Request → Bool
  | .networkOverdue _ => false
  | q => q.phase.isStage

theorem Request.isStage_of_isWatched {q : Request} (hq : q.isWatched = true) :
    q.phase.isStage = true := by
  cases q with
  | networkOverdue limit => rfl
  | _ => exact hq

theorem Request.isWatched_eq_false {q : Request} (hq : q.phase.isStage = false) :
    q.isWatched = false :=
  Bool.eq_false_iff.mpr fun hwatched =>
    Bool.false_ne_true (hq.symm.trans (isStage_of_isWatched hwatched))

theorem Request.isWatched_of_isStage {q : Request} (hq : q.phase.isStage = true)
    (hother : q.phase ≠ .network) : q.isWatched = true := by
  cases q with
  | networkOverdue limit => exact absurd rfl hother
  | _ => exact hq

namespace History

/-- No answer was waited for while cancellation had been requested, as long as that would have been
noticed. -/
def Calm (before : History) (e : Event) : Prop :=
  e.request.isWatched = true → e.answer.waited = true → (before ++ [e]).cancelled = false

variable {h h₀ h₁ h₂ before after : History} {e : Event}

theorem Undisturbed.each_calm (hh : h.Undisturbed false) (hfresh : h₀.cancelled = false) :
    h.Each fun before e => Calm (h₀ ++ before) e := by
  rintro before e after rfl - hwaited
  have hcalm := ((undisturbed_append _ _ _).mp hh).2.1
  rw [hwaited, Bool.true_and, Bool.false_or] at hcalm
  simpa [hfresh] using hcalm

theorem each_calm_of_forall {f : History → History}
    (hh : ∀ e ∈ h, e.request.isWatched = false) :
    h.Each fun before e => Calm (f before) e := by
  refine each_of_forall fun e he before hwatched => ?_
  rw [hh e he] at hwatched
  cases hwatched

end History

theorem Program.Asks.imp {α : Type} {kind kind' : Request → Prop} {p : Program α}
    (hp : p.Asks kind) (hkind : ∀ q, kind q → kind' q) : p.Asks kind' := by
  induction p with
  | done a => exact trivial
  | ask q next ih => exact ⟨hkind q hp.1, fun answer => ih answer (hp.2 answer)⟩

/-- What keeps upgrades from being listed is no interruption. -/
theorem Upgrades.kind_of_leads_list {scope : Scope} {exclude available : List String}
    {limit : Span} {h : History} {e : RunError}
    (hl : (list scope exclude available limit).Leads h (.error e)) : e.kind ≠ .interrupted := by
  obtain ⟨answer, rest, rfl, -, heq⟩ := hl
  split at heq
  · cases heq
    simp [RunError.kind]
  · cases heq
    simp [RunError.kind]
  · cases heq

namespace Run

/-- Once an event has happened, the run looks at cancellation again: an answer has to be waited for
that is watched, this one or a later one; or another guarded stage is to start. -/
def Noticed (s : Settings) (before : History) (e : Event) (after : History) : Prop :=
  (∃ e' ∈ e :: after, e'.request.isWatched = true ∧ e'.answer.waited = true) ∨
    ∃ more rest : History, after = more ++ rest ∧ Enters s (before ++ e :: more)

section

variable {s : Settings} {p p' : Spot} {l l' : Ledger} {h h₀ h₁ h₂ h₃ before after : History}
  {reached : Reached} {record : Record}

/-- Going on, a run waits for nothing while cancellation has been requested. -/
theorem Step.each_calm (step : Step s p l h p' l') (hfresh : l.cancelled = h₀.cancelled) :
    h.Each fun before e => History.Calm (h₀ ++ before) e := by
  cases step with
  | due _ _ | timed _ =>
    exact History.each_calm_of_forall (by simp [Request.isWatched, Request.phase, Phase.isStage])
  | awake _ | hasty _ | waiting _ | impatient => exact History.each_calm_of_forall (by simp)
  | overdue passed _ _ | offline passed _ _ =>
    exact History.each_append (passed.2.2.each_calm (hfresh ▸ passed.1))
      (History.each_of_forall fun e he before hwatched => by
        obtain rfl := List.mem_singleton.mp he
        cases hwatched)
  | slept _ passed | online passed | rested passed | refreshed passed | offered passed _ _
  | downloaded passed _ | applied passed | refused passed _ _ =>
    exact passed.2.2.each_calm (hfresh ▸ passed.1)

theorem Stands.each_calm (hs : Stands s h p l) : h.Each History.Calm := by
  induction hs with
  | locked started answer locked =>
    exact History.each_calm_of_forall (f := id)
      (by simp [Request.isWatched, Request.phase, Phase.isStage])
  | on before step ih => exact History.each_append ih (step.each_calm before.cancelled)

/-- The stages end without an interruption: no request for cancellation was noticed, and the run
either was aborted for another reason or settles. -/
structure Unstruck (h₀ h : History) (reached : Reached) (r : RunResult) : Prop where
  /-- No request for cancellation was noticed. -/
  calm : h.Each fun before e => History.Calm (h₀ ++ before) e
  /-- Another reason to abort the run came first, if one came. -/
  abortKind : r.abortKind ≠ some .interrupted
  /-- The run settles if there was no reason to abort it. -/
  settles : reached ≠ .skipped → r.outcome = .aborted ∨ r.IsSettled

/-- The stages end with an interruption, or without one. -/
theorem Exit.struck_or (exit : Exit s p l h l' reached) (hfresh : l.cancelled = h₀.cancelled)
    (hpending : Pending h₀ p l.result) :
    (∃ w, p.watch? s l = some w ∧ w.program.Broken l.cancelled h ∧
      l'.result.isAbortedWith .interrupted = true) ∨ Unstruck h₀ h reached l'.result := by
  have hcalm : ∀ {α : Type} {program : Program α} {a : α}, program.Passed l.cancelled h a →
      h.Each fun before e => History.Calm (h₀ ++ before) e :=
    fun passed => passed.2.2.each_calm (hfresh ▸ passed.1)
  obtain ⟨hkind, houtcome, -⟩ := hpending
  cases exit with
  | interrupted watch broken =>
    rw [(Spot.ledger_watch? watch).2] at broken
    exact Or.inl ⟨_, watch, broken, isAbortedWith_interrupted watch hkind⟩
  | notDue answer due =>
    refine Or.inr ⟨History.each_calm_of_forall ?_, ?_, fun hdue => absurd rfl hdue⟩
    · simp [Request.isWatched, Request.phase, Phase.isStage]
    · simp [RunResult.warn, hkind]
  | unavailable passed =>
    have hother := Metadata.kind_of_leads_ensureFresh passed.2.1
    exact Or.inr ⟨hcalm passed, by simpa [RunResult.abort, hkind] using hother,
      fun _ => Or.inl rfl⟩
  | unanswered passed =>
    have hother := Upgrades.kind_of_leads_list passed.2.1
    exact Or.inr ⟨hcalm passed, by simpa [RunResult.abort, hkind] using hother,
      fun _ => Or.inl rfl⟩
  | upToDate passed =>
    exact Or.inr ⟨hcalm passed, by simp [hkind], fun _ => Or.inr (Or.inl rfl)⟩
  | reportOnly passed some mode =>
    exact Or.inr ⟨hcalm passed, by simp [hkind], fun _ => Or.inr (Or.inr (Or.inl rfl))⟩
  | downloadOnly passed mode =>
    refine Or.inr ⟨hcalm passed, by simp [hkind, recordDownloads_eq], fun _ => Or.inr (Or.inr ?_)⟩
    simp only [Ledger.result_visit, Ledger.result_update, doneOutcome]
    split
    · exact Or.inr (Or.inl rfl)
    · exact Or.inl rfl
  | stateUnknown passed unknown =>
    exact Or.inr ⟨hcalm passed, by simp [RunResult.abort, hkind], fun _ => Or.inl rfl⟩
  | rejected passed known whole =>
    exact Or.inr ⟨hcalm passed, by simp [RunResult.abort, hkind], fun _ => Or.inl rfl⟩
  | unadvised passed =>
    exact Or.inr ⟨hcalm passed, by simp [RunResult.warn, hkind],
      fun _ => Or.inr (Or.inr (houtcome.imp_right Or.inl))⟩
  | advised passed =>
    exact Or.inr ⟨hcalm passed, by simp [hkind],
      fun _ => Or.inr (Or.inr (houtcome.imp_right Or.inl))⟩

/-- A guarded program asks only for what is watched. -/
theorem Spot.asks_watch? {w : Watch} (watch : p.watch? s l = some w) :
    w.program.Asks fun q => q.isWatched = true := by
  have hkeeps := Spot.keeps_watch? watch
  have hwatched : p.phase.isStage = true → p.phase ≠ .network →
      w.program.Asks fun q => q.isWatched = true :=
    fun hstage hother => hkeeps.imp fun q hq =>
      Request.isWatched_of_isStage (hq ▸ hstage) (hq ▸ hother)
  cases p with
  | look patience =>
    cases patience with
    | zero => cases watch
    | succ patience =>
      cases watch
      exact ⟨rfl, fun _ => trivial⟩
  | rest patience =>
    cases watch
    exact ⟨rfl, fun _ => trivial⟩
  | gate | network | refresh => cases watch
  | sleep | metadata _ | query _ | download | transaction _ | advice => exact hwatched rfl (by simp)

/-- Only at the gate a run turns out not to be due. -/
theorem Exit.eq_gate (exit : Exit s p l h l' reached) (hskipped : reached = .skipped) :
    p = .gate := by
  cases exit with
  | interrupted watch broken => exact absurd hskipped (Spot.reached_watch? watch)
  | notDue answer due => rfl
  | _ => cases hskipped

/-- A run that watched for an answer has been through its stages. -/
theorem staged_of_watched (hl : (run s).Leads h record) {e : Event} (he : e ∈ h)
    (hwatched : e.request.isWatched = true) :
    ∃ (h₁ h₂ h₃ : History) (p : Spot) (l₁ l₂ : Ledger) (reached : Reached),
      h = h₁ ++ (h₂ ++ h₃) ∧ Stands s h₁ p l₁ ∧ Exit s p l₁ h₂ l₂ reached ∧
        reached ≠ .skipped ∧ Closing s reached true l₂ h₃ record := by
  have hstage := Request.isStage_of_isWatched hwatched
  cases course_of_leads hl with
  | contended started answer finished taken =>
    simp only [List.mem_cons, List.not_mem_nil, or_false] at he
    rcases he with rfl | rfl | rfl <;> cases hwatched
  | unopened started answer failed closing =>
    rcases List.mem_cons.mp he with rfl | he
    · cases hwatched
    · rcases List.mem_cons.mp he with rfl | he
      · cases hwatched
      · rw [closing.quiet e he] at hstage
        cases hstage
  | skipped started answer finished release locked trip =>
    obtain ⟨h₁, h₂, p₁, l₁, heq, hs, exit⟩ :=
      trip.exists_exit [_, _] (.locked started answer locked)
    obtain rfl := exit.eq_gate rfl
    cases hs with
    | on before step => cases step
    | locked started' answer' locked' =>
      obtain ⟨-, rfl⟩ := List.append_inj heq rfl
      simp only [List.mem_cons, List.mem_append, List.not_mem_nil, or_false] at he
      rcases he with rfl | rfl | he | rfl | rfl
      · cases hwatched
      · cases hwatched
      · rw [exit.keeps e he] at hstage
        cases hstage
      · cases hwatched
      · cases hwatched
  | staged started answer locked trip due closing =>
    obtain ⟨h₁, h₂, p₁, l₁, heq, hs, exit⟩ :=
      trip.exists_exit [_, _] (.locked started answer locked)
    refine ⟨h₁, h₂, _, p₁, l₁, _, _, ?_, hs, exit, due, closing⟩
    rw [← List.append_assoc, ← heq]
    rfl

/-- An interruption notices what was requested before it. -/
theorem noticed_of_broken {w : Watch} {e : Event} (hs : Stands s h₁ p l)
    (watch : p.watch? s l = some w) (broken : w.program.Broken l.cancelled h₂)
    (hsplit : before ++ e :: after = h₁ ++ (h₂ ++ h₃)) (hquiet : e ∉ h₃) :
    Noticed s before e after := by
  rcases History.append_cons_eq_append hsplit with ⟨more, rfl, rfl⟩ | ⟨between, rfl, hlater⟩
  · exact Or.inr ⟨more, _, rfl, p, l, hs, Option.isSome_iff_exists.mpr ⟨w, watch⟩⟩
  rcases History.append_cons_eq_append hlater.symm with ⟨more, rfl, rfl⟩ | ⟨between', rfl, rfl⟩
  · rcases broken with ⟨-, hnil⟩ | ⟨-, hbegins, start, e', heq, -, hwaited⟩
    · simp at hnil
    · have hlast : (e :: more).getLast? = some e' := by
        simpa using congrArg List.getLast? heq
      have hmem : e' ∈ e :: (more ++ h₃) := List.mem_append_left h₃ (List.mem_of_getLast? hlast)
      refine Or.inl ⟨e', hmem, ?_, (Bool.and_eq_true_iff.mp hwaited).1⟩
      exact hbegins.asks (Spot.asks_watch? watch) e' (by simp [heq])
  · exact absurd (by simp) hquiet

/-- A run that never waits for an answer while cancellation has been requested, and is not
interrupted, does not notice the request. -/
theorem not_noticed_of_calm {e : Event} (hl : (run s).Leads (before ++ e :: after) record)
    (hcancelled : e.answer.cancelled = true)
    (hcalm : History.Each History.Calm (before ++ e :: after))
    (hopen : record.result.isAbortedWith .interrupted = false) : ¬Noticed s before e after := by
  rintro (⟨e', he', hwatched, hwaited⟩ | ⟨more, rest, rfl, henters⟩)
  · obtain ⟨start, rest, heq⟩ := List.append_of_mem he'
    have hnone := hcalm (before ++ start) e' rest (by rw [heq, List.append_assoc]) hwatched hwaited
    have he : e ∈ start ++ [e'] := by
      cases start with
      | nil =>
        cases heq
        simp
      | cons _ start =>
        cases heq
        simp
    rw [List.append_assoc, History.cancelled, List.any_eq_false] at hnone
    exact hnone e (List.mem_append_right before he) hcancelled
  · have heq : before ++ e :: (more ++ rest) = (before ++ e :: more) ++ rest := by simp
    rw [heq] at hl
    have hhalted := (halted_of_enters hl henters (by simp [hcancelled])).2
    rw [hhalted.aborted] at hopen
    cases hopen

/-- **A run that notices a request for cancellation is halted**; one that does not was aborted for
another reason, or it settles and writes the marker. -/
theorem leads_notice {e : Event} (hl : (run s).Leads h record) (hsplit : h = before ++ e :: after)
    (hwatched : e.request.isWatched = true) (hcancelled : e.answer.cancelled = true) :
    (Noticed s before e after → Halted s h record) ∧
      (¬Noticed s before e after → record.result.isAbortedWith .interrupted = false ∧
        (record.result.outcome = .aborted ∨ Attempted s h record)) := by
  obtain ⟨h₁, h₂, h₃, p, l₁, l₂, reached, heq, hs, exit, hdue, hclosing⟩ :=
    staged_of_watched hl (hsplit ▸ by simp) hwatched
  have hquiet : e ∉ h₃ := by
    intro he
    have hstage := Request.isStage_of_isWatched hwatched
    rw [hclosing.quiet e he] at hstage
    cases hstage
  rcases exit.struck_or hs.cancelled hs.pending with ⟨w, hwatch, hbroken, hinterrupted⟩ | hunstruck
  · refine ⟨fun _ => ?_, fun hnot => absurd ?_ hnot⟩
    · rw [heq, ← List.append_assoc]
      refine hclosing.halted (hs.early.append exit.keeps) ?_ hinterrupted
      rw [Spot.during_lock _ exit.keeps]
      exact hs.during_lock
    · exact noticed_of_broken hs hwatch hbroken (hsplit.symm.trans heq) hquiet
  · have hdeeds := hclosing.deeds
    have hopen : record.result.isAbortedWith .interrupted = false := by
      rw [isAbortedWith_congr hdeeds]
      exact Bool.and_eq_false_imp.mpr fun _ => beq_eq_false_iff_ne.mpr hunstruck.abortKind
    have hcalm : History.Each History.Calm h := by
      rw [heq]
      refine History.each_append hs.each_calm (History.each_append hunstruck.calm ?_)
      exact History.each_calm_of_forall fun e he =>
        Request.isWatched_eq_false (hclosing.quiet e he)
    have hnot : ¬Noticed s before e after := by
      subst hsplit
      exact not_noticed_of_calm hl hcancelled hcalm hopen
    refine ⟨fun hnoticed => absurd hnoticed hnot, fun _ => ⟨hopen, ?_⟩⟩
    rcases hunstruck.settles hdue with haborted | hsettled
    · exact Or.inl (by rw [← haborted]; exact congrArg (·.outcome) hdeeds)
    · obtain ⟨hattempted, -, hiff⟩ := settling_of_leads hl
      exact Or.inr (hattempted (hiff.mpr ((isSettled_congr hdeeds).mpr hsettled)))

end

/-! ### Unnoticed -/

/-- Settings under which a run reboots when what it applied needs it. -/
def rebooting : Settings :=
  { applying with
    config :=
      { commands := { applyUpdates := true, reboot := .whenNeeded, triggerReboot := true } } }

/-- A world in which all goes well and a reboot is needed, and in which cancellation is requested
while that is found out. -/
def late : World Unit := struck (fun q => q.phase = .advice) fun
  | .rebootReason _, u => (atOnce (.ok (some "core packages updated: bash")), u)
  | q, u => smooth [bash] q u

/-- In that world cancellation is requested at an answer that is watched for. -/
theorem exists_struck_late : ∃ before e after,
    (run rebooting).history late () = before ++ e :: after ∧ e.request.isWatched = true ∧
      e.answer.cancelled = true := by
  have hany : (((run rebooting).history late ()).any fun e =>
      e.request.isWatched && e.answer.cancelled) = true := by decide +kernel
  obtain ⟨e, he, hstruck⟩ := List.any_eq_true.mp hany
  obtain ⟨before, after, heq⟩ := List.append_of_mem he
  exact ⟨before, e, after, heq, Bool.and_eq_true_iff.mp hstruck⟩

/-- Its run does not notice: it counts as completed, and writes the marker. -/
theorem leads_notice_late : ∃ h record, (run rebooting).Leads h record ∧
    record.result.outcome = .completed ∧ Attempted rebooting h record := by
  have hl := Program.leads_history late (run rebooting) ()
  have hcompleted : ((run rebooting).run late ()).1.result.outcome = .completed := by
    decide +kernel
  obtain ⟨before, e, after, heq, hwatched, hcancelled⟩ := exists_struck_late
  obtain ⟨hnoticed, hunnoticed⟩ := leads_notice hl heq hwatched hcancelled
  refine ⟨_, _, hl, hcompleted, ?_⟩
  by_cases hn : Noticed rebooting before e after
  · have haborted := (hnoticed hn).aborted
    rw [RunResult.isAbortedWith, hcompleted] at haborted
    cases haborted
  · refine (hunnoticed hn).2.resolve_left ?_
    rw [hcompleted]
    decide

/-- **A request for cancellation may be missed altogether**: here it comes while the reboot check
is answered, and the run counts as completed, writes the marker and reboots. -/
theorem missed_late : ∃ (h before after : History) (e : Event) (record : Record),
    (run rebooting).Leads h record ∧ h = before ++ e :: after ∧ e.request.isWatched = true ∧
      e.answer.cancelled = true ∧ record.result.outcome = .completed ∧
      h.during .persist ≠ [] ∧ h.during .reboot ≠ [] := by
  have hl := Program.leads_history late (run rebooting) ()
  obtain ⟨before, e, after, heq, hwatched, hcancelled⟩ := exists_struck_late
  have hwritten : ((run rebooting).history late ()).any (fun e => e.request.phase = .persist) ∧
      ((run rebooting).history late ()).any (fun e => e.request.phase = .reboot) := by
    decide +kernel
  refine ⟨_, before, after, e, _, hl, heq, hwatched, hcancelled, by decide +kernel, ?_, ?_⟩
  · simpa [History.during] using hwritten.1
  · simpa [History.during] using hwritten.2

end Run

end Upkeep
