import Upkeep.Proofs.Run.Locking
import Upkeep.Proofs.Run.Settling

/-!
# The interval gate of a run

A run that comes to the interval gate has asked for the time and taken the lock, and nothing else.
It passes the gate if it is due at the time when it started, by the marker that it finds; a run that
does not pass is skipped, and no other run is. Much later, a run that writes the marker writes the
time that it has just asked for.

## Main definitions

* `Passes`: a run is past the gate, and will not be skipped.

## Main results

* `gated_of_leads`: what a run does up to the gate, and when it is skipped.
* `passes_iff`: when a run passes.
* `each_dated`: a marker holds a time that was asked for.
-/

namespace Upkeep.Run

/-- However the run goes on, it is not skipped. -/
def Passes (s : Settings) (h : History) : Prop :=
  ∀ h' record, (run s).Leads (h ++ h') record → record.result.outcome ≠ .skipped

section

variable {s : Settings} {p p' : Spot} {l l' : Ledger} {h h₀ before after : History}
  {reached : Reached} {record : Record}

/-! ### Past the gate -/

/-- No step leads to the gate, and none makes a run skipped. -/
theorem Step.unskipped (step : Step s p l h p' l') :
    p' ≠ .gate ∧ (l.result.outcome ≠ .skipped → l'.result.outcome ≠ .skipped) := by
  cases step with
  | refreshed passed => exact ⟨by simp, by simp [warnDegraded_eq]⟩
  | downloaded passed wanted => exact ⟨by simp, by simp [recordDownloads_eq]⟩
  | applied passed =>
    refine ⟨by simp, fun _ => ?_⟩
    simp only [Ledger.result_update, doneOutcome]
    split <;> simp
  | refused passed known partly => exact ⟨by simp, by simp⟩
  | _ => exact ⟨by simp, by simp⟩

/-- Past the gate no exit makes a run skipped. -/
theorem Exit.unskipped (exit : Exit s p l h l' reached) (hgate : p ≠ .gate)
    (hopen : l.result.outcome ≠ .skipped) : l'.result.outcome ≠ .skipped := by
  cases exit with
  | interrupted watch broken => simp [RunResult.abort]
  | notDue answer due => exact absurd rfl hgate
  | downloadOnly passed mode =>
    simp only [Ledger.result_visit, Ledger.result_update, doneOutcome]
    split <;> simp
  | unavailable passed | unanswered passed | stateUnknown passed unknown
  | rejected passed known whole => simp [RunResult.abort]
  | upToDate passed | reportOnly passed some mode => simp
  | unadvised passed | advised passed => simpa [RunResult.warn] using hopen

theorem Trip.unskipped (ht : Trip s p l h l' reached) (hgate : p ≠ .gate)
    (hopen : l.result.outcome ≠ .skipped) :
    (∀ e ∈ h, e.request.phase ≠ .interval) ∧ l'.result.outcome ≠ .skipped := by
  have hphase : ∀ {p : Spot}, p ≠ .gate → p.phase ≠ .interval := by
    intro p hp
    cases p with
    | gate => exact absurd rfl hp
    | _ => simp
  refine ht.preserves
    (fun h p l => p ≠ .gate ∧ (∀ e ∈ h, e.request.phase ≠ .interval) ∧ l.result.outcome ≠ .skipped)
    (fun h l _ => (∀ e ∈ h, e.request.phase ≠ .interval) ∧ l.result.outcome ≠ .skipped)
    ?_ ?_ [] ⟨hgate, by simp, hopen⟩
  · rintro h₀ p l h p' l' step ⟨hp, hquiet, hopen⟩
    exact ⟨step.unskipped.1, List.forall_mem_append.mpr
      ⟨hquiet, fun e he => step.keeps e he ▸ hphase hp⟩, step.unskipped.2 hopen⟩
  · rintro h₀ p l h l' reached exit ⟨hp, hquiet, hopen⟩
    exact ⟨List.forall_mem_append.mpr ⟨hquiet, fun e he => exit.keeps e he ▸ hphase hp⟩,
      exit.unskipped hp hopen⟩

/-- The stages of a run begin with the gate, and it is skipped if it is not due. -/
theorem Trip.gated (ht : Trip s .gate l h l' reached) (hopen : l.result.outcome ≠ .skipped) :
    ∃ answer rest, h = ⟨.readMarker, answer⟩ :: rest ∧
      (∀ e ∈ rest, e.request.phase ≠ .interval) ∧
        (l'.result.outcome = .skipped ↔
          Marker.isDue answer.value l.result.startedAt s.config.minInterval = false) := by
  cases ht with
  | out exit =>
    cases exit with
    | interrupted watch broken => cases watch
    | notDue answer due => exact ⟨answer, [], rfl, by simp, by simp [RunResult.warn, due]⟩
  | on step rest =>
    cases step with
    | due answer due =>
      obtain ⟨hquiet, hopen'⟩ := rest.unskipped (by simp) (by simpa using hopen)
      exact ⟨answer, _, rfl, hquiet, by simp [hopen', due]⟩

/-! ### Up to the gate -/

/-- **What a run does up to the interval gate, and when it is skipped.** -/
theorem gated_of_leads {answer : Answer (Option Instant)}
    (hl : (run s).Leads (before ++ ⟨.readMarker, answer⟩ :: after) record) :
    ∃ (started : Answer Instant) (lock : Answer (Except LockError Unit)),
      before = [⟨.now, started⟩, ⟨.acquireLock, lock⟩] ∧ lock.value = .ok () ∧
        (record.result.outcome = .skipped ↔
          Marker.isDue answer.value started.value s.config.minInterval = false) := by
  have hcourse := course_of_leads hl
  generalize hh : before ++ ⟨.readMarker, answer⟩ :: after = h at hcourse
  have habsurd : (∀ e ∈ h, e.request.phase ≠ .interval) → False :=
    fun hquiet => hquiet ⟨.readMarker, answer⟩ (by simp [← hh]) rfl
  -- What a run does after it has taken the lock begins with the gate, and does not come back to it.
  have hlocate : ∀ {started : Answer Instant} {lock : Answer (Except LockError Unit)}
      {answer' : Answer (Option Instant)} {rest : History},
      h = [⟨.now, started⟩, ⟨.acquireLock, lock⟩] ++ ⟨.readMarker, answer'⟩ :: rest →
      (∀ e ∈ rest, e.request.phase ≠ .interval) →
        before = [⟨.now, started⟩, ⟨.acquireLock, lock⟩] ∧ answer = answer' := by
    intro started lock answer' rest heq hquiet
    obtain ⟨hbefore, hevent, -⟩ := History.append_cons_inj (hh.trans heq) rfl
      (by simp [Request.phase]) hquiet
    cases hevent
    exact ⟨hbefore, rfl⟩
  have hclosing : ∀ {reached : Reached} {locked : Bool} {l : Ledger} {h : History}
      {record : Record},
      Closing s reached locked l h record → ∀ e ∈ h, e.request.phase ≠ .interval :=
    fun closing e he hphase => absurd (closing.keeps e he) (by simp [hphase])
  cases hcourse with
  | contended started lock finished taken =>
    exact (habsurd (by simp [Request.phase])).elim
  | unopened started lock failed closing =>
    have hstart : ∀ e ∈ ([⟨.now, started⟩, ⟨.acquireLock, lock⟩] : History),
        e.request.phase ≠ .interval := by
      simp [Request.phase]
    exact (habsurd (List.forall_mem_append.mpr ⟨hstart, hclosing closing⟩)).elim
  | skipped started lock finished release locked trip =>
    obtain ⟨answer', rest, rfl, hquiet, hskipped⟩ := trip.gated (by simp [begun, opening,
      RunResult.start])
    have hend : ∀ e ∈ ([⟨.now, finished⟩, ⟨.releaseLock, release⟩] : History),
        e.request.phase ≠ .interval := by
      simp [Request.phase]
    obtain ⟨hbefore, rfl⟩ := hlocate rfl (List.forall_mem_append.mpr ⟨hquiet, hend⟩)
    exact ⟨started, lock, hbefore, locked, hskipped⟩
  | staged started lock locked trip due closing =>
    obtain ⟨answer', rest, rfl, hquiet, hskipped⟩ := trip.gated (by simp [begun, opening,
      RunResult.start])
    obtain ⟨hbefore, rfl⟩ := hlocate rfl (List.forall_mem_append.mpr ⟨hquiet, hclosing closing⟩)
    refine ⟨started, lock, hbefore, locked, ?_⟩
    have houtcome := congrArg RunResult.outcome closing.deeds
    exact (iff_of_eq (congrArg (· = Outcome.skipped) houtcome)).trans hskipped

/-- **When a run passes**: if it is due at the time when it started, by the marker that it
finds. -/
theorem passes_iff {next : Answer (Option Instant) → Program Record}
    (hp : (run s).After before (.ask .readMarker next)) (answer : Answer (Option Instant)) :
    ∃ (started : Answer Instant) (lock : Answer (Except LockError Unit)),
      before = [⟨.now, started⟩, ⟨.acquireLock, lock⟩] ∧ lock.value = .ok () ∧
        (Passes s (before ++ [⟨.readMarker, answer⟩]) ↔
          Marker.isDue answer.value started.value s.config.minInterval = true) := by
  have hrest := Program.leads_history (smooth []) (next answer) ()
  have hl := hp.leads_iff.mpr ⟨answer, _, rfl, hrest⟩
  obtain ⟨started, lock, rfl, locked, hskipped⟩ := gated_of_leads hl
  refine ⟨started, lock, rfl, locked, fun hpasses => ?_, fun hdue h' record' hl' hskipped' => ?_⟩
  · rw [← Bool.not_eq_false]
    intro hdue
    exact hpasses ((next answer).history (smooth []) ()) _ hl (hskipped.mpr hdue)
  · rw [List.append_assoc] at hl'
    obtain ⟨started', lock', heq, -, hiff⟩ := gated_of_leads hl'
    cases heq
    rw [hiff.mp hskipped'] at hdue
    cases hdue

/-! ### Writing the marker -/

/-- **A marker holds a time that was asked for.** -/
theorem each_dated (hl : (run s).Leads h record) :
    h.Each fun before e => ∀ time, e.request = .writeMarker time →
      ∃ now : Answer Instant, ⟨.now, now⟩ ∈ before ∧ now.value = time := by
  rintro before ⟨q, answer⟩ after heq time rfl
  obtain ⟨hattempted, hwithheld, -⟩ := settling_of_leads hl
  by_cases hsettled : Settled h record
  · obtain ⟨now, answer', hfirst, -, -, hlate, -⟩ := hattempted hsettled
    rename_i start rest told summary
    have hstart : ∀ e ∈ start ++ [⟨.now, now⟩], e.request.phase ≠ .persist := by
      refine List.forall_mem_append.mpr ⟨fun e he hphase => ?_, by simp [Request.phase]⟩
      have hmem : e ∈ start.during .persist := List.mem_filter.mpr ⟨he, by simpa using hphase⟩
      rw [hfirst] at hmem
      cases hmem
    have hsplit : before ++ ⟨.writeMarker time, answer⟩ :: after =
        (start ++ [⟨.now, now⟩]) ++ ⟨.writeMarker now.value, answer'⟩ :: rest := by
      rw [← heq, List.append_assoc]
      rfl
    have hrest : ∀ e ∈ rest, e.request.phase ≠ .persist := by
      intro e he
      rcases hlate e he with hphase | hphase <;> simp [hphase]
    obtain ⟨rfl, hevent, -⟩ := History.append_cons_inj hsplit rfl hstart hrest
    cases hevent
    exact ⟨now, by simp, rfl⟩
  · have hmem : (⟨.writeMarker time, answer⟩ : Event) ∈ h.during .persist :=
      List.mem_filter.mpr ⟨by simp [heq], by simp [Request.phase]⟩
    rw [hwithheld hsettled] at hmem
    cases hmem

end

end Upkeep.Run
