import Upkeep.Proofs.Remainders
import Upkeep.Proofs.Run.Course

/-!
# What a run does with the lock

A run asks for the lock once, before anything else but the time. Only while it has the lock does it
read and write the marker, call the package manager and the host, and reboot; without it a run
reports at most. A run that has taken the lock lets go of it, and has nothing left to do then.

## Main definitions

* `Request.needsLock`: what a run asks for only while it has the lock.
* `History.HasLock`: the run has the lock.
* `Tied`: an event that comes when it should.

## Main results

* `each_tied`: every event of a run comes when it should.
* `not_hasLock_of_leads`: a run does not have the lock at its end.
-/

namespace Upkeep

/-- Whether a request is for something that is done only while the run has the lock. -/
def Request.needsLock (q : Request) : Bool :=
  match q.phase with
  | .clock | .lock | .report => false
  | _ => true

/-- The run has taken the lock and not let go of it. -/
def History.HasLock (h : History) : Prop :=
  ∃ answer : Answer (Except LockError Unit),
    answer.value = .ok () ∧ h.during .lock = [⟨.acquireLock, answer⟩]

/-- What is not about the lock does not change who has it. -/
theorem History.hasLock_append {h₀ h : History} (hquiet : ∀ e ∈ h, e.request.phase ≠ .lock) :
    HasLock (h₀ ++ h) ↔ h₀.HasLock := by
  rw [HasLock, HasLock, during_append, during_eq_nil hquiet, List.append_nil]

namespace Run

/-- The event comes when it should: the lock is asked for first, it is let go of only by a run that
has it, and what needs it is done only by a run that has it. -/
structure Tied (before : History) (e : Event) : Prop where
  /-- The lock is asked for first. -/
  first : e.request = .acquireLock → before.during .lock = []
  /-- Only a run that has the lock lets go of it. -/
  last : e.request = .releaseLock → before.HasLock
  /-- What needs the lock is done by a run that has it. -/
  needs : e.request.needsLock = true → before.HasLock

section

variable {s : Settings} {h h₀ : History} {l l' : Ledger} {reached : Reached} {record : Record}

/-- What is not about the lock comes when it should, once the run has the lock. -/
theorem each_tied_of_hasLock (hh : h₀.HasLock) (hquiet : ∀ e ∈ h, e.request.phase ≠ .lock) :
    h.Each fun before e => Tied (h₀ ++ before) e := by
  rintro before e after rfl
  have hheld := (History.hasLock_append fun e' he' => hquiet e' (List.mem_append_left _ he')).mpr hh
  have hphase := hquiet e (by simp)
  refine ⟨fun heq => ?_, fun heq => ?_, fun _ => hheld⟩ <;>
    exact absurd (by rw [heq]; rfl) hphase

/-- What neither is about the lock nor needs it always comes when it should. -/
theorem each_tied_of_idle (h₀ : History)
    (hidle : ∀ e ∈ h, e.request.phase = .clock ∨ e.request.phase = .report) :
    h.Each fun before e => Tied (h₀ ++ before) e := by
  refine History.each_of_forall fun e he before => ?_
  have hphase := hidle e he
  refine ⟨fun heq => ?_, fun heq => ?_, fun hneeds => ?_⟩
  · simp [heq, Request.phase] at hphase
  · simp [heq, Request.phase] at hphase
  · rcases hphase with hphase | hphase <;> simp [Request.needsLock, hphase] at hneeds

theorem tied_release (answer : Answer Unit) (hh : h₀.HasLock) :
    History.Each (fun before e => Tied (h₀ ++ before) e) [⟨.releaseLock, answer⟩] := by
  refine History.each_singleton ⟨fun heq => ?_, fun _ => by simpa using hh, fun hneeds => ?_⟩
  · cases heq
  · cases hneeds

theorem each_tied_start (started : Answer Instant) (answer : Answer (Except LockError Unit)) :
    History.Each Tied [⟨.now, started⟩, ⟨.acquireLock, answer⟩] := by
  change History.Each Tied ([⟨.now, started⟩] ++ [⟨.acquireLock, answer⟩])
  refine History.each_append (each_tied_of_idle [] (by simp [Request.phase])) ?_
  refine History.each_singleton ⟨fun _ => rfl, fun heq => ?_, fun hneeds => ?_⟩
  · cases heq
  · cases hneeds

theorem hasLock_start (started : Answer Instant) {answer : Answer (Except LockError Unit)}
    (locked : answer.value = .ok ()) :
    History.HasLock [⟨.now, started⟩, ⟨.acquireLock, answer⟩] :=
  ⟨answer, locked, rfl⟩

/-- Closing is quiet about the lock until the run lets go of it. -/
theorem Closing.exists_release (hc : Closing s reached true l h record) :
    ∃ (h' : History) (release : Answer Unit), h = h' ++ [⟨.releaseLock, release⟩] ∧
      ∀ e ∈ h', e.request.phase ≠ .lock := by
  obtain ⟨now, emitted, persisted, rebooted, release, rfl⟩ := hc
  rename_i emission persistence reboot summary l₁ l₂
  refine ⟨⟨.now, now⟩ :: (emission ++ (persistence ++ reboot)), release, by simp, ?_⟩
  intro e he
  simp only [List.mem_cons, List.mem_append] at he
  rcases he with rfl | he | he | he
  · simp [Request.phase]
  · simp [emitted.begins.asks (keeps_report _ _) e he]
  · rcases persisted.keeps e he with heq | heq <;> simp [heq]
  · simp [rebooted.keeps e he]

/-- A run that closes without stages has nothing to write down and no reboot to carry out. -/
theorem Closing.idle (hc : Closing s .stopped false l h record)
    (hadvice : l.result.reboot.recommended = false) :
    ∀ e ∈ h, e.request.phase = .clock ∨ e.request.phase = .report := by
  obtain ⟨now, emitted, persisted, rebooted, rfl⟩ := hc
  rename_i summary l₁ l₂
  cases persisted with
  | written settled _ _ _ | unwritten settled _ _ _ => cases settled
  | spared _ =>
    have hcalm : reboots s
        ((announced l now).update (warnUndelivered summary.failed)).result = false := by
      rw [reboots, Ledger.result_update, warnUndelivered_eq]
      simp [announced, hadvice]
    cases rebooted with
    | triggered due _ _ | failed due _ _ =>
      rw [hcalm] at due
      cases due
    | spared _ =>
      intro e he
      simp only [List.mem_cons, List.append_nil] at he
      rcases he with rfl | he
      · exact Or.inl rfl
      · exact Or.inr (emitted.begins.asks (keeps_report _ _) e he)

/-- A run that has taken the lock is quiet about it until it lets go of it, which is the last thing
that it does. -/
theorem exists_release (hl : (run s).Leads h record) :
    (∃ (started : Answer Instant) (answer : Answer (Except LockError Unit)) (rest : History),
      h = [⟨.now, started⟩, ⟨.acquireLock, answer⟩] ++ rest ∧ answer.value ≠ .ok () ∧
        ∀ e ∈ rest, e.request.phase = .clock ∨ e.request.phase = .report) ∨
    ∃ (started : Answer Instant) (answer : Answer (Except LockError Unit)) (rest : History)
      (release : Answer Unit),
      h = [⟨.now, started⟩, ⟨.acquireLock, answer⟩] ++ (rest ++ [⟨.releaseLock, release⟩]) ∧
        answer.value = .ok () ∧ ∀ e ∈ rest, e.request.phase ≠ .lock := by
  cases course_of_leads hl with
  | contended started answer finished taken =>
    exact Or.inl ⟨started, answer, _, rfl, by simp [taken], by simp [Request.phase]⟩
  | unopened started answer failed closing =>
    exact Or.inl ⟨started, answer, _, rfl, by simp [failed], closing.idle rfl⟩
  | skipped started answer finished release locked trip =>
    rename_i h l
    refine Or.inr ⟨started, answer, h ++ [⟨.now, finished⟩], release, by simp, locked, ?_⟩
    intro e he
    rcases List.mem_append.mp he with he | he
    · exact fun heq => trip.keeps e he (by simp [heq])
    · obtain rfl := List.mem_singleton.mp he
      simp [Request.phase]
  | staged started answer locked trip due closing =>
    rename_i h h' l reached
    obtain ⟨h'', release, rfl, hquiet⟩ := closing.exists_release
    refine Or.inr ⟨started, answer, h ++ h'', release, by simp, locked, ?_⟩
    intro e he
    rcases List.mem_append.mp he with he | he
    · exact fun heq => trip.keeps e he (by simp [heq])
    · exact hquiet e he

/-- **Every event of a run comes when it should.** -/
theorem each_tied (hl : (run s).Leads h record) : h.Each Tied := by
  rcases exists_release hl with
    ⟨started, answer, rest, rfl, -, hidle⟩ | ⟨started, answer, rest, release, rfl, locked, hquiet⟩
  · exact History.each_append (each_tied_start started answer) (each_tied_of_idle _ hidle)
  · have hheld := hasLock_start started locked
    refine History.each_append (each_tied_start started answer)
      (History.each_append (each_tied_of_hasLock hheld hquiet) ?_)
    exact tied_release release ((History.hasLock_append hquiet).mpr hheld)

/-- **A run does not have the lock at its end.** -/
theorem not_hasLock_of_leads (hl : (run s).Leads h record) : ¬h.HasLock := by
  rintro ⟨answer', hvalue, hlock⟩
  rcases exists_release hl with
    ⟨started, answer, rest, rfl, hfailed, hidle⟩ |
      ⟨started, answer, rest, release, rfl, locked, hquiet⟩
  · have hrest : History.during .lock rest = [] := History.during_eq_nil fun e he => by
      rcases hidle e he with heq | heq <;> simp [heq]
    rw [History.during_append, hrest, List.append_nil] at hlock
    cases hlock
    exact hfailed hvalue
  · have hlength := congrArg List.length hlock
    rw [History.during_append, History.during_append] at hlength
    simp [History.during, Request.phase] at hlength

/-- What is true of every event of every run is true of the one that comes next. -/
theorem proper_of_after {proper : History → Event → Prop}
    (hproper : ∀ h record, (run s).Leads h record → h.Each proper) {q : Request}
    {next : Answer q.Reply → Program Record} (hp : (run s).After h (.ask q next))
    (answer : Answer q.Reply) : proper h ⟨q, answer⟩ := by
  have hrest := Program.leads_history (smooth []) (next answer) ()
  exact hproper _ _ (hp.leads_iff.mpr ⟨answer, _, rfl, hrest⟩) h _ _ rfl

/-- Whatever a run is about to ask for, it is time for that. -/
theorem tied_of_after {q : Request} {next : Answer q.Reply → Program Record}
    (hp : (run s).After h (.ask q next)) (answer : Answer q.Reply) : Tied h ⟨q, answer⟩ :=
  proper_of_after (fun _ _ => each_tied) hp answer

/-- A run that has nothing left to do does not have the lock. -/
theorem not_hasLock_of_after {record : Record} (hp : (run s).After h (.done record)) :
    ¬h.HasLock := by
  have hl : (run s).Leads (h ++ []) record := hp.leads_iff.mpr ⟨rfl, rfl⟩
  rw [List.append_nil] at hl
  exact not_hasLock_of_leads hl

end

end Run

end Upkeep
