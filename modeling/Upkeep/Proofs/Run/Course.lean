import Upkeep.Proofs.Run.Stages

/-!
# The course of a run

Every run takes one of four courses. It finds the lock taken and ends; it cannot open the lock and
closes without stages; it is not due and ends; or it goes through its stages and closes. Closing
is the same for both runs that do it: report, persist, reboot, let go of the lock.

What a run did is settled before it closes: closing leaves the deeds of its result alone, so
whatever is shown of them at the end of the stages is true of the result that is returned.

## Main definitions

* `Persisted`, `Rebooted`, `Released`, `Closing`: how a run closes.
* `Course`: how a run goes.

## Main results

* `Closing.deeds`: closing leaves the deeds alone.
* `course_of_leads`: every run takes one of the courses.
-/

namespace Upkeep

namespace Run

/-! ### How a run closes -/

/-- The ledger that is reported, once the time is known. -/
def announced (l : Ledger) (now : Answer Instant) : Ledger :=
  ((l.note [⟨.now, now⟩]).update fun r => { r with finishedAt := some now.value }).visit .emitting

/-- Whether a run that got so far records that it settled. -/
def settles (reached : Reached) (r : RunResult) : Bool := reached == .queried && !isUnsettled r

/-- Whether a run carries out a reboot. -/
def reboots (s : Settings) (r : RunResult) : Bool :=
  r.reboot.recommended && s.config.commands.triggerReboot && !isUnsettled r

/-- What persisting does to a ledger. -/
inductive Persisted (reached : Reached) (l : Ledger) : History → Ledger → Prop
  /-- There is nothing to record. -/
  | spared (open_ : settles reached l.result = false) : Persisted reached l [] l
  /-- The marker was written. -/
  | written (settled : settles reached l.result = true) (now : Answer Instant)
      (answer : Answer (Option String)) (success : answer.value = none) :
      Persisted reached l [⟨.now, now⟩, ⟨.writeMarker now.value, answer⟩]
        (((l.visit .persisting).note [⟨.now, now⟩]).note [⟨.writeMarker now.value, answer⟩])
  /-- The marker could not be written. -/
  | unwritten (settled : settles reached l.result = true) (now : Answer Instant)
      (answer : Answer (Option String)) {reason : String} (failure : answer.value = some reason) :
      Persisted reached l [⟨.now, now⟩, ⟨.writeMarker now.value, answer⟩]
        ((((l.visit .persisting).note [⟨.now, now⟩]).note
          [⟨.writeMarker now.value, answer⟩]).warn .persist .timestampPersistenceFailure reason)

/-- What rebooting does to a ledger. -/
inductive Rebooted (s : Settings) (l : Ledger) : History → Ledger → Prop
  /-- There is no reboot to carry out. -/
  | spared (quiet : reboots s l.result = false) : Rebooted s l [] l
  /-- The reboot was triggered. -/
  | triggered (due : reboots s l.result = true) (answer : Answer (Except String Unit))
      (success : answer.value = .ok ()) :
      Rebooted s l [⟨.reboot s.config.commands.rebootCommand, answer⟩]
        ((l.note [⟨.reboot s.config.commands.rebootCommand, answer⟩]).update fun r =>
          { r with reboot := { r.reboot with triggered := true } })
  /-- The reboot command failed. -/
  | failed (due : reboots s l.result = true) (answer : Answer (Except String Unit))
      {reason : String} (failure : answer.value = .error reason) :
      Rebooted s l [⟨.reboot s.config.commands.rebootCommand, answer⟩]
        ((l.note [⟨.reboot s.config.commands.rebootCommand, answer⟩]).warn .reboot .collaborator
          ("reboot command failed: " ++ reason))

/-- What a run does with the lock at its end. -/
def Released (locked : Bool) (h : History) : Prop :=
  if locked then ∃ answer, h = [⟨.releaseLock, answer⟩] else h = []

/-- Report, persist, reboot, let go of the lock, and end at the time of the report. -/
inductive Closing (s : Settings) (reached : Reached) (locked : Bool) (l : Ledger) :
    History → Record → Prop
  /-- One after the other. -/
  | intro (now : Answer Instant) {emission persistence reboot release : History}
      {summary : Emission.Summary} {l₁ l₂ : Ledger}
      (emitted : (Emission.report s.emitters (announced l now).result).Leads emission summary)
      (persisted : Persisted reached ((announced l now).update (warnUndelivered summary.failed))
        persistence l₁)
      (rebooted : Rebooted s l₁ reboot l₂) (released : Released locked release) :
      Closing s reached locked l
        (⟨.now, now⟩ :: (emission ++ (persistence ++ (reboot ++ release))))
        (finishAt (l₂.note release) now.value)

section

variable {s : Settings} {reached : Reached} {locked : Bool} {l l' : Ledger} {h : History}
  {record : Record}

theorem Persisted.deeds (hp : Persisted reached l h l') : l'.result.deeds = l.result.deeds := by
  cases hp with
  | spared _ => rfl
  | written _ now answer _ => rfl
  | unwritten _ now answer _ => rfl

theorem Persisted.finishedAt (hp : Persisted reached l h l') :
    l'.result.finishedAt = l.result.finishedAt := by
  cases hp with
  | spared _ => rfl
  | written _ now answer _ => rfl
  | unwritten _ now answer _ => rfl

theorem Persisted.keeps (hp : Persisted reached l h l') :
    ∀ e ∈ h, e.request.phase = .clock ∨ e.request.phase = .persist := by
  cases hp with
  | spared _ => simp
  | written _ _ _ _ | unwritten _ _ _ _ => simp [Request.phase]

theorem Persisted.during_eq_nil {phase : Phase} (hp : Persisted reached l h l')
    (hclock : phase ≠ .clock) (hpersist : phase ≠ .persist) : h.during phase = [] := by
  refine History.during_eq_nil fun e he hphase => ?_
  rcases hp.keeps e he with heq | heq
  · exact hclock (hphase.symm.trans heq)
  · exact hpersist (hphase.symm.trans heq)

/-- A run that settled tries to write the marker. -/
theorem Persisted.during_persist (hp : Persisted reached l h l')
    (settled : settles reached l.result = true) :
    ∃ (time : Instant) (answer : Answer (Option String)),
      h.during .persist = [⟨.writeMarker time, answer⟩] := by
  cases hp with
  | spared open_ =>
    rw [settled] at open_
    cases open_
  | written _ time answer _ | unwritten _ time answer _ => exact ⟨time.value, answer, rfl⟩

theorem Rebooted.deeds (hr : Rebooted s l h l') : l'.result.deeds = l.result.deeds := by
  cases hr with
  | spared _ => rfl
  | triggered _ answer _ => rfl
  | failed _ answer _ => rfl

theorem Rebooted.finishedAt (hr : Rebooted s l h l') :
    l'.result.finishedAt = l.result.finishedAt := by
  cases hr with
  | spared _ => rfl
  | triggered _ answer _ => rfl
  | failed _ answer _ => rfl

theorem Rebooted.keeps (hr : Rebooted s l h l') : ∀ e ∈ h, e.request.phase = .reboot := by
  cases hr with
  | spared _ => simp
  | triggered _ _ _ | failed _ _ _ => simp [Request.phase]

theorem Released.keeps (hr : Released locked h) : ∀ e ∈ h, e.request.phase = .lock := by
  cases locked with
  | true =>
    obtain ⟨answer, rfl⟩ := hr
    simp [Request.phase]
  | false =>
    obtain rfl := hr
    simp

/-- **Closing leaves alone what the run did.** -/
theorem Closing.deeds (hc : Closing s reached locked l h record) :
    record.result.deeds = l.result.deeds := by
  obtain ⟨now, -, persisted, rebooted, -⟩ := hc
  rename_i l₁ l₂
  calc (finishAt (l₂.note _) now.value).result.deeds = l₂.result.deeds := rfl
    _ = l₁.result.deeds := rebooted.deeds
    _ = _ := persisted.deeds
    _ = l.result.deeds := deeds_warnUndelivered _ _

/-- Closing asks for nothing that the stages ask for. -/
theorem Closing.keeps (hc : Closing s reached locked l h record) :
    ∀ e ∈ h, e.request.phase ∈ [Phase.clock, .report, .persist, .reboot, .lock] := by
  obtain ⟨now, emitted, persisted, rebooted, released⟩ := hc
  intro e he
  simp only [List.mem_cons, List.mem_append] at he
  rcases he with rfl | he | he | he | he
  · simp [Request.phase]
  · simp [emitted.begins.asks (keeps_report _ _) e he]
  · rcases persisted.keeps e he with heq | heq <;> simp [heq]
  · simp [rebooted.keeps e he]
  · simp [released.keeps e he]

theorem leads_letGo {time : Instant} (htime : l.result.finishedAt = some time)
    (hl : (letGo locked l).Leads h record) :
    Released locked h ∧ record = finishAt (l.note h) time := by
  have hfinish : ∀ l : Ledger, l.result.finishedAt = some time →
      finish l = .done (finishAt l time) := by
    intro l hl
    rw [finish, hl]
  rw [letGo] at hl
  cases locked with
  | true =>
    rw [if_pos rfl] at hl
    obtain ⟨answer, rest, rfl, hrest⟩ := Ledger.leads_call.mp hl
    rw [hfinish (l.note _) htime] at hrest
    obtain ⟨rfl, rfl⟩ := hrest
    exact ⟨⟨answer, rfl⟩, rfl⟩
  | false =>
    rw [if_neg Bool.false_ne_true, hfinish l htime] at hl
    obtain ⟨rfl, rfl⟩ := hl
    exact ⟨rfl, rfl⟩

theorem leads_triggerReboot {time : Instant} (htime : l.result.finishedAt = some time)
    (hl : (triggerReboot s locked l).Leads h record) :
    ∃ h₁ h₂ l₁, h = h₁ ++ h₂ ∧ Rebooted s l h₁ l₁ ∧ Released locked h₂ ∧
      record = finishAt (l₁.note h₂) time := by
  rw [triggerReboot, ← reboots] at hl
  cases hdue : reboots s l.result with
  | false =>
    rw [hdue, if_neg Bool.false_ne_true] at hl
    obtain ⟨hreleased, rfl⟩ := leads_letGo htime hl
    exact ⟨[], h, l, rfl, .spared hdue, hreleased, rfl⟩
  | true =>
    rw [hdue, if_pos rfl] at hl
    obtain ⟨answer, rest, rfl, hrest⟩ := Ledger.leads_call.mp hl
    cases hanswer : answer.value with
    | ok =>
      rw [hanswer] at hrest
      change (letGo locked (Ledger.update _ _)).Leads rest record at hrest
      obtain ⟨hreleased, rfl⟩ := leads_letGo (by exact htime) hrest
      exact ⟨[_], rest, _, rfl, .triggered hdue answer hanswer, hreleased, rfl⟩
    | error reason =>
      rw [hanswer] at hrest
      change (letGo locked (Ledger.warn _ _ _ _)).Leads rest record at hrest
      obtain ⟨hreleased, rfl⟩ := leads_letGo (by exact htime) hrest
      exact ⟨[_], rest, _, rfl, .failed hdue answer hanswer, hreleased, rfl⟩

theorem leads_persist {time : Instant} (htime : l.result.finishedAt = some time)
    (hl : (persist s reached locked l).Leads h record) :
    ∃ h₁ h₂ h₃ l₁ l₂, h = h₁ ++ (h₂ ++ h₃) ∧ Persisted reached l h₁ l₁ ∧ Rebooted s l₁ h₂ l₂ ∧
      Released locked h₃ ∧ record = finishAt (l₂.note h₃) time := by
  rw [persist, ← settles] at hl
  cases hsettles : settles reached l.result with
  | false =>
    rw [hsettles, if_neg Bool.false_ne_true] at hl
    obtain ⟨h₂, h₃, l₂, rfl, hrest⟩ := leads_triggerReboot htime hl
    exact ⟨[], h₂, h₃, l, l₂, rfl, .spared hsettles, hrest⟩
  | true =>
    rw [hsettles, if_pos rfl] at hl
    obtain ⟨now, rest, rfl, hrest⟩ := Ledger.leads_call.mp hl
    obtain ⟨answer, rest, rfl, hlater⟩ := Ledger.leads_call.mp hrest
    cases hanswer : answer.value with
    | none =>
      rw [hanswer] at hlater
      obtain ⟨h₂, h₃, l₂, rfl, hend⟩ := leads_triggerReboot (by exact htime) hlater
      exact ⟨[_, _], h₂, h₃, _, l₂, rfl, .written hsettles now answer hanswer, hend⟩
    | some reason =>
      rw [hanswer] at hlater
      change (triggerReboot s locked (Ledger.warn _ _ _ _)).Leads rest record at hlater
      obtain ⟨h₂, h₃, l₂, rfl, hend⟩ := leads_triggerReboot (by exact htime) hlater
      exact ⟨[_, _], h₂, h₃, _, l₂, rfl, .unwritten hsettles now answer hanswer, hend⟩

theorem closing_of_leads (hl : (emit s reached locked l).Leads h record) :
    Closing s reached locked l h record := by
  obtain ⟨now, rest, rfl, hrest⟩ := Ledger.leads_call.mp hl
  obtain ⟨emission, summary, rest, rfl, hemission, hrest⟩ := Program.leads_bind.mp hrest
  have htime : (warnUndelivered summary.failed (announced l now).result).finishedAt =
      some now.value := by
    rw [warnUndelivered_eq]
    rfl
  obtain ⟨h₁, h₂, h₃, l₁, l₂, rfl, hpersisted, hrebooted, hreleased, rfl⟩ :=
    leads_persist htime hrest
  exact .intro now hemission hpersisted hrebooted hreleased

theorem Released.leads {time : Instant} (htime : l.result.finishedAt = some time)
    (released : Released locked h) : (letGo locked l).Leads h (finishAt (l.note h) time) := by
  rw [letGo]
  cases locked with
  | true =>
    obtain ⟨answer, rfl⟩ := released
    rw [if_pos rfl]
    refine Ledger.leads_call.mpr ⟨answer, [], rfl, ?_⟩
    rw [finish, Ledger.result_note, htime]
    exact ⟨rfl, rfl⟩
  | false =>
    obtain rfl := released
    rw [if_neg Bool.false_ne_true, finish, htime]
    exact ⟨rfl, by simp [Ledger.note]⟩

theorem Rebooted.leads {h' : History} {l₁ : Ledger} {time : Instant}
    (htime : l.result.finishedAt = some time) (rebooted : Rebooted s l h l₁)
    (released : Released locked h') :
    (triggerReboot s locked l).Leads (h ++ h') (finishAt (l₁.note h') time) := by
  have htime₁ : l₁.result.finishedAt = some time := rebooted.finishedAt.trans htime
  rw [triggerReboot, ← reboots]
  cases rebooted with
  | spared quiet =>
    rw [quiet, if_neg Bool.false_ne_true]
    exact released.leads htime
  | triggered due answer success =>
    rw [due, if_pos rfl]
    refine Ledger.leads_call.mpr ⟨answer, h', rfl, ?_⟩
    rw [success]
    exact released.leads htime₁
  | failed due answer failure =>
    rw [due, if_pos rfl]
    refine Ledger.leads_call.mpr ⟨answer, h', rfl, ?_⟩
    rw [failure]
    exact released.leads htime₁

theorem Persisted.leads {h₂ h₃ : History} {l₁ l₂ : Ledger} {time : Instant}
    (htime : l.result.finishedAt = some time) (persisted : Persisted reached l h l₁)
    (rebooted : Rebooted s l₁ h₂ l₂) (released : Released locked h₃) :
    (persist s reached locked l).Leads (h ++ (h₂ ++ h₃)) (finishAt (l₂.note h₃) time) := by
  have hlater := rebooted.leads (persisted.finishedAt.trans htime) released
  rw [persist, ← settles]
  cases persisted with
  | spared open_ =>
    rw [open_, if_neg Bool.false_ne_true]
    exact hlater
  | written settled now answer success =>
    rw [settled, if_pos rfl]
    refine Ledger.leads_call.mpr ⟨now, _, rfl, Ledger.leads_call.mpr ⟨answer, _, rfl, ?_⟩⟩
    rw [success]
    exact hlater
  | unwritten settled now answer failure =>
    rw [settled, if_pos rfl]
    refine Ledger.leads_call.mpr ⟨now, _, rfl, Ledger.leads_call.mpr ⟨answer, _, rfl, ?_⟩⟩
    rw [failure]
    exact hlater

/-- Past its stages a run that was not skipped closes. -/
theorem conclude_eq_emit (l : Ledger) (hdue : reached ≠ .skipped) :
    conclude s (l, reached) = emit s reached true l := by
  cases reached with
  | skipped => exact absurd rfl hdue
  | stopped | queried => rfl

/-- **However a run can close, it may close.** -/
theorem Closing.leads (hc : Closing s reached locked l h record) :
    (emit s reached locked l).Leads h record := by
  obtain ⟨now, emitted, persisted, rebooted, released⟩ := hc
  refine Ledger.leads_call.mpr ⟨now, _, rfl, ?_⟩
  refine Program.leads_bind.mpr ⟨_, _, _, rfl, emitted, ?_⟩
  refine persisted.leads ?_ rebooted released
  rw [Ledger.result_update, warnUndelivered_eq]
  rfl

/-! ### How a run goes -/

/-- The ledger of a run that has asked for the time and for the lock. -/
def begun (s : Settings) (started : Answer Instant) (answer : Answer (Except LockError Unit)) :
    Ledger :=
  ((opening s started.value).note [⟨.now, started⟩]).note [⟨.acquireLock, answer⟩]

/-- What a run does once it has asked for the lock. -/
def entered (s : Settings) (l : Ledger) : Except LockError Unit → Program Record
  | .ok () => (gate s l).bind (conclude s)
  | .error (.alreadyRunning holder) =>
    finish (l.abort .lock .lockContention (LockError.alreadyRunning holder).message)
  | .error (.io path cause) =>
    emit s .stopped false (l.abort .lock .collaborator (LockError.io path cause).message)

/-- Every run first asks for the time and for the lock. -/
theorem leads_run : (run s).Leads h record ↔
    ∃ (started : Answer Instant) (answer : Answer (Except LockError Unit)) (rest : History),
      h = ⟨.now, started⟩ :: ⟨.acquireLock, answer⟩ :: rest ∧
        (entered s (begun s started answer) answer.value).Leads rest record := by
  have hopening : ∀ started : Answer Instant,
      { opening s started.value with cancelled := started.cancelled } =
        (opening s started.value).note [⟨.now, started⟩] := by
    intro started
    simp [Ledger.note, opening]
  constructor
  · rintro ⟨started, rest, rfl, hlock⟩
    dsimp only at hlock
    rw [hopening] at hlock
    obtain ⟨⟨value, waited, cancelled⟩, rest, rfl, hrest⟩ := Ledger.leads_call.mp hlock
    refine ⟨started, ⟨value, waited, cancelled⟩, rest, rfl, ?_⟩
    rcases value with (holder | ⟨path, cause⟩) | ⟨⟩
    · exact hrest
    · exact hrest
    · exact hrest
  · rintro ⟨started, ⟨value, waited, cancelled⟩, rest, rfl, hrest⟩
    refine ⟨started, _, rfl, ?_⟩
    dsimp only
    rw [hopening]
    refine Ledger.leads_call.mpr ⟨⟨value, waited, cancelled⟩, rest, rfl, ?_⟩
    rcases value with (holder | ⟨path, cause⟩) | ⟨⟩
    · exact hrest
    · exact hrest
    · exact hrest

/-- How a run goes. -/
inductive Course (s : Settings) : History → Record → Prop
  /-- Another run holds the lock. -/
  | contended (started : Answer Instant) (answer : Answer (Except LockError Unit))
      (finished : Answer Instant) {holder : Option Holder}
      (taken : answer.value = .error (.alreadyRunning holder)) :
      Course s [⟨.now, started⟩, ⟨.acquireLock, answer⟩, ⟨.now, finished⟩]
        (finishAt (((begun s started answer).abort .lock .lockContention
          (LockError.alreadyRunning holder).message).note [⟨.now, finished⟩]) finished.value)
  /-- The lock cannot be opened. -/
  | unopened (started : Answer Instant) (answer : Answer (Except LockError Unit)) {path : String}
      {cause : IoCause} {h : History} {record : Record}
      (failed : answer.value = .error (.io path cause))
      (closing : Closing s .stopped false ((begun s started answer).abort .lock .collaborator
        (LockError.io path cause).message) h record) :
      Course s (⟨.now, started⟩ :: ⟨.acquireLock, answer⟩ :: h) record
  /-- The run is not due. -/
  | skipped (started : Answer Instant) (answer : Answer (Except LockError Unit))
      (finished : Answer Instant) (release : Answer Unit) {h : History} {l : Ledger}
      (locked : answer.value = .ok ()) (trip : Trip s .gate (begun s started answer) h l .skipped) :
      Course s (⟨.now, started⟩ :: ⟨.acquireLock, answer⟩ ::
          (h ++ [⟨.now, finished⟩, ⟨.releaseLock, release⟩]))
        (finishAt (l.note [⟨.now, finished⟩]) finished.value)
  /-- The run goes through its stages. -/
  | staged (started : Answer Instant) (answer : Answer (Except LockError Unit)) {h h' : History}
      {l : Ledger} {reached : Reached} {record : Record} (locked : answer.value = .ok ())
      (trip : Trip s .gate (begun s started answer) h l reached) (due : reached ≠ .skipped)
      (closing : Closing s reached true l h' record) :
      Course s (⟨.now, started⟩ :: ⟨.acquireLock, answer⟩ :: (h ++ h')) record

theorem leads_finish (hopen : l.result.finishedAt = none) (hl : (finish l).Leads h record) :
    ∃ finished : Answer Instant, h = [⟨.now, finished⟩] ∧
      record = finishAt (l.note [⟨.now, finished⟩]) finished.value := by
  rw [finish, hopen] at hl
  obtain ⟨finished, rest, rfl, hend⟩ := Ledger.leads_call.mp hl
  obtain ⟨rfl, rfl⟩ := hend
  exact ⟨finished, rfl, rfl⟩

/-- **Every run takes one of the courses.** -/
theorem course_of_leads (hl : (run s).Leads h record) : Course s h record := by
  obtain ⟨started, answer, rest, rfl, hrest⟩ := leads_run.mp hl
  cases hanswer : answer.value with
  | ok =>
    rw [hanswer] at hrest
    obtain ⟨h₁, ⟨l, reached⟩, h₂, rfl, hgate, hend⟩ := Program.leads_bind.mp hrest
    have htrip := trip_of_leads hgate
    have hclosed : ∀ due : reached ≠ .skipped, (emit s reached true l).Leads h₂ record →
        Course s (⟨.now, started⟩ :: ⟨.acquireLock, answer⟩ :: (h₁ ++ h₂)) record :=
      fun due hend => .staged started answer hanswer htrip due (closing_of_leads hend)
    cases reached with
    | skipped =>
      obtain ⟨h₃, r, h₄, rfl, hfinish, release, rest, rfl, rfl, rfl⟩ := Program.leads_bind.mp hend
      have hopen : l.result.finishedAt = none := congrArg (·.2.1) htrip.frame
      obtain ⟨finished, rfl, rfl⟩ := leads_finish hopen hfinish
      exact .skipped started answer finished release hanswer htrip
    | stopped => exact hclosed (by decide) hend
    | queried => exact hclosed (by decide) hend
  | error e =>
    rw [hanswer] at hrest
    cases e with
    | alreadyRunning holder =>
      rw [entered] at hrest
      obtain ⟨finished, rfl, rfl⟩ := leads_finish rfl hrest
      exact .contended started answer finished hanswer
    | io path cause => exact .unopened started answer hanswer (closing_of_leads hrest)

/-- The mode of a result is the one that is set. -/
theorem Course.mode (hc : Course s h record) : record.result.mode = s.config.mode := by
  have htrip : ∀ {started : Answer Instant} {answer : Answer (Except LockError Unit)} {l : Ledger}
      {reached : Reached} {h : History}, Trip s .gate (begun s started answer) h l reached →
        l.result.mode = s.config.mode :=
    fun trip => congrArg (·.2.2.2) trip.frame
  have hclosing : ∀ {reached : Reached} {locked : Bool} {l : Ledger} {h : History},
      Closing s reached locked l h record → record.result.mode = l.result.mode := by
    intro reached locked l h closing
    show record.result.deeds.mode = _
    rw [closing.deeds]
    rfl
  cases hc with
  | contended started answer finished taken => rfl
  | unopened started answer failed closing => exact hclosing closing
  | skipped started answer finished release locked trip =>
    have hmode := htrip trip
    exact hmode
  | staged started answer locked trip due closing => exact (hclosing closing).trans (htrip trip)

end

/-! ### Runs that go smoothly -/

/-- What comes of a piece of work when all goes well: artifacts are where they should be, and each
has the digest `ab`. -/
def smoothWork : (job : Job) → job.Result
  | .fetch c dir _ => .inTime (.ok (Path.join dir c.artifactFileName))
  | .rest _ => ()
  | .digest .. => .ok "ab"
  | .discard _ => ()

/-- The first piece of work is done first. -/
def smoothLanding : (first : Nat × Job) → (rest : List (Nat × Job)) → Landing first rest
  | first, [] => smoothWork first.2
  | first, _ :: _ => .inl (smoothWork first.2)

/-- An answer that is there at once. -/
def atOnce {α : Type} (value : α) : Answer α := ⟨value, false, false⟩

/-- A world in which all goes well and some candidates are offered. -/
def smooth (offered : List Candidate) : World Unit
  | .now, s => (atOnce ⟨0, 0⟩, s)
  | .acquireLock, s => (atOnce (.ok ()), s)
  | .releaseLock, s => (atOnce (), s)
  | .readMarker, s => (atOnce none, s)
  | .writeMarker _, s => (atOnce none, s)
  | .sleepRandomly _, s => (atOnce (), s)
  | .lookForNetwork, s => (atOnce true, s)
  | .networkOverdue _, s => (atOnce false, s)
  | .sleepBetweenLooks, s => (atOnce (), s)
  | .listRepositories, s => (atOnce (.ok [⟨"updates", none⟩]), s)
  | .refresh .., s => (atOnce (.inTime (.ok ())), s)
  | .query .., s => (atOnce (.inTime (.ok offered)), s)
  | .begin _ job, s => (atOnce (some (smoothWork job)), s)
  | .await first rest, s => (atOnce (smoothLanding first rest), s)
  | .apply .., s => (atOnce (.inTime (.ok ())), s)
  | .rebootReason _, s => (atOnce (.ok none), s)
  | .reboot _, s => (atOnce (.ok ()), s)
  | .emit .., s => (atOnce (.inTime (.ok ())), s)
  | .clear _, s => (atOnce (.ok ()), s)

/-- Settings under which a run applies what it finds. -/
def applying : Settings where
  config := { commands := { applyUpdates := true } }
  hostName := "host"
  timer := false
  emitters := ⟨["stdio"], false, ⟨0⟩⟩
  patience := 1

/-- The ledger of a smooth run that considers candidates. -/
def considering (candidates : List Candidate) : Ledger :=
  ((((opening applying ⟨0, 0⟩).visit .intervalCheck).visit .refreshing).visit .querying).update
    fun r => { r with considered := candidates }

/-- What is left of a smooth run when candidates are selected, or none. -/
def fromQuery (s : Settings) (chosen : List Candidate) : Program Record :=
  (if chosen.isEmpty then
      .done (((((opening applying ⟨0, 0⟩).visit .intervalCheck).visit .refreshing).visit
        .querying |>.visit .upToDate).update fun r => { r with outcome := .upToDate }, .queried)
    else download s (considering chosen)).bind (conclude s)

/-- A candidate that a smooth world offers. -/
def bash : Candidate where
  name := "bash"
  arch := "x86_64"
  oldVersion := some "1.0-1"
  newVersion := "1.1-1"
  repo := "updates"
  advisory := none
  location := none
  checksum := some ⟨.sha256, "ab"⟩

end Run

end Upkeep
