import Upkeep.Proofs.Download.Storage
import Upkeep.Proofs.Instants
import Upkeep.Proofs.Lock.Frame
import Upkeep.Proofs.Run.Gate
import Upkeep.Proofs.Run.Notice
import Upkeep.Rehearsal.World

/-!
# Runs that do nothing

A run that finds the lock taken, and one that is not due, do nothing: they ask for the time, for
the lock and, if they got it, for the marker, and for nothing else. So they reach no package
manager, no host and no emitter, and no file changes but the lock file, into which a run that is
not due has written its name. It has let go of the lock when it ends.

Whatever a world does when it is asked for other things does not matter here. Of the world it is
only said that it keeps lock and marker in files, as the worlds of a live run and of a rehearsal
do (`Live.locks_answer`, `Rehearsal.locks_answer`).

## Main definitions

* `World.Locks`: a world that keeps lock and marker in files.
* `Run.Idle`: a run that asks for nothing that has an effect.

## Main results

* `Run.idle_leaves`: what a run does that finds the lock taken or is not due, and when it is not.
-/

namespace Upkeep

/-! ### Worlds with a lock and a marker -/

section

variable {σ : Type} {world : World σ}

/-- A world that keeps the lock and the marker in files. The state of the files and locks is part
of its state, and so is which file the run has locked, and who the run is. -/
structure World.Locks (world : World σ) (state : σ → Lock.State) (own : σ → Option Nat)
    (who : σ → Holder) (lockPath markerPath : String) : Prop where
  /-- The lock is taken, unless it is held. -/
  taken : ∀ s, state (world .acquireLock s).2 = (Lock.acquire (state s) lockPath (who s)).2
  /-- The answer says whether it was. -/
  told : ∀ s, (world .acquireLock s).1.value =
    (Lock.acquire (state s) lockPath (who s)).1.map fun _ => ()
  /-- The run keeps in mind which file it has locked. -/
  kept : ∀ s identity, (Lock.acquire (state s) lockPath (who s)).1 = .ok identity →
    own (world .acquireLock s).2 = some identity
  /-- It lets go of that file. -/
  released : ∀ s identity, own s = some identity →
    state (world .releaseLock s).2 = Lock.release (state s) identity
  /-- The marker is read. -/
  read : ∀ s, (world .readMarker s).1.value = Marker.read (state s).files markerPath
  /-- To look changes nothing. -/
  still : ∀ q s, q = .now ∨ q = .readMarker →
    state (world q s).2 = state s ∧ own (world q s).2 = own s

end

theorem Live.locks_answer (setup : Live.Setup) :
    (Live.answer setup).Locks (·.machine.lock) (·.own)
      (fun s => { setup.self with acquiredAt := s.time }) setup.lockPath setup.markerPath where
  taken s := by
    rw [answer, acquireLock]
    dsimp only
    split <;> rename_i heq <;> rw [heq] <;> rfl
  told s := by
    rw [answer, acquireLock]
    dsimp only
    split <;> rename_i heq <;> rw [heq] <;> rfl
  kept s identity h := by
    rw [answer, acquireLock]
    dsimp only
    split <;> rename_i heq <;> rw [heq] at h <;> cases h
    rfl
  released s identity h := by
    rw [answer, releaseLock, h]
    rfl
  read s := rfl
  still q s h := by
    rcases h with rfl | rfl <;> exact ⟨rfl, rfl⟩

theorem Rehearsal.locks_answer (script : Rehearsal.Script) (sites : Rehearsal.Sites) :
    (Rehearsal.answer script sites).Locks (·.lock) (·.own) (·.self) sites.lock sites.marker where
  taken s := by
    rw [answer, acquireLock]
    split <;> rename_i heq <;> rw [heq] <;> rfl
  told s := by
    rw [answer, acquireLock]
    split <;> rename_i heq <;> rw [heq] <;> rfl
  kept s identity h := by
    rw [answer, acquireLock]
    split <;> rename_i heq <;> rw [heq] at h <;> cases h
    rfl
  released s identity h := by
    rw [answer, releaseLock, h]
    rfl
  read s := rfl
  still q s h := by
    rcases h with rfl | rfl <;> exact ⟨rfl, rfl⟩

namespace Run

/-! ### What an idle run asks for -/

/-- The run asks for the time, the lock and the marker, and for nothing else. -/
def Idle (h : History) : Prop :=
  ∀ e ∈ h, e.request = .now ∨ e.request = .acquireLock ∨ e.request = .readMarker ∨
    e.request = .releaseLock

variable {s : Settings} {p : Spot} {l l' : Ledger} {h : History} {reached : Reached}
  {record : Record}

/-- Past the gate no run turns out not to be due. -/
theorem Trip.reached_ne (ht : Trip s p l h l' reached) (hgate : p ≠ .gate) :
    reached ≠ .skipped :=
  ht.preserves (fun _ p _ => p ≠ .gate) (fun _ _ reached => reached ≠ .skipped)
    (fun step _ => step.unskipped.1) (fun exit hp hskipped => hp (exit.eq_gate hskipped)) [] hgate

/-- The stages of a run that is not due are its look at the marker. -/
theorem Trip.not_due (ht : Trip s .gate l h l' reached) (hskipped : reached = .skipped) :
    ∃ answer, h = [⟨.readMarker, answer⟩] ∧
      Marker.isDue answer.value l.result.startedAt s.config.minInterval = false ∧
        l'.result = ({ l.result with outcome := .skipped } : RunResult).warn .intervalCheck
          .intervalNotElapsed (notDueReason answer.value) := by
  cases ht with
  | out exit =>
    cases exit with
    | interrupted watch broken => exact absurd hskipped (Spot.reached_watch? watch)
    | notDue answer due => exact ⟨answer, rfl, due, rfl⟩
  | on step rest => exact absurd hskipped (rest.reached_ne step.unskipped.1)

/-- A run that turned out to be due is not skipped. -/
theorem Trip.due (ht : Trip s .gate l h l' reached) (hdue : reached ≠ .skipped)
    (hopen : l.result.outcome ≠ .skipped) : l'.result.outcome ≠ .skipped := by
  cases ht with
  | out exit =>
    cases exit with
    | interrupted watch broken => cases watch
    | notDue answer due => exact absurd rfl hdue
  | on step rest => exact (rest.unskipped step.unskipped.1 (step.unskipped.2 hopen)).2

/-- A run that was skipped has asked for five things. -/
theorem skipped_of_leads (hl : (run s).Leads h record)
    (hskipped : record.result.outcome = .skipped) :
    ∃ (started : Answer Instant) (lock : Answer (Except LockError Unit))
      (marker : Answer (Option Instant)) (finished : Answer Instant) (release : Answer Unit),
      h = [⟨.now, started⟩, ⟨.acquireLock, lock⟩, ⟨.readMarker, marker⟩, ⟨.now, finished⟩,
        ⟨.releaseLock, release⟩] ∧
      lock.value = .ok () ∧
      record.result.failures = [] ∧
      record.result.warnings =
        [⟨.intervalCheck, none, .intervalNotElapsed, notDueReason marker.value⟩] := by
  cases course_of_leads hl with
  | contended started answer finished taken => cases hskipped
  | unopened started answer failed closing =>
    have houtcome := outcome_congr closing.deeds
    rw [hskipped] at houtcome
    cases houtcome
  | skipped started answer finished release locked trip =>
    obtain ⟨marker, rfl, -, hresult⟩ := trip.not_due rfl
    refine ⟨started, answer, marker, finished, release, rfl, locked, ?_, ?_⟩
    · exact congrArg RunResult.failures hresult
    · exact congrArg RunResult.warnings hresult
  | staged started answer locked trip due closing =>
    have hopen := trip.due due (by simp [begun, opening, RunResult.start])
    exact absurd ((outcome_congr closing.deeds).symm.trans hskipped) hopen

/-- A run that finds the lock taken asks for the time once more. -/
theorem contended_of_leads {started : Answer Instant} {lock : Answer (Except LockError Unit)}
    {holder : Option Holder} {rest : History}
    (hl : (run s).Leads (⟨.now, started⟩ :: ⟨.acquireLock, lock⟩ :: rest) record)
    (htaken : lock.value = .error (.alreadyRunning holder)) :
    ∃ finished : Answer Instant, rest = [⟨.now, finished⟩] ∧ record.result.outcome = .aborted ∧
      record.result.abortKind = some .lockContention := by
  obtain ⟨started', lock', rest', heq, hrest⟩ := leads_run.mp hl
  cases heq
  rw [htaken, entered] at hrest
  obtain ⟨finished, rfl, rfl⟩ := leads_finish rfl hrest
  exact ⟨finished, rfl, rfl, rfl⟩

/-- A run that takes the lock looks at the marker. -/
theorem exists_look {started : Answer Instant} {lock : Answer (Except LockError Unit)}
    {rest : History} (hl : (run s).Leads (⟨.now, started⟩ :: ⟨.acquireLock, lock⟩ :: rest) record)
    (hlock : lock.value = .ok ()) : ∃ marker rest', rest = ⟨.readMarker, marker⟩ :: rest' := by
  obtain ⟨started', lock', rest', heq, hrest⟩ := leads_run.mp hl
  cases heq
  rw [hlock, entered] at hrest
  obtain ⟨h₁, past, h₂, rfl, hgate, -⟩ := Program.leads_bind.mp hrest
  obtain ⟨marker, rest, rfl, -⟩ := Ledger.leads_call.mp hgate
  exact ⟨marker, rest ++ h₂, rfl⟩

/-- A run started when it first asked for the time. -/
theorem startedAt_of_leads {started : Answer Instant}
    (hl : (run s).Leads (⟨.now, started⟩ :: h) record) :
    record.result.startedAt = started.value := by
  have hcourse := course_of_leads hl
  generalize hh : ⟨.now, started⟩ :: h = h' at hcourse
  cases hcourse with
  | contended started answer finished taken =>
    cases hh
    rfl
  | unopened started answer failed closing =>
    cases hh
    have hdeeds := congrArg RunResult.startedAt closing.deeds
    exact hdeeds
  | skipped started answer finished release locked trip =>
    cases hh
    have hframe := congrArg (·.1) trip.frame
    exact hframe
  | staged started answer locked trip due closing =>
    cases hh
    have hframe := congrArg (·.1) trip.frame
    exact (congrArg RunResult.startedAt closing.deeds).trans hframe

/-! ### What an idle run leaves -/

/-- The locks are those that were held before, and no file has changed but the lock file. -/
structure Untouched (lockPath : String) (before after : Lock.State) : Prop where
  /-- What was locked is locked. -/
  held : after.held = before.held
  /-- No other file changed, came or went. -/
  files : before.files.Leaves [Path.place lockPath] after.files

section

variable {σ : Type} {world : World σ} {state : σ → Lock.State} {own : σ → Option Nat}
  {who : σ → Holder} {lockPath markerPath : String}

/-- Every run begins with the time and with the lock, and is answered by the world. -/
theorem exists_entry (world : World σ) (s : Settings) (start : σ) : ∃ rest,
    (run s).history world start = ⟨.now, (world .now start).1⟩ ::
      ⟨.acquireLock, (world .acquireLock (world .now start).2).1⟩ :: rest ∧
    world.Gives rest (world .acquireLock (world .now start).2).2 := by
  obtain ⟨started, lock, rest, heq, -⟩ := leads_run.mp (Program.leads_history world (run s) start)
  have hgives := Program.gives_history world (run s) start
  rw [heq] at hgives
  obtain ⟨hstarted, hlock, hrest⟩ := hgives
  obtain rfl : started = (world .now start).1 := hstarted
  obtain rfl : lock = (world .acquireLock (world .now start).2).1 := hlock
  exact ⟨rest, heq, hrest⟩

/-- A run that finds the lock taken leaves it so. -/
theorem untouched_of_taken (locks : world.Locks state own who lockPath markerPath) (s : Settings)
    (start : σ) {holder : Option Holder}
    (htaken : (Lock.acquire (state start) lockPath (who (world .now start).2)).1 =
      .error (.alreadyRunning holder)) :
    Idle ((run s).history world start) ∧
      ((run s).run world start).1.result.outcome = .aborted ∧
      ((run s).run world start).1.result.abortKind = some .lockContention ∧
      Untouched lockPath (state start) (state ((run s).run world start).2) ∧
      ∀ content, (state start).files.held? lockPath = some content →
        (state ((run s).run world start).2).files.held? lockPath = some content := by
  obtain ⟨rest, hhistory, -⟩ := exists_entry world s start
  have hasked := (locks.still .now start (Or.inl rfl)).1
  have hl := Program.leads_history world (run s) start
  rw [hhistory] at hl
  have hvalue : (world .acquireLock (world .now start).2).1.value =
      .error (.alreadyRunning holder) := by
    rw [locks.told, hasked, htaken]
    rfl
  obtain ⟨finished, rfl, houtcome, hkind⟩ := contended_of_leads hl hvalue
  have hafter : state ((run s).run world start).2 =
      (Lock.acquire (state start) lockPath (who (world .now start).2)).2 := by
    rw [Program.run_eq_after, hhistory]
    show state (world .now (world .acquireLock (world .now start).2).2).2 = _
    rw [(locks.still .now _ (Or.inl rfl)).1, locks.taken, hasked]
  obtain ⟨hheld, hcontent⟩ := Lock.spared_of_taken htaken
  rw [hafter, hhistory]
  exact ⟨by simp [Idle], houtcome, hkind,
    ⟨hheld, Lock.leaves_acquire (state start) lockPath _⟩, hcontent⟩

/-- **When a run is skipped**: when it has taken the lock, and is not due by the marker that it
finds then. -/
theorem skipped_iff (locks : world.Locks state own who lockPath markerPath) (s : Settings)
    (start : σ) : ((run s).run world start).1.result.outcome = .skipped ↔
      (∃ identity, (Lock.acquire (state start) lockPath (who (world .now start).2)).1 =
        .ok identity) ∧
      Marker.isDue (Marker.read (Lock.acquire (state start) lockPath
        (who (world .now start).2)).2.files markerPath) (world .now start).1.value
          s.config.minInterval = false := by
  obtain ⟨rest, hhistory, hgives⟩ := exists_entry world s start
  have hasked := (locks.still .now start (Or.inl rfl)).1
  have hl := Program.leads_history world (run s) start
  rw [hhistory] at hl
  have htold := locks.told (world .now start).2
  rw [hasked] at htold
  cases hacquire : (Lock.acquire (state start) lockPath (who (world .now start).2)).1 with
  | error e =>
    rw [hacquire] at htold
    refine ⟨fun hskipped => ?_, by simp⟩
    obtain ⟨started, lock, marker, finished, release, heq, hlock, -⟩ :=
      skipped_of_leads hl hskipped
    cases heq
    cases hlock.symm.trans htold
  | ok identity =>
    rw [hacquire] at htold
    obtain ⟨marker, rest, rfl⟩ := exists_look hl htold
    have hmarker : marker = (world .readMarker (world .acquireLock (world .now start).2).2).1 :=
      hgives.1
    have hsplit : (run s).Leads ([⟨.now, (world .now start).1⟩,
        ⟨.acquireLock, (world .acquireLock (world .now start).2).1⟩] ++
          ⟨.readMarker, marker⟩ :: rest) ((run s).run world start).1 := hl
    obtain ⟨started, lock, heq, -, hiff⟩ := gated_of_leads hsplit
    cases heq
    rw [hiff, hmarker, locks.read, locks.taken, hasked]
    exact ⟨fun hshut => ⟨⟨identity, rfl⟩, hshut⟩, fun h => h.2⟩

/-- What is left when the lock was taken, the marker looked at and the lock let go of. -/
theorem state_of_passing (locks : world.Locks state own who lockPath markerPath) {start : σ}
    {identity : Nat} (hacquire : (Lock.acquire (state start) lockPath
      (who (world .now start).2)).1 = .ok identity) (started finished : Answer Instant)
    (lock : Answer (Except LockError Unit)) (marker : Answer (Option Instant))
    (release : Answer Unit) :
    state (world.after [⟨.now, started⟩, ⟨.acquireLock, lock⟩, ⟨.readMarker, marker⟩,
      ⟨.now, finished⟩, ⟨.releaseLock, release⟩] start) =
        Lock.release (Lock.acquire (state start) lockPath (who (world .now start).2)).2
          identity := by
  have hasked := (locks.still .now start (Or.inl rfl)).1
  have hkept : own (world .acquireLock (world .now start).2).2 = some identity :=
    locks.kept _ identity (by rw [hasked, hacquire])
  have hown : own (world .now (world .readMarker
      (world .acquireLock (world .now start).2).2).2).2 = some identity := by
    rw [(locks.still .now _ (Or.inl rfl)).2, (locks.still .readMarker _ (Or.inr rfl)).2, hkept]
  show state (world .releaseLock (world .now (world .readMarker
    (world .acquireLock (world .now start).2).2).2).2).2 = _
  rw [locks.released _ identity hown, (locks.still .now _ (Or.inl rfl)).1,
    (locks.still .readMarker _ (Or.inr rfl)).1, locks.taken, hasked]

/-- A run that is skipped leaves the lock as it was, and the marker. -/
theorem untouched_of_skipped (locks : world.Locks state own who lockPath markerPath)
    (s : Settings) (start : σ)
    (hskipped : ((run s).run world start).1.result.outcome = .skipped) :
    Idle ((run s).history world start) ∧
      ((run s).run world start).1.result.failures = [] ∧
      (∃ reason, ((run s).run world start).1.result.warnings =
        [⟨.intervalCheck, none, .intervalNotElapsed, reason⟩]) ∧
      Untouched lockPath (state start) (state ((run s).run world start).2) ∧
      (state ((run s).run world start).2).files.held? markerPath =
        (state start).files.held? markerPath := by
  obtain ⟨⟨identity, hacquire⟩, hshut⟩ := (skipped_iff locks s start).mp hskipped
  obtain ⟨started, lock, marker, finished, release, hhistory, -, hfailures, hwarnings⟩ :=
    skipped_of_leads (Program.leads_history world (run s) start) hskipped
  obtain ⟨hheld, hrecord⟩ := Lock.acquired hacquire
  have hafter := state_of_passing locks hacquire started finished lock marker release
  rw [← hhistory, ← Program.run_eq_after] at hafter
  have huntouched : Untouched lockPath (state start) (state ((run s).run world start).2) := by
    have hleaves := Lock.leaves_acquire (state start) lockPath (who (world .now start).2)
    rw [hafter, Lock.release]
    exact ⟨by rw [hheld, List.erase_cons_head], hleaves⟩
  have hapart : Path.place markerPath ∉ [Path.place lockPath] := by
    rw [List.mem_singleton]
    cases hread : Marker.read (Lock.acquire (state start) lockPath
        (who (world .now start).2)).2.files markerPath with
    | none =>
      rw [hread] at hshut
      cases hshut
    | some m => exact Lock.marker_apart hrecord hread
  exact ⟨by simp [hhistory, Idle], hfailures, ⟨_, hwarnings⟩, huntouched,
    huntouched.files.held? hapart⟩

theorem exitCode_of_contended {r : RunResult} (houtcome : r.outcome = .aborted)
    (hkind : r.abortKind = some .lockContention) : r.exitCode = 75 := by
  rw [RunResult.exitCode, houtcome, hkind]

theorem exitCode_of_skipped {r : RunResult} (houtcome : r.outcome = .skipped) :
    r.exitCode = 0 := by
  rw [RunResult.exitCode, houtcome]

/-- **A run that finds the lock taken, and one that is not due, has no effect.** It asks for
nothing but the time, the lock and the marker, and leaves all files and locks alone, except that a
run that is not due has written its name into the lock file. A run is not due if and only if it
could take the lock and found a marker of a time since which, when it started, less than the
interval had passed. -/
theorem idle_leaves (locks : world.Locks state own who lockPath markerPath) (s : Settings)
    (start : σ) :
    let h := (run s).history world start
    let r := ((run s).run world start).1.result
    let before := state start
    let after := state ((run s).run world start).2
    let taking := Lock.acquire before lockPath (who (world .now start).2)
    (∀ holder, taking.1 = .error (.alreadyRunning holder) →
      Idle h ∧ r.outcome = .aborted ∧ r.abortKind = some .lockContention ∧ r.exitCode = 75 ∧
        Untouched lockPath before after ∧
        ∀ content, before.files.held? lockPath = some content →
          after.files.held? lockPath = some content) ∧
    (r.outcome = .skipped →
      Idle h ∧ r.failures = [] ∧
        (∃ reason, r.warnings = [⟨.intervalCheck, none, .intervalNotElapsed, reason⟩]) ∧
        r.exitCode = 0 ∧ Untouched lockPath before after ∧
        after.files.held? markerPath = before.files.held? markerPath) ∧
    (r.startedAt.fraction < 1000000000 →
      (∀ m ∈ Marker.read taking.2.files markerPath, m.fraction < 1000000000) →
      (r.outcome = .skipped ↔ (∃ identity, taking.1 = .ok identity) ∧
        ∃ m, Marker.read taking.2.files markerPath = some m ∧ 0 < s.config.minInterval.nanos ∧
          m.count ≤ r.startedAt.count ∧
          r.startedAt.count - m.count < s.config.minInterval.nanos)) := by
  intro h r before after taking
  refine ⟨fun holder htaken => ?_, fun hskipped => ?_, fun hstarted hmarker => ?_⟩
  · obtain ⟨hidle, houtcome, hkind, huntouched, hcontent⟩ := untouched_of_taken locks s start htaken
    exact ⟨hidle, houtcome, hkind, exitCode_of_contended houtcome hkind, huntouched, hcontent⟩
  · obtain ⟨hidle, hfailures, hwarnings, huntouched, hsame⟩ :=
      untouched_of_skipped locks s start hskipped
    exact ⟨hidle, hfailures, hwarnings, exitCode_of_skipped hskipped, huntouched, hsame⟩
  · obtain ⟨rest, hhistory, -⟩ := exists_entry world s start
    have hl := Program.leads_history world (run s) start
    rw [hhistory] at hl
    have htime : r.startedAt = (world .now start).1.value := startedAt_of_leads hl
    rw [show r.outcome = .skipped ↔ _ from skipped_iff locks s start, ← htime,
      Marker.not_due_iff hstarted hmarker]

end

/-! ### Idle runs of a rehearsal and on a machine -/

/-- Where the lock and the marker of a rehearsal are. -/
def sites : Rehearsal.Sites := ⟨"run.lock", "last_run.json"⟩

/-- A rehearsal that has not begun. -/
def unstarted (lock : Lock.State) : Rehearsal.State where
  clock := 0
  time := ⟨0, 0⟩
  self := ⟨1, "host", ⟨0, 0⟩⟩
  lock := lock
  own := none
  cancelled := false
  events := []
  pending := []
  mostFetches := 0

/-- Someone else holds the lock. -/
def occupied : Lock.State :=
  ⟨Files.empty.addFile ["run.lock"] ByteArray.empty, [Files.empty.nextIdentity]⟩

/-- A run has just settled. -/
def fresh : Lock.State := ⟨(Marker.write Files.empty "last_run.json" ⟨0, 0⟩).1, []⟩

/-- A machine on which a run has just settled. -/
def marked : Live.State where
  machine := .start (Marker.write Files.empty "/last_run.json" ⟨0, 0⟩).1
  started := ⟨0, 0⟩

/-- A rehearsal finds the lock taken; another one is not due, nor is a run on a machine, and neither
holds the lock at its end. -/
theorem idle_leaves_rehearsed :
    ((run applying).run (Rehearsal.answer {} sites) (unstarted occupied)).1.result.exitCode = 75 ∧
      ((run applying).run (Rehearsal.answer {} sites) (unstarted fresh)).2.lock.held = [] ∧
      0 < applying.config.minInterval.nanos ∧
      ((run applying).run (Live.answer Download.offline) marked).1.result.exitCode = 0 ∧
      ((run applying).run (Live.answer Download.offline) marked).2.machine.lock.held = [] := by
  have hcontended := (idle_leaves (Rehearsal.locks_answer {} sites) applying
    (unstarted occupied)).1 none (by decide +kernel)
  obtain ⟨-, hskipped, hiff⟩ := idle_leaves (Rehearsal.locks_answer {} sites) applying
    (unstarted fresh)
  have hfresh : ((run applying).run (Rehearsal.answer {} sites)
      (unstarted fresh)).1.result.outcome = .skipped := by decide +kernel
  obtain ⟨-, m, -, hpositive, -⟩ := (hiff (by decide +kernel) (by decide +kernel)).mp hfresh
  have hlive := (idle_leaves (Live.locks_answer Download.offline) applying marked).2.1
    (by decide +kernel)
  exact ⟨hcontended.2.2.2.1, (hskipped hfresh).2.2.2.2.1.held, hpositive, hlive.2.2.2.1,
    hlive.2.2.2.2.1.held⟩

end Run

end Upkeep
