import Upkeep.Proofs.Marker
import Upkeep.Proofs.Run.Logs

/-!
# Runs that are overtaken

A run goes by the time at which it started, and takes the lock only then. So while it is on its way
to the lock another run may write the marker, with a time that is later than the one it goes by.
Such a marker looks as if the clock had gone back, and a run is due then. That is the only way in
which a run passes the interval gate too early: if it is not overtaken, and passes, then the
interval has passed since the last marker was written.

## Main definitions

* `Traffic.Overtaken`: another run has written the marker meanwhile.

## Main results

* `Traffic.spaced`: a run that passes the gate too early was overtaken, and one that is overtaken
  passes.
* `Traffic.not_spaced`: it does happen.
-/

namespace Upkeep

namespace Traffic

variable {ι : Type} [DecidableEq ι] {site : Site} {settings : ι → Run.Settings} {t : Traffic ι}
  {before after : List (Entry ι)} {i : ι} {now m : Instant} {answer : Answer (Option Instant)}

/-- A run has asked for the time and not yet got the lock when the marker is written that it finds
later, and the time of that marker is later than the one that it has been told. -/
def Overtaken (log : List (Entry ι)) (i : ι) (m : Instant) : Prop :=
  ∃ (early late : List (Entry ι)) (started : Answer Instant), log = early ++ late ∧
    logged early i = [⟨.now, started⟩] ∧ (stamps early).getLast? = some m ∧ stamps late = [] ∧
      started.value.before m = true

/-! ### At the gate -/

/-- What is known of a run at the interval gate. -/
structure Gated (settings : ι → Run.Settings) (before : List (Entry ι)) (now : Instant)
    (i : ι) (answer : Answer (Option Instant)) (started : Answer Instant)
    (lock : Answer (Except LockError Unit)) : Prop where
  /-- The run has started and taken the lock. -/
  history : logged before i = [⟨.now, started⟩, ⟨.acquireLock, lock⟩]
  /-- It has the lock. -/
  locked : lock.value = .ok ()
  /-- The time at which it started has been told to it. -/
  told : ⟨started.value, i, ⟨.now, started⟩⟩ ∈ before
  /-- It is one that a clock shows, and so is the present. -/
  plain : started.value.Plain ∧ now.Plain
  /-- It is in the past. -/
  past : started.value.count ≤ now.count
  /-- The run passes if it is due. -/
  passes : Run.Passes (settings i) (logged before i ++ [⟨.readMarker, answer⟩]) ↔
    Marker.isDue answer.value started.value (settings i).config.minInterval = true

theorem exists_gated {t₁ : Traffic ι}
    (hm : Moment site settings before ⟨now, i, ⟨.readMarker, answer⟩⟩ t₁) :
    ∃ started lock, Gated settings before now i answer started lock := by
  obtain ⟨next, hleft⟩ := hm.asks
  have hafter := hm.reachable.inv.after i _ hleft
  rw [history, hm.log] at hafter
  obtain ⟨started, lock, hlogged, hlocked, hpasses⟩ := Run.passes_iff hafter answer
  have hfirst : ⟨.now, started⟩ ∈ logged before i := by simp [hlogged]
  obtain ⟨time, hmem⟩ := mem_logged.mp hfirst
  have hmem' := hm.log ▸ hmem
  obtain rfl := hm.reachable.value_now hmem'
  obtain ⟨hplain, hpast⟩ := hm.reachable.timely.past _ hmem'
  have htime : t₁.clock = now := hm.time
  refine ⟨started, lock, hlogged, hlocked, hmem, ⟨hplain, ?_⟩, ?_, hpasses⟩
  · exact htime ▸ hm.reachable.timely.plain
  · exact htime ▸ hpast

/-- While a run writes the marker no other run has the lock. -/
theorem not_hasLock_of_write {t₁ : Traffic ι} {early late : List (Entry ι)} {time : Instant} {j : ι}
    {written : Answer (Option String)} (h : t₁.Reachable site settings)
    (hlog : t₁.log = early ++ ⟨time, j, ⟨.writeMarker m, written⟩⟩ :: late)
    (hleft : t₁.left i ≠ none) (hne : i ≠ j) : ¬(logged early i).HasLock := by
  intro hlock
  obtain ⟨t₂, hm, hevolves⟩ := h.exists_moment hlog
  obtain ⟨self, identity, hwriter⟩ := hm.holding rfl
  rw [← hm.log] at hlock
  obtain ⟨self', identity', hmine⟩ := hm.reachable.inv.holds i (mt hevolves.left hleft) hlock
  refine hne (hm.reachable.contest.inv.unique ?_ ?_)
  · rw [hmine]
    rfl
  · rw [hwriter]
    rfl

/-- **A run that finds a later marker than it goes by was overtaken.** -/
theorem Gated.overtaken {t₁ : Traffic ι} {started : Answer Instant}
    {lock : Answer (Except LockError Unit)} (hg : Gated settings before now i answer started lock)
    (hm : Moment site settings before ⟨now, i, ⟨.readMarker, answer⟩⟩ t₁)
    (hlast : (stamps before).getLast? = some m) (hlater : started.value.before m = true) :
    Overtaken before i m := by
  obtain ⟨early, time, j, written, late, rfl, hvalue, hquiet⟩ := exists_of_stamps hlast
  obtain ⟨hplain, hdated⟩ := hm.reachable.dated hm.log
  have hcount := (Instant.before_iff hg.plain.1 hplain).mp hlater
  have hne : i ≠ j := by
    rintro rfl
    have hmem : ⟨.writeMarker m, written⟩ ∈ logged
        (early ++ ⟨time, i, ⟨.writeMarker m, written⟩⟩ :: late) i := mem_logged.mpr ⟨time, by simp⟩
    rw [hg.history] at hmem
    simp at hmem
  have hearly : logged (early ++ [⟨time, j, ⟨.writeMarker m, written⟩⟩]) i = logged early i := by
    simp [logged, hne.symm]
  have hsplit : logged early i ++ logged late i = [⟨.now, started⟩, ⟨.acquireLock, lock⟩] := by
    rw [← hg.history]
    simp [logged, hne.symm]
  refine ⟨early ++ [⟨time, j, ⟨.writeMarker m, written⟩⟩], late, started, by simp, ?_, ?_, hquiet,
    hlater⟩
  · rw [hearly]
    rcases List.append_eq_cons_iff.mp hsplit with ⟨-, hall⟩ | ⟨rest, hstarted, hrest⟩
    -- The run has started after that: then the marker is no later than its start.
    · have hfirst : ⟨.now, started⟩ ∈ logged late i := by simp [hall]
      obtain ⟨time', hmem⟩ := mem_logged.mp hfirst
      have hmem₁ : ⟨time', i, ⟨.now, started⟩⟩ ∈ t₁.log := by
        rw [hm.log]
        exact List.mem_append_right _ (List.mem_cons_of_mem _ hmem)
      have htold := hm.reachable.value_now hmem₁
      obtain ⟨between, rest, rfl⟩ := List.append_of_mem hmem
      have hlog : t₁.log = (early ++ ⟨time, j, ⟨.writeMarker m, written⟩⟩ :: between) ++
          ⟨time', i, ⟨.now, started⟩⟩ :: rest := hm.log.trans (by simp)
      have hle := hm.reachable.count_le hlog (List.mem_append_right _ List.mem_cons_self)
      rw [htold] at hcount
      dsimp only at hle
      omega
    -- The run has not got the lock by then, since the one that writes has it.
    · rcases List.append_eq_cons_iff.mp hrest.symm with ⟨rfl, -⟩ | ⟨rest', rfl, hrest'⟩
      · exact hstarted
      · obtain ⟨rfl, -⟩ := List.append_eq_nil_iff.mp hrest'.symm
        obtain ⟨next, hleft⟩ := hm.asks
        have hlock := not_hasLock_of_write hm.reachable hm.log (by simp [hleft]) hne
        rw [hstarted] at hlock
        exact absurd (Run.hasLock_start started hg.locked) hlock
  · rw [stamps_append]
    simp [stamps, Event.stamp?_eq_some.mpr ⟨written, hvalue, rfl⟩]

theorem Gated.later {started : Answer Instant} {lock : Answer (Except LockError Unit)}
    (hg : Gated settings before now i answer started lock) (h : Overtaken before i m) :
    started.value.before m = true := by
  obtain ⟨early, late, started', rfl, hearly, -, -, hlater⟩ := h
  have hfirst := hg.history
  rw [logged_append, hearly] at hfirst
  obtain ⟨rfl, -⟩ : started' = started ∧ _ := by simpa using hfirst
  exact hlater

/-! ### At the gate of a quiet site -/

theorem steady_here : here.Steady where
  apart := by decide
  serves := by
    rintro q fs answer fs' content rfl hread
    exact hread
  drifts := fun _ _ _ h => h.elim

/-- The times that a history was told. -/
def times (h : History) : List Instant :=
  h.filterMap fun
    | ⟨.now, answer⟩ => some answer.value
    | _ => none

/-- A run at the gate of a quiet site is about to read the marker there. -/
theorem moment_of_asked {t : Traffic Bool} {settings : Bool → Run.Settings} {i : Bool}
    (offered : List Candidate) (h : t.Reachable here settings)
    (hasked : (t.asked i).any (fun q => q.phase = .interval) = true) :
    Moment here settings t.log ⟨t.clock, i, ⟨.readMarker,
        Run.atOnce (Marker.read t.contest.lock.files here.markerPath)⟩⟩ t ∧
      (t.move here offered i).log = t.log ++ [⟨t.clock, i, ⟨.readMarker,
        Run.atOnce (Marker.read t.contest.lock.files here.markerPath)⟩⟩] := by
  obtain ⟨q, hq, hphase⟩ := (Option.any_eq_true _ _).mp hasked
  obtain ⟨next, hleft⟩ := exists_left_of_asked hq
  cases q with
  | readMarker =>
    refine ⟨⟨h, rfl, rfl, ⟨next, hleft⟩, fun _ => ⟨_, rfl, rfl⟩⟩, ?_⟩
    rw [move, hleft]
    rfl
  | _ => simp [Request.phase] at hphase

/-! ### How soon -/

/-- **A run that passes the gate too early was overtaken, and one that is overtaken passes.** -/
theorem spaced (steady : site.Steady) (h : t.Reachable site settings)
    (hlog : t.log = before ++ ⟨now, i, ⟨.readMarker, answer⟩⟩ :: after)
    (written : (stamps before).getLast? = some m)
    (positive : 0 < (settings i).config.minInterval.nanos) :
    (Run.Passes (settings i) (logged before i ++ [⟨.readMarker, answer⟩]) →
        ¬Overtaken before i m →
          ((settings i).config.minInterval.nanos : Int) ≤ now.nanosSince m) ∧
      (Overtaken before i m →
        Run.Passes (settings i) (logged before i ++ [⟨.readMarker, answer⟩])) := by
  obtain ⟨t₁, hm, -⟩ := h.exists_moment hlog
  obtain ⟨started, lock, hg⟩ := exists_gated hm
  obtain ⟨hstarted, hnow⟩ := hg.plain
  have hplain : m.Plain := by
    obtain ⟨early, time, j, answer', late, hsplit, -, -⟩ := exists_of_stamps written
    exact (hm.reachable.dated (hm.log.trans hsplit)).1
  have hread : answer.value = some m := by
    obtain ⟨fs, hvalue, -⟩ := hm.answers (by simp [Request.phase])
    have hmarker := hm.reachable.marked steady m (hm.log.symm ▸ written)
    exact hvalue.trans (Marker.read_content hplain.valid hmarker)
  rw [hg.passes, hread, Marker.isDue_iff hplain hstarted positive]
  constructor
  · rintro (hlater | hinterval) hovertaken
    · exact absurd (hg.overtaken hm written hlater) hovertaken
    · calc ((settings i).config.minInterval.nanos : Int) ≤ started.value.nanosSince m := hinterval
        _ = started.value.count - m.count := Instant.nanosSince_eq hstarted hplain
        _ ≤ now.count - m.count := Int.sub_le_sub_right hg.past _
        _ = now.nanosSince m := (Instant.nanosSince_eq hnow hplain).symm
  · exact fun hovertaken => Or.inl (hg.later hovertaken)

/-- Settings under which a second has to pass between runs. -/
def brisk : Run.Settings :=
  { Run.applying with config := { commands := { applyUpdates := true, minIntervalSecs := 1 } } }

/-- A run at the gate, a second after another one has written the marker. -/
def following : Traffic Bool :=
  (start (fun _ => brisk) ⟨0, 0⟩ Files.empty).play here [Run.bash]
    (.replicate 22 (some true) ++ none :: .replicate 7 (some false))

/-- It was not overtaken, and passes because that second has passed. -/
theorem spaced_following :
    Run.Passes brisk (logged following.log false ++ [⟨.readMarker, Run.atOnce (some ⟨0, 0⟩)⟩]) ∧
      (brisk.config.minInterval.nanos : Int) ≤ following.clock.nanosSince ⟨0, 0⟩ := by
  have hreachable : following.Reachable here fun _ => brisk :=
    reachable_play ⟨⟨0, 0⟩, Files.empty, ⟨by decide, by decide⟩, .refl⟩ _
  obtain ⟨hm, hlog⟩ := moment_of_asked [Run.bash] hreachable
    (show (following.asked false).any (fun q => q.phase = .interval) = true by decide +kernel)
  have hread : Marker.read following.contest.lock.files here.markerPath = some ⟨0, 0⟩ := by
    decide +kernel
  rw [hread] at hm hlog
  obtain ⟨started, lock, hg⟩ := exists_gated hm
  have hlast : (stamps following.log).getLast? = some ⟨0, 0⟩ := by decide +kernel
  have hstarted : times (logged following.log false) = [⟨1, 0⟩] := by decide +kernel
  obtain hstarted : started.value = ⟨1, 0⟩ := by simpa [hg.history, times] using hstarted
  have hpasses := hg.passes.mpr (by rw [hstarted]; decide)
  have hnot : ¬Overtaken following.log false ⟨0, 0⟩ := by
    intro hovertaken
    have hlater := hg.later hovertaken
    rw [hstarted] at hlater
    cases hlater
  exact ⟨hpasses, (spaced steady_here (hreachable.turn (some false)) hlog hlast
    (by decide)).1 hpasses hnot⟩

/-- A run on its way to the lock when another writes the marker. -/
def overtaking : Traffic Bool :=
  starting.play here [Run.bash]
    (some false :: none :: .replicate 22 (some true) ++ .replicate 6 (some false))

/-- Right after a run has written the marker another one passes the gate, and starts all over. -/
theorem not_spaced : ¬∀ (t : Traffic Bool) (before after : List (Entry Bool)) (now m : Instant)
    (i : Bool) (answer : Answer (Option Instant)),
    t.Reachable here (fun _ => Run.applying) →
    t.log = before ++ ⟨now, i, ⟨.readMarker, answer⟩⟩ :: after →
    (stamps before).getLast? = some m →
    Run.Passes Run.applying (logged before i ++ [⟨.readMarker, answer⟩]) →
      (Run.applying.config.minInterval.nanos : Int) ≤ now.nanosSince m := by
  intro hclaim
  have hreachable : overtaking.Reachable here fun _ => Run.applying :=
    reachable_play reachable_starting _
  obtain ⟨hm, hlog⟩ := moment_of_asked [Run.bash] hreachable
    (show (overtaking.asked false).any (fun q => q.phase = .interval) = true by decide +kernel)
  obtain ⟨started, lock, hg⟩ := exists_gated hm
  have hstarted : times (logged overtaking.log false) = [⟨0, 0⟩] := by decide +kernel
  have hread : Marker.read overtaking.contest.lock.files here.markerPath = some ⟨1, 0⟩ := by
    decide +kernel
  have hlast : (stamps overtaking.log).getLast? = some ⟨1, 0⟩ := by decide +kernel
  have hnow : overtaking.clock = ⟨1, 0⟩ := by decide +kernel
  obtain hstarted : started.value = ⟨0, 0⟩ := by simpa [hg.history, times] using hstarted
  have hpasses := hg.passes.mpr (by rw [hread, hstarted]; decide)
  have hgap := hclaim _ _ [] _ _ false _ (hreachable.turn (some false)) hlog hlast hpasses
  rw [hnow] at hgap
  revert hgap
  decide

end Traffic

end Upkeep
