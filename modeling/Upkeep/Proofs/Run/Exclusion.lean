import Upkeep.Proofs.Run.Series
import Upkeep.Proofs.Run.Traffic

/-!
# One run at a time

What the lock is worth to runs side by side. Whatever a run does among its stages and after them,
except for reporting, it does while it holds the lock, and by then no other run does. A run that is
over holds nothing.

To see runs side by side at work there is a schedule: whose turn it is, or that a second passes. On
a quiet site all goes well for all of them, and every schedule leads somewhere that can come to be.

## Main definitions

* `Traffic.Orderly`: what runs side by side do only when they hold the lock.
* `Site.quiet`, `Traffic.play`: runs side by side, by a schedule.

## Main results

* `Traffic.exclusive`: what the lock is worth, and to whom.
* `Traffic.reachable_play`: what a schedule leads to can come to be.
-/

namespace Upkeep

open Lock (Contest)

namespace Traffic

variable {ι : Type}

/-- What a run asks for next. -/
def asked (t : Traffic ι) (i : ι) : Option Request :=
  match t.left i with
  | some (.ask q _) => some q
  | _ => none

/-- What a run has come to, once it is over. -/
def record? (t : Traffic ι) (i : ι) : Option Run.Record :=
  match t.left i with
  | some (.done record) => some record
  | _ => none

theorem exists_left_of_asked {t : Traffic ι} {i : ι} {q : Request} (h : t.asked i = some q) :
    ∃ next, t.left i = some (.ask q next) := by
  rw [asked] at h
  split at h
  · rename_i q' next hleft
    cases h
    exact ⟨next, hleft⟩
  · cases h

theorem left_of_record? {t : Traffic ι} {i : ι} {record : Run.Record}
    (h : t.record? i = some record) : t.left i = some (.done record) := by
  rw [record?] at h
  split at h
  · cases h
    assumption
  · cases h

/-- What runs side by side do only when they hold the lock. -/
structure Orderly (t : Traffic ι) : Prop where
  /-- Whoever needs the lock holds it. -/
  needs : ∀ i q, t.asked i = some q → q.needsLock = true →
    ∃ self identity, t.contest.party i = .holding self identity
  /-- Whoever lets go of the lock holds it until then. -/
  lets : ∀ i, t.asked i = some .releaseLock →
    ∃ self identity, t.contest.party i = .holding self identity
  /-- Whoever is over holds nothing. -/
  ends : ∀ i record, t.record? i = some record → (t.contest.party i).isLive = false

variable [DecidableEq ι] {settings : ι → Run.Settings} {t : Traffic ι}

theorem Inv.orderly (inv : t.Inv settings) : t.Orderly where
  needs := by
    intro i q hasked hneeds
    obtain ⟨next, hleft⟩ := exists_left_of_asked hasked
    have htied := Run.tied_of_after (inv.after i _ hleft) (Run.smooth [] q ()).1
    exact inv.holds i (by simp [hleft]) (htied.needs hneeds)
  lets := by
    intro i hasked
    obtain ⟨next, hleft⟩ := exists_left_of_asked hasked
    have htied := Run.tied_of_after (inv.after i _ hleft) (Run.smooth [] .releaseLock ()).1
    exact inv.holds i (by simp [hleft]) (htied.last rfl)
  ends := by
    intro i record hrecord
    have hleft := left_of_record? hrecord
    cases hparty : t.contest.party i with
    | idle | refused e => rfl
    | trying self attempt =>
      obtain ⟨next, hasks⟩ := inv.trying i self attempt hparty
      cases hleft.symm.trans hasks
    | holding self identity =>
      exact absurd (inv.held i self identity hparty).2
        (Run.not_hasLock_of_after (inv.after i _ hleft))

end Traffic

/-! ### Schedules -/

/-- A site where only runs change files, and none of them any but the marker and the lock file. -/
def Site.quiet (lockPath markerPath : String)
    (hsibling : Path.place lockPath ≠ Path.place (Path.temporary markerPath))
    (hmarker : Path.place lockPath ≠ Path.place markerPath) : Site where
  lockPath := lockPath
  markerPath := markerPath
  serves := fun _ fs _ fs' => fs' = fs
  drifts := fun _ _ => False
  serves_spares := by
    rintro q fs answer fs' rfl
    exact .refl _ _
  writes_spares := fun fs time => Files.spares_publication fs (Marker.content time) hsibling hmarker
  drifts_spares := fun _ _ h => h.elim

namespace Traffic

variable {ι : Type} [DecidableEq ι]

/-- How a request that is not about the lock is answered at a time when all goes well. -/
def well (markerPath : String) (offered : List Candidate) (clock : Instant) : World Files
  | .now, fs => (Run.atOnce clock, fs)
  | q, fs => Run.storing markerPath offered q fs

/-- The next that a run does when all goes well. -/
def move (site : Site) (offered : List Candidate) (t : Traffic ι) (i : ι) : Traffic ι :=
  match t.left i with
  | some (.ask .acquireLock next) =>
    match t.contest.party i with
    | .idle | .refused _ =>
      { t with
        contest := t.contest.turn i (.trying ⟨0, "host", t.clock⟩ .preparing) t.contest.lock }
    | .holding _ _ => t
    | .trying self attempt =>
      match ((t.advanced site.lockPath i self attempt).party i).result? with
      | none => { t with contest := t.advanced site.lockPath i self attempt }
      | some result =>
        t.answered i .acquireLock (Run.atOnce result) next (t.advanced site.lockPath i self attempt)
  | some (.ask .releaseLock next) =>
    match t.contest.party i with
    | .holding _ identity =>
      t.answered i .releaseLock (Run.atOnce ()) next
        (t.contest.turn i .idle (Lock.release t.contest.lock identity))
    | _ => t
  | some (.ask q next) =>
    t.answered i q (well site.markerPath offered t.clock q t.contest.lock.files).1 next
      { t.contest with lock := { t.contest.lock with
        files := (well site.markerPath offered t.clock q t.contest.lock.files).2 } }
  | _ => t

/-- It is the turn of a run, or a second passes, unless dates have come to an end. -/
def turn (site : Site) (offered : List Candidate) (t : Traffic ι) : Option ι → Traffic ι
  | some i => t.move site offered i
  | none =>
    let clock : Instant := ⟨t.clock.second + 1, 0⟩
    if Instant.yearInRange (Instant.dateOfDay clock.day).1 then { t with clock := clock } else t

/-- One turn after the other. -/
def play (site : Site) (offered : List Candidate) (t : Traffic ι) (schedule : List (Option ι)) :
    Traffic ι :=
  schedule.foldl (turn site offered) t

section

variable {lockPath markerPath : String}
  {hsibling : Path.place lockPath ≠ Path.place (Path.temporary markerPath)}
  {hmarker : Path.place lockPath ≠ Path.place markerPath}
  {settings : ι → Run.Settings} {offered : List Candidate} {t : Traffic ι}

theorem answers_well {q : Request} {fs : Files} {clock : Instant} (hacquire : q ≠ .acquireLock)
    (hrelease : q ≠ .releaseLock) :
    (Site.quiet lockPath markerPath hsibling hmarker).Answers clock q fs
      (well markerPath offered clock q fs).1 (well markerPath offered clock q fs).2 := by
  cases q with
  | acquireLock => exact absurd rfl hacquire
  | releaseLock => exact absurd rfl hrelease
  | now | readMarker => exact ⟨rfl, rfl⟩
  | writeMarker time => exact ⟨Option.map_eq_none_iff, rfl⟩
  | _ => exact rfl

theorem step_move (t : Traffic ι) (i : ι) :
    t.move (.quiet lockPath markerPath hsibling hmarker) offered i = t ∨
      Step (.quiet lockPath markerPath hsibling hmarker) t
        (t.move (.quiet lockPath markerPath hsibling hmarker) offered i) := by
  rw [move]
  split
  · rename_i next hleft
    split
    · rename_i hparty
      exact Or.inr (.begins i _ hleft (by rw [hparty]; rfl))
    · rename_i e hparty
      exact Or.inr (.begins i _ hleft (by rw [hparty]; rfl))
    · exact Or.inl rfl
    · rename_i self attempt hparty
      split
      · rename_i hresult
        exact Or.inr (.advances i hparty hresult)
      · rename_i result hresult
        exact Or.inr (.enters i hleft hparty _ hresult)
  · rename_i next hleft
    split
    · rename_i self identity hparty
      exact Or.inr (.releases i hleft hparty _)
    · exact Or.inl rfl
  · rename_i q next hacquire hrelease hleft
    refine Or.inr (.answers i hleft _ _ (answers_well ?_ ?_))
    · rintro rfl
      exact hacquire next rfl HEq.rfl
    · rintro rfl
      exact hrelease next rfl HEq.rfl
  · exact Or.inl rfl

theorem Reachable.turn (h : t.Reachable (.quiet lockPath markerPath hsibling hmarker) settings)
    (who : Option ι) : (t.turn (.quiet lockPath markerPath hsibling hmarker) offered who).Reachable
      (.quiet lockPath markerPath hsibling hmarker) settings := by
  cases who with
  | none =>
    have hlater : Instant.before ⟨t.clock.second + 1, 0⟩ t.clock = false := by
      rw [Instant.before, Bool.or_eq_false_iff, decide_eq_false_iff_not, Bool.and_eq_false_iff,
        beq_eq_false_iff_ne]
      exact ⟨by dsimp only; omega, Or.inl (by dsimp only; omega)⟩
    rw [Traffic.turn]
    split
    · next hyear => exact h.step (.ticks _ hlater ⟨Nat.zero_lt_succ _, hyear⟩)
    · exact h
  | some i =>
    rcases step_move t i with heq | hstep
    · rw [Traffic.turn, heq]
      exact h
    · exact h.step hstep

/-- **What a schedule leads to can come to be.** -/
theorem reachable_play (h : t.Reachable (.quiet lockPath markerPath hsibling hmarker) settings)
    (schedule : List (Option ι)) :
    (t.play (.quiet lockPath markerPath hsibling hmarker) offered schedule).Reachable
      (.quiet lockPath markerPath hsibling hmarker) settings := by
  induction schedule generalizing t with
  | nil => exact h
  | cons who schedule ih => exact ih (h.turn who)

end

/-- A quiet site. -/
def here : Site := .quiet "lock" "last_run.json" (by decide) (by decide)

/-- Runs that start there, to apply what they find. -/
def starting : Traffic Bool := start (fun _ => Run.applying) ⟨0, 0⟩ Files.empty

theorem reachable_starting : starting.Reachable here fun _ => Run.applying :=
  ⟨⟨0, 0⟩, Files.empty, ⟨by decide, by decide⟩, .refl⟩

/-! ### The lock -/

/-- **What the lock is worth, and to whom.** At every moment of a contest at most one party has the
lock, whoever tries to take it gets it exactly when nobody has it, and what the lock file says is
what it should say. Runs side by side are such a contest, in which a run does what needs the lock
while it holds it, and holds nothing once it is over. -/
theorem exclusive (path : String) (site : Site) (settings : ι → Run.Settings) :
    (∀ c : Contest ι, c.Reachable path → c.Sound path) ∧
      ∀ t : Traffic ι, t.Reachable site settings →
        t.contest.Sound site.lockPath ∧ t.Orderly :=
  ⟨fun _ h => h.inv.sound, fun _ h => ⟨h.contest.inv.sound, h.inv.orderly⟩⟩

/-- One run has taken the lock, and another has found it taken. -/
def contended : Traffic Bool :=
  starting.play here [Run.bash] (.replicate 7 (some true) ++ .replicate 7 (some false))

/-- The one is about to read the marker and holds the lock, the other is over and does not. -/
theorem exclusive_contended :
    (∃ self identity, contended.contest.party true = .holding self identity) ∧
      (contended.contest.party false).isLive = false := by
  obtain ⟨-, horderly⟩ := (exclusive "lock" here fun _ => Run.applying).2 contended
    (reachable_play reachable_starting _)
  have hneeds : (contended.asked true).any Request.needsLock = true := by decide +kernel
  have hover : (contended.record? false).isSome = true := by decide +kernel
  obtain ⟨q, hasked, hq⟩ := (Option.any_eq_true _ _).mp hneeds
  obtain ⟨record, hrecord⟩ := Option.isSome_iff_exists.mp hover
  exact ⟨horderly.needs true q hasked hq, horderly.ends false record hrecord⟩

end Traffic

end Upkeep
