import Upkeep.Proofs.Instants
import Upkeep.Proofs.Lock.Exclusion
import Upkeep.Proofs.Run.Locking

/-!
# Runs side by side

Several runs of one machine, each in a process of its own. They share the clock, the lock file and
the last-run marker; what else a run asks for is answered in any way that leaves the lock file where
it is. What happens next is one request of one run, one call of the system by a run that tries to
take the lock, the death of a process, the passing of time or a change of files from outside, in
any order.

A log keeps what every run has asked for and been answered, and when. It is what statements about
several runs are about, and no run looks at it.

## Main definitions

* `Site`, `Site.Answers`: what runs share, and how requests are answered.
* `Traffic`, `Traffic.Step`, `Traffic.Reachable`: runs side by side.
* `Traffic.logged`, `Traffic.history`: what one of them has asked for.

## Main results

* `Traffic.Step.contest`: to the lock, runs side by side are a contest.
* `Traffic.Reachable.inv`: a run has the lock exactly when its history says so.
-/

namespace Upkeep

open Lock (Attempt Party Contest)

/-- What runs on one machine share, and how everything else is answered. -/
structure Site where
  /-- The lock file. -/
  lockPath : String
  /-- The last-run marker. -/
  markerPath : String
  /-- How a request may be answered that is neither about them nor about the time. -/
  serves : (q : Request) → Files → Answer q.Reply → Files → Prop
  /-- How files may change from outside. -/
  drifts : Files → Files → Prop
  /-- Whatever is asked for, the lock file stays. -/
  serves_spares : ∀ q (fs : Files) answer fs', serves q fs answer fs' → fs.Spares lockPath fs'
  /-- So it does when the marker is written. -/
  writes_spares : ∀ (fs : Files) time, fs.Spares lockPath (Marker.write fs markerPath time).1
  /-- And nobody else takes it away. -/
  drifts_spares : ∀ (fs : Files) fs', drifts fs fs' → fs.Spares lockPath fs'

/-- How a request is answered at a time, unless it is about the lock. -/
def Site.Answers (site : Site) (clock : Instant) :
    (q : Request) → Files → Answer q.Reply → Files → Prop
  | .acquireLock, _, _, _ => False
  | .releaseLock, _, _, _ => False
  | .now, fs, answer, fs' => answer.value = clock ∧ fs' = fs
  | .readMarker, fs, answer, fs' => answer.value = Marker.read fs site.markerPath ∧ fs' = fs
  | .writeMarker time, fs, answer, fs' =>
    (answer.value = none ↔ (Marker.write fs site.markerPath time).2 = none) ∧
      fs' = (Marker.write fs site.markerPath time).1
  | q, fs, answer, fs' => site.serves q fs answer fs'

/-- Whatever is answered, the lock file stays. -/
theorem Site.Answers.spares {site : Site} {clock : Instant} {q : Request} {fs fs' : Files}
    {answer : Answer q.Reply} (h : site.Answers clock q fs answer fs') :
    fs.Spares site.lockPath fs' := by
  cases q with
  | acquireLock | releaseLock => exact h.elim
  | now | readMarker =>
    obtain ⟨-, rfl⟩ := h
    exact .refl _ _
  | writeMarker time =>
    obtain ⟨-, rfl⟩ := h
    exact site.writes_spares fs time
  | _ => exact site.serves_spares _ _ _ _ h

theorem Site.Answers.phase_ne {site : Site} {clock : Instant} {q : Request} {fs fs' : Files}
    {answer : Answer q.Reply} (h : site.Answers clock q fs answer fs') : q.phase ≠ .lock := by
  cases q with
  | acquireLock | releaseLock => exact h.elim
  | _ => simp [Request.phase]

/-- What came of an attempt to take the lock, once it is over. -/
@[simp]
def Lock.Party.result? : Party → Option (Except LockError Unit)
  | .holding _ _ => some (.ok ())
  | .refused e => some (.error e)
  | _ => none

/-- One line of a log: a request, the answer to it, whose they were, and when that was. -/
structure Entry (ι : Type) where
  /-- When. -/
  time : Instant
  /-- Whose. -/
  who : ι
  /-- What. -/
  event : Event

/-- Runs side by side. -/
structure Traffic (ι : Type) where
  /-- The time. -/
  clock : Instant
  /-- The files, the locks, and what everybody is doing about the lock. -/
  contest : Contest ι
  /-- What is left of each run; nothing, once it has died. -/
  left : ι → Option (Program Run.Record)
  /-- What has been asked for, in order. -/
  log : List (Entry ι)

namespace Traffic

variable {ι : Type} [DecidableEq ι]

/-- What a log says of one run. -/
def logged (log : List (Entry ι)) (i : ι) : History :=
  (log.filter fun entry => entry.who = i).map Entry.event

/-- What a run has asked for and been answered. -/
def history (t : Traffic ι) (i : ι) : History := logged t.log i

/-- A run is answered. -/
def answered (t : Traffic ι) (i : ι) (q : Request) (answer : Answer q.Reply)
    (next : Answer q.Reply → Program Run.Record) (c : Contest ι) : Traffic ι where
  clock := t.clock
  contest := c
  left := Function.update t.left i (some (next answer))
  log := t.log ++ [⟨t.clock, i, ⟨q, answer⟩⟩]

/-- The contest in which an attempt of a run has gone on. -/
def advanced (t : Traffic ι) (path : String) (i : ι) (self : Holder) (attempt : Attempt) :
    Contest ι :=
  t.contest.turn i (attempt.advance path self t.contest.lock).1
    (attempt.advance path self t.contest.lock).2

/-- What can happen next. -/
inductive Step (site : Site) (t : Traffic ι) : Traffic ι → Prop
  /-- Time passes. -/
  | ticks (clock : Instant) (later : clock.before t.clock = false)
      (plain : clock.Plain) : Step site t { t with clock := clock }
  /-- A run starts to take the lock. -/
  | begins (i : ι) (self : Holder) {next : Answer Request.acquireLock.Reply → Program Run.Record}
      (asks : t.left i = some (.ask .acquireLock next))
      (free : (t.contest.party i).isFree = true) :
      Step site t { t with contest := t.contest.turn i (.trying self .preparing) t.contest.lock }
  /-- It goes on with that. -/
  | advances (i : ι) {self : Holder} {attempt : Attempt}
      (trying : t.contest.party i = .trying self attempt)
      (more : ((t.advanced site.lockPath i self attempt).party i).result? = none) :
      Step site t { t with contest := t.advanced site.lockPath i self attempt }
  /-- It has the lock, or has not got it. -/
  | enters (i : ι) {self : Holder} {attempt : Attempt}
      {next : Answer Request.acquireLock.Reply → Program Run.Record}
      (asks : t.left i = some (.ask .acquireLock next))
      (trying : t.contest.party i = .trying self attempt)
      (answer : Answer Request.acquireLock.Reply)
      (ended : ((t.advanced site.lockPath i self attempt).party i).result? = some answer.value) :
      Step site t (t.answered i .acquireLock answer next (t.advanced site.lockPath i self attempt))
  /-- A run lets go of the lock. -/
  | releases (i : ι) {self : Holder} {identity : Nat}
      {next : Answer Request.releaseLock.Reply → Program Run.Record}
      (asks : t.left i = some (.ask .releaseLock next))
      (holding : t.contest.party i = .holding self identity)
      (answer : Answer Request.releaseLock.Reply) :
      Step site t (t.answered i .releaseLock answer next
        (t.contest.turn i .idle (Lock.release t.contest.lock identity)))
  /-- A run is answered something else. -/
  | answers (i : ι) {q : Request} {next : Answer q.Reply → Program Run.Record}
      (asks : t.left i = some (.ask q next)) (answer : Answer q.Reply) (fs : Files)
      (served : site.Answers t.clock q t.contest.lock.files answer fs) :
      Step site t (t.answered i q answer next
        { t.contest with lock := { t.contest.lock with files := fs } })
  /-- The process of a run dies. -/
  | dies (i : ι) :
      Step site t { t with
        contest := t.contest.turn i .idle (t.contest.lock.letGo (t.contest.party i).grip)
        left := Function.update t.left i none }
  /-- Files change from outside. -/
  | drifts (fs : Files) (drift : site.drifts t.contest.lock.files fs) :
      Step site t { t with
        contest := { t.contest with lock := { t.contest.lock with files := fs } } }

/-- What comes to be, one thing after another. -/
abbrev Evolves (site : Site) : Traffic ι → Traffic ι → Prop :=
  Relation.ReflTransGen (Step site)

/-- Before anything has happened. -/
def start (settings : ι → Run.Settings) (clock : Instant) (fs : Files) : Traffic ι where
  clock := clock
  contest := .start fs
  left i := some (Run.run (settings i))
  log := []

/-- It can come to this, from any files and at any time that a clock shows. -/
def Reachable (site : Site) (settings : ι → Run.Settings) (t : Traffic ι) : Prop :=
  ∃ clock fs, clock.Plain ∧ Evolves site (start settings clock fs) t

variable {site : Site} {settings : ι → Run.Settings} {t t' : Traffic ι} {i j : ι} {q : Request}
  {answer : Answer q.Reply} {next : Answer q.Reply → Program Run.Record} {c : Contest ι}

/-! ### The contest -/

/-- To the lock, runs side by side are a contest. -/
theorem Step.contest (step : Step site t t') :
    t'.contest = t.contest ∨ Contest.Step site.lockPath true t.contest t'.contest := by
  cases step with
  | ticks clock later plain => exact Or.inl rfl
  | begins i self asks free => exact Or.inr (.begins i self free)
  | advances i trying more => exact Or.inr (.advances i trying)
  | enters i asks trying answer ended => exact Or.inr (.advances i trying)
  | releases i asks holding answer => exact Or.inr (.releases i holding)
  | answers i asks answer fs served => exact Or.inr (.drifts fs (served.spares) (by simp))
  | dies i => exact Or.inr (.dies i)
  | drifts fs drift => exact Or.inr (.drifts fs (site.drifts_spares _ _ drift) (by simp))

theorem Evolves.contest (h : Evolves site t t') (ht : t.contest.Reachable site.lockPath) :
    t'.contest.Reachable site.lockPath := by
  induction h with
  | refl => exact ht
  | tail _ step ih =>
    rcases step.contest with heq | hstep
    · rw [heq]
      exact ih
    · obtain ⟨fs, hevolves⟩ := ih
      exact ⟨fs, hevolves.tail hstep⟩

/-! ### Histories -/

@[simp] theorem history_answered_self : (t.answered i q answer next c).history i =
    t.history i ++ [⟨q, answer⟩] := by
  simp [history, logged, answered]

theorem history_answered_of_ne (h : j ≠ i) : (t.answered i q answer next c).history j =
    t.history j := by
  simp [history, logged, answered, h.symm]

@[simp] theorem left_answered_self : (t.answered i q answer next c).left i =
    some (next answer) := by
  simp [answered]

theorem left_answered_of_ne (h : j ≠ i) : (t.answered i q answer next c).left j = t.left j := by
  simp [answered, h]

/-- What is true of runs side by side, all the time. -/
structure Inv (settings : ι → Run.Settings) (t : Traffic ι) : Prop where
  /-- What is left of a run is what its history leaves. -/
  after : ∀ i p, t.left i = some p → (Run.run (settings i)).After (t.history i) p
  /-- Only a run that has asked for the lock tries to take it. -/
  trying : ∀ i self attempt, t.contest.party i = .trying self attempt →
    ∃ next, t.left i = some (.ask .acquireLock next)
  /-- A run that has the lock, by its history, holds it. -/
  holds : ∀ i, t.left i ≠ none → (t.history i).HasLock →
    ∃ self identity, t.contest.party i = .holding self identity
  /-- A run that holds the lock has it by its history. -/
  held : ∀ i self identity, t.contest.party i = .holding self identity →
    t.left i ≠ none ∧ (t.history i).HasLock

theorem inv_start (settings : ι → Run.Settings) (clock : Instant) (fs : Files) :
    (start settings clock fs).Inv settings where
  after := by
    intro i p hleft
    obtain rfl := Option.some.inj hleft
    exact .refl _
  trying := by
    intro i self attempt h
    cases h
  holds := by
    rintro i - ⟨answer, -, hlock⟩
    cases hlock
  held := by
    intro i self identity h
    cases h

/-- A run that is answered has the lock afterwards if its history says so. -/
theorem Inv.answered (inv : t.Inv settings) (asks : t.left i = some (.ask q next))
    (hothers : ∀ j, j ≠ i → c.party j = t.contest.party j)
    (hmine : (t.history i ++ [⟨q, answer⟩] : History).HasLock ↔
      ∃ self identity, c.party i = .holding self identity)
    (hover : ∀ self attempt, c.party i ≠ .trying self attempt) :
    (t.answered i q answer next c).Inv settings := by
  refine ⟨fun j p hleft => ?_, fun j self attempt h => ?_, fun j hleft hlock => ?_,
    fun j self identity h => ?_⟩ <;> by_cases hj : j = i
  · subst hj
    rw [left_answered_self] at hleft
    obtain rfl := Option.some.inj hleft
    rw [history_answered_self]
    exact (inv.after j _ asks).trans ⟨answer, rfl, .refl _⟩
  · rw [left_answered_of_ne hj] at hleft
    rw [history_answered_of_ne hj]
    exact inv.after j p hleft
  · subst hj
    exact absurd h (hover self attempt)
  · rw [left_answered_of_ne hj]
    exact inv.trying j self attempt ((hothers j hj).symm.trans h)
  · subst hj
    rw [history_answered_self] at hlock
    exact hmine.mp hlock
  · rw [left_answered_of_ne hj] at hleft
    rw [history_answered_of_ne hj] at hlock
    obtain ⟨self, identity, hholding⟩ := inv.holds j hleft hlock
    exact ⟨self, identity, (hothers j hj).trans hholding⟩
  · subst hj
    rw [left_answered_self, history_answered_self]
    exact ⟨by simp, hmine.mpr ⟨self, identity, h⟩⟩
  · rw [left_answered_of_ne hj, history_answered_of_ne hj]
    exact inv.held j self identity ((hothers j hj).symm.trans h)

/-- A run that is busy with the lock, and has not been answered, does not have it. -/
theorem Inv.busy (inv : t.Inv settings) {p : Party} {s : Lock.State}
    {next : Answer Request.acquireLock.Reply → Program Run.Record}
    (asks : t.left i = some (.ask .acquireLock next))
    (hbefore : ∀ self identity, t.contest.party i ≠ .holding self identity)
    (hafter : ∀ self identity, p ≠ .holding self identity) :
    Inv settings { t with contest := t.contest.turn i p s } := by
  refine ⟨inv.after, fun j self attempt h => ?_, fun j hleft hlock => ?_,
    fun j self identity h => ?_⟩ <;> by_cases hj : j = i
  · subst hj
    exact ⟨next, asks⟩
  · rw [Contest.party_turn_of_ne _ _ _ hj] at h
    exact inv.trying j self attempt h
  · subst hj
    obtain ⟨self, identity, hholding⟩ := inv.holds j hleft hlock
    exact absurd hholding (hbefore self identity)
  · rw [Contest.party_turn_of_ne _ _ _ hj]
    exact inv.holds j hleft hlock
  · subst hj
    rw [Contest.party_turn_self] at h
    exact absurd h (hafter self identity)
  · rw [Contest.party_turn_of_ne _ _ _ hj] at h
    exact inv.held j self identity h

/-- The process of a run dies, and the run is no concern any more. -/
theorem Inv.dies (inv : t.Inv settings) (i : ι) (s : Lock.State) :
    Inv settings { t with
      contest := t.contest.turn i .idle s
      left := Function.update t.left i none } := by
  refine ⟨fun j p hleft => ?_, fun j self attempt h => ?_, fun j hleft hlock => ?_,
    fun j self identity h => ?_⟩ <;> by_cases hj : j = i
  · subst hj
    simp at hleft
  · have hleft' : t.left j = some p := by simpa [hj] using hleft
    exact inv.after j p hleft'
  · subst hj
    simp at h
  · rw [Contest.party_turn_of_ne _ _ _ hj] at h
    simpa [hj] using inv.trying j self attempt h
  · subst hj
    simp at hleft
  · rw [Contest.party_turn_of_ne _ _ _ hj]
    exact inv.holds j (by simpa [hj] using hleft) hlock
  · subst hj
    simp at h
  · rw [Contest.party_turn_of_ne _ _ _ hj] at h
    obtain ⟨hleft, hlock⟩ := inv.held j self identity h
    exact ⟨by simpa [hj] using hleft, hlock⟩

theorem Inv.step (inv : t.Inv settings) (step : Step site t t') : t'.Inv settings := by
  cases step with
  | ticks clock later plain => exact ⟨inv.after, inv.trying, inv.holds, inv.held⟩
  | drifts fs drift => exact ⟨inv.after, inv.trying, inv.holds, inv.held⟩
  | dies i => exact inv.dies i _
  | begins i self asks free =>
    refine inv.busy asks (fun self identity h => ?_) (by simp)
    rw [h] at free
    cases free
  | advances i trying more =>
    obtain ⟨next, asks⟩ := inv.trying i _ _ trying
    refine inv.busy asks (by simp [trying]) fun self' identity h => ?_
    rw [advanced, Contest.party_turn_self, h] at more
    cases more
  | enters i asks trying answer ended =>
    have htied := (Run.tied_of_after (inv.after i _ asks) answer).first rfl
    have hlock : History.during .lock (t.history i ++ [⟨.acquireLock, answer⟩]) =
        [⟨.acquireLock, answer⟩] := by
      rw [History.during_append, htied]
      rfl
    have hhas : (t.history i ++ [⟨.acquireLock, answer⟩] : History).HasLock ↔
        answer.value = .ok () := by
      constructor
      · rintro ⟨answer', hvalue, heq⟩
        rw [hlock] at heq
        cases heq
        exact hvalue
      · exact fun hvalue => ⟨answer, hvalue, hlock⟩
    refine inv.answered asks (fun j hj => Contest.party_turn_of_ne _ _ _ hj) ?_ ?_
    · rw [hhas, ← Option.some.injEq, ← ended]
      cases (t.advanced site.lockPath i _ _).party i <;> simp
    · intro self attempt h
      rw [h] at ended
      cases ended
  | releases i asks holding answer =>
    have hhas := (Run.tied_of_after (inv.after i _ asks) answer).last rfl
    refine inv.answered asks (fun j hj => Contest.party_turn_of_ne _ _ _ hj) ?_ (by simp)
    obtain ⟨taken, -, hlock⟩ := hhas
    refine ⟨fun ⟨answer', _, heq⟩ => ?_, by simp⟩
    rw [History.during_append, hlock] at heq
    cases heq
  | answers i asks answer fs served =>
    have hquiet := served.phase_ne
    refine inv.answered asks (fun j hj => rfl) ?_ ?_
    · rw [History.hasLock_append (by simpa using hquiet)]
      exact ⟨inv.holds i (by simp [asks]), fun ⟨self, identity, h⟩ => (inv.held i _ _ h).2⟩
    · intro self attempt h
      obtain ⟨next, hleft⟩ := inv.trying i self attempt h
      cases asks.symm.trans hleft
      exact served.elim

/-! ### What can come to be -/

theorem Reachable.contest (h : t.Reachable site settings) :
    t.contest.Reachable site.lockPath := by
  obtain ⟨clock, fs, -, hevolves⟩ := h
  exact hevolves.contest ⟨fs, .refl⟩

theorem Reachable.step (h : t.Reachable site settings) (step : Step site t t') :
    t'.Reachable site settings := by
  obtain ⟨clock, fs, hplain, hevolves⟩ := h
  exact ⟨clock, fs, hplain, hevolves.tail step⟩

/-- **A run has the lock exactly when its history says so.** -/
theorem Reachable.inv (h : t.Reachable site settings) : t.Inv settings := by
  obtain ⟨clock, fs, -, hevolves⟩ := h
  induction hevolves with
  | refl => exact inv_start settings clock fs
  | tail _ step ih => exact ih.step step

end Traffic

end Upkeep
