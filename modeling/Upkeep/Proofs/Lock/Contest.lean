import Mathlib.Logic.Function.Basic
import Mathlib.Logic.Relation
import Upkeep.Proofs.Lock.Places

/-!
# Contests for the lock

Several parties want the lock, and each of them takes its time over it. An attempt is taken apart
into its calls of the system: create the directory, open the file, lock it, empty it, write down
who holds it; or, when another has locked it, read who that is. Between two calls of one party all
others may go on, let go of the lock or die, and the file may be overwritten from outside. What
nobody may do is to remove the lock file or to put another in its place: then one path would have
two files to lock.

A process that makes several attempts is as many parties. The parties of a process that dies die
one after the other, with anything in between.

## The invariant

Whoever has opened the lock file has opened the one that the path leads to, since it stays there.
So all parties compete for one identity, and the system lets only one of them lock it.

## Main definitions

* `Lock.Attempt`, `Lock.Party`, `Lock.Contest`: how far everybody is.
* `Lock.Attempt.advance`: one call of the system.
* `Lock.Contest.Step`, `Lock.Contest.Reachable`.
* `Lock.Contest.Inv`: what is true all the time.

## Main results

* `Lock.Contest.Step.inv`, `Lock.Contest.Reachable.inv`: the invariant is one.
* `Lock.Contest.Inv.unique`: at most one party has the lock.
-/

namespace Upkeep.Lock

/-- How far an attempt to take the lock has come. -/
inductive Attempt where
  /-- The directory of the lock file is to be created. -/
  | preparing
  /-- The lock file is to be opened. -/
  | opening
  /-- The open file is to be locked. -/
  | locking (identity : Nat)
  /-- Another has locked the file, and who that is is to be read. -/
  | inquiring (identity : Nat)
  /-- The file is locked, and is to be emptied. -/
  | emptying (identity : Nat)
  /-- The file is locked and was emptied, and who holds it is to be written down. -/
  | recording (identity : Nat)

/-- What someone who may want the lock is doing about it. -/
inductive Party where
  /-- Nothing. -/
  | idle
  /-- He tries to take it. -/
  | trying (self : Holder) (attempt : Attempt)
  /-- He did not get it. -/
  | refused (e : LockError)
  /-- He got it. -/
  | holding (self : Holder) (identity : Nat)

namespace Party

/-- The file that a party has locked. -/
@[simp]
def grip : Party → Option Nat
  | .trying _ (.emptying identity) | .trying _ (.recording identity) => some identity
  | .holding _ identity => some identity
  | _ => none

/-- The lock file that a party has opened. -/
@[simp]
def opened : Party → Option Nat
  | .trying _ (.locking identity) | .trying _ (.inquiring identity) => some identity
  | p => p.grip

/-- The party has the lock, from the moment the file is locked. -/
def isLive (p : Party) : Bool := p.grip.isSome

/-- What a party has left in the lock file. -/
@[simp]
def wrote : Party → Option ByteArray
  | .trying _ (.recording _) => some ByteArray.empty
  | .holding self _ => some (record self)
  | _ => none

/-- The party may start an attempt. -/
def isFree : Party → Bool
  | .idle | .refused _ => true
  | _ => false

theorem opened_of_grip {p : Party} {identity : Nat} (h : p.grip = some identity) :
    p.opened = some identity := by
  cases p with
  | idle | refused _ => cases h
  | holding _ _ => exact h
  | trying _ attempt => cases attempt <;> first | exact h | cases h

theorem isLive_of_wrote {p : Party} {content : ByteArray} (h : p.wrote = some content) :
    p.isLive = true := by
  cases p with
  | idle | refused _ => cases h
  | holding _ _ => rfl
  | trying _ attempt => cases attempt <;> first | rfl | cases h

end Party

/-- One call of the system; answers what the party is doing then. -/
def Attempt.advance (path : String) (self : Holder) (s : State) : Attempt → Party × State
  | .preparing =>
    match s.files.createDirs (Path.parent path) with
    | (fs, some cause) => (.refused (.io path cause), { s with files := fs })
    | (fs, none) => (.trying self .opening, { s with files := fs })
  | .opening =>
    match s.files.openFile path with
    | .error cause => (.refused (.io path cause), s)
    | .ok (identity, fs) => (.trying self (.locking identity), { s with files := fs })
  | .locking identity =>
    if s.held.contains identity then (.trying self (.inquiring identity), s)
    else (.trying self (.emptying identity), { s with held := identity :: s.held })
  | .inquiring _ => (.refused (.alreadyRunning (holder? s.files path)), s)
  | .emptying identity =>
    match s.files.create path with
    | .error _ => (.holding self identity, s)
    | .ok fs => (.trying self (.recording identity), { s with files := fs })
  | .recording identity =>
    match s.files.fill path (record self) with
    | .error _ => (.holding self identity, s)
    | .ok fs => (.holding self identity, { s with files := fs })

/-- A call of the system changes no file but the lock file. -/
theorem Attempt.keeps_advance (path : String) (self : Holder) (s : State) (attempt : Attempt) :
    s.files.Keeps [Path.place path] (attempt.advance path self s).2.files := by
  cases attempt with
  | preparing =>
    have hkeeps := (Files.grows_createDirs s.files (Path.parent path)).keeps [Path.place path]
    rw [advance]
    cases hdirs : s.files.createDirs (Path.parent path) with
    | mk fs cause =>
      rw [hdirs] at hkeeps
      cases cause <;> exact hkeeps
  | opening =>
    rw [advance]
    cases hopen : s.files.openFile path with
    | error cause => exact .refl _ _
    | ok found => exact Files.keeps_openFile hopen
  | locking identity =>
    rw [advance]
    split <;> exact .refl _ _
  | inquiring identity => exact .refl _ _
  | emptying identity =>
    rw [advance]
    cases hcreate : s.files.create path with
    | error cause => exact .refl _ _
    | ok fs => exact Files.keeps_create hcreate
  | recording identity =>
    rw [advance]
    cases hfill : s.files.fill path (record self) with
    | error cause => exact .refl _ _
    | ok fs => exact Files.keeps_fill hfill

/-- Lets go of a file that is locked, if there is one. -/
def State.letGo (s : State) : Option Nat → State
  | some identity => release s identity
  | none => s

/-- Who wants the lock, and how far everybody is. -/
structure Contest (ι : Type) where
  /-- The files and the locks. -/
  lock : State
  /-- The parties. -/
  party : ι → Party

namespace Contest

variable {ι : Type}

/-- What is true all the time. -/
structure Inv (path : String) (c : Contest ι) : Prop where
  /-- No file is locked twice. -/
  nodup : c.lock.held.Nodup
  /-- The files that are locked are those that a party has locked. -/
  gripped : ∀ identity, identity ∈ c.lock.held ↔ ∃ i, (c.party i).grip = some identity
  /-- No two parties have locked one file. -/
  apart : ∀ i j identity, (c.party i).grip = some identity → (c.party j).grip = some identity →
    i = j
  /-- Who has opened the lock file has opened the one that is there. -/
  here : ∀ i identity, (c.party i).opened = some identity → c.lock.files.IsAt path identity

/-- Nobody has the lock, and nobody tries to take it. -/
def start (fs : Files) : Contest ι := ⟨⟨fs, []⟩, fun _ => .idle⟩

variable {path : String} {meddling : Bool} {c c' : Contest ι} {i j : ι} {p : Party} {fs : Files}
  {identity : Nat}

/-- **At most one party has the lock.** -/
theorem Inv.unique (inv : c.Inv path) (hi : (c.party i).isLive = true)
    (hj : (c.party j).isLive = true) : i = j := by
  obtain ⟨identity, hi⟩ := Option.isSome_iff_exists.mp hi
  obtain ⟨identity', hj⟩ := Option.isSome_iff_exists.mp hj
  obtain rfl := (inv.here i _ (Party.opened_of_grip hi)).unique
    (inv.here j _ (Party.opened_of_grip hj))
  exact inv.apart i j identity hi hj

/-- Nothing is locked exactly when no party has the lock. -/
theorem Inv.held_eq_nil (inv : c.Inv path) :
    c.lock.held = [] ↔ ∀ i, (c.party i).isLive = false := by
  rw [List.eq_nil_iff_forall_not_mem]
  constructor
  · intro hnone i
    rw [Party.isLive, Option.isSome_eq_false_iff, Option.isNone_iff_eq_none]
    cases hgrip : (c.party i).grip with
    | none => rfl
    | some identity => exact absurd ((inv.gripped identity).mpr ⟨i, hgrip⟩) (hnone identity)
  · intro hfree identity hmem
    obtain ⟨i, hgrip⟩ := (inv.gripped identity).mp hmem
    have hlive := hfree i
    rw [Party.isLive, hgrip] at hlive
    cases hlive

theorem inv_start (path : String) (fs : Files) : (start fs : Contest ι).Inv path where
  nodup := List.nodup_nil
  gripped := by simp [start]
  apart := by simp [start]
  here := by simp [start]

variable [DecidableEq ι]

/-- A party goes over to something else, and the files and locks with it. -/
def turn (c : Contest ι) (i : ι) (p : Party) (s : State) : Contest ι :=
  ⟨s, Function.update c.party i p⟩

/-- What can happen next. In a contest with no meddling nobody but the parties changes the content
of the lock file. -/
inductive Step (path : String) (meddling : Bool) (c : Contest ι) : Contest ι → Prop
  /-- A party starts an attempt. -/
  | begins (i : ι) (self : Holder) (free : (c.party i).isFree = true) :
      Step path meddling c (c.turn i (.trying self .preparing) c.lock)
  /-- An attempt goes on. -/
  | advances (i : ι) {self : Holder} {attempt : Attempt}
      (trying : c.party i = .trying self attempt) :
      Step path meddling c
        (c.turn i (attempt.advance path self c.lock).1 (attempt.advance path self c.lock).2)
  /-- A party lets go of the lock. -/
  | releases (i : ι) {self : Holder} {identity : Nat}
      (holding : c.party i = .holding self identity) :
      Step path meddling c (c.turn i .idle (release c.lock identity))
  /-- A party dies. -/
  | dies (i : ι) : Step path meddling c (c.turn i .idle (c.lock.letGo (c.party i).grip))
  /-- Files change from outside; the lock file stays. -/
  | drifts (fs : Files) (spares : c.lock.files.Spares path fs)
      (calm : meddling = false → fs.held? path = c.lock.files.held? path) :
      Step path meddling c { c with lock := { c.lock with files := fs } }

/-- What comes to be, one thing after another. -/
abbrev Evolves (path : String) (meddling : Bool) : Contest ι → Contest ι → Prop :=
  Relation.ReflTransGen (Step path meddling)

/-- It can come to this, with any meddling. -/
def Reachable (path : String) (c : Contest ι) : Prop := ∃ fs, Evolves path true (start fs) c

@[simp] theorem party_turn_self (c : Contest ι) (i : ι) (p : Party) (s : State) :
    (c.turn i p s).party i = p := by
  simp [turn]

theorem party_turn_of_ne (c : Contest ι) (p : Party) (s : State) (h : j ≠ i) :
    (c.turn i p s).party j = c.party j := by
  simp [turn, h]

@[simp] theorem lock_turn (c : Contest ι) (i : ι) (p : Party) (s : State) :
    (c.turn i p s).lock = s := rfl

/-! ### Steps keep the invariant -/

/-- A party goes on without any change to the locks. -/
theorem Inv.turn (inv : c.Inv path) (hspares : c.lock.files.Spares path fs)
    (hgrip : p.grip = (c.party i).grip)
    (hopened : ∀ identity, p.opened = some identity →
      (c.party i).opened = some identity ∨ fs.IsAt path identity) :
    (c.turn i p ⟨fs, c.lock.held⟩).Inv path := by
  have hgrips : ∀ j, ((c.turn i p ⟨fs, c.lock.held⟩).party j).grip = (c.party j).grip := by
    intro j
    by_cases hj : j = i
    · subst hj
      rw [party_turn_self, hgrip]
    · rw [party_turn_of_ne _ _ _ hj]
  refine ⟨inv.nodup, fun identity => ?_, fun j k identity => ?_, fun j identity => ?_⟩
  · simp only [hgrips]
    exact inv.gripped identity
  · rw [hgrips, hgrips]
    exact inv.apart j k identity
  · by_cases hj : j = i
    · subst hj
      rw [party_turn_self]
      intro h
      rcases hopened identity h with hold | hnew
      · exact hspares _ (inv.here j identity hold)
      · exact hnew
    · rw [party_turn_of_ne _ _ _ hj]
      exact fun h => hspares _ (inv.here j identity h)

/-- A party locks a file that nobody has locked. -/
theorem Inv.take (inv : c.Inv path) (hopened : (c.party i).opened = some identity)
    (hfree : (c.party i).grip = none) (hfresh : identity ∉ c.lock.held)
    (hgrip : p.grip = some identity) :
    (c.turn i p ⟨c.lock.files, identity :: c.lock.held⟩).Inv path := by
  have hothers : ∀ j identity', ((c.turn i p ⟨c.lock.files, identity :: c.lock.held⟩).party j).grip
      = some identity' → j = i ∧ identity' = identity ∨
        j ≠ i ∧ (c.party j).grip = some identity' ∧ identity' ≠ identity := by
    intro j identity' h
    by_cases hj : j = i
    · subst hj
      rw [party_turn_self, hgrip] at h
      exact Or.inl ⟨rfl, (Option.some.inj h).symm⟩
    · rw [party_turn_of_ne _ _ _ hj] at h
      refine Or.inr ⟨hj, h, ?_⟩
      rintro rfl
      exact hfresh ((inv.gripped identity').mpr ⟨j, h⟩)
  refine ⟨List.nodup_cons.mpr ⟨hfresh, inv.nodup⟩, fun identity' => ?_,
    fun j k identity' hj hk => ?_,
    fun j identity' h => ?_⟩
  · rw [lock_turn, List.mem_cons, inv.gripped]
    constructor
    · rintro (rfl | ⟨j, hj⟩)
      · exact ⟨i, by rw [party_turn_self, hgrip]⟩
      · have hne : j ≠ i := by
          rintro rfl
          rw [hfree] at hj
          cases hj
        exact ⟨j, by rw [party_turn_of_ne _ _ _ hne, hj]⟩
    · rintro ⟨j, hj⟩
      rcases hothers j identity' hj with ⟨-, rfl⟩ | ⟨-, hj, -⟩
      · exact Or.inl rfl
      · exact Or.inr ⟨j, hj⟩
  · rcases hothers j identity' hj with ⟨rfl, rfl⟩ | ⟨-, hj, hne⟩
    · rcases hothers k _ hk with ⟨rfl, -⟩ | ⟨-, -, hne⟩
      · rfl
      · exact absurd rfl hne
    · rcases hothers k _ hk with ⟨-, rfl⟩ | ⟨-, hk, -⟩
      · exact absurd rfl hne
      · exact inv.apart j k identity' hj hk
  · by_cases hj : j = i
    · subst hj
      rw [party_turn_self, Party.opened_of_grip hgrip] at h
      exact inv.here j identity' (hopened.trans h)
    · rw [party_turn_of_ne _ _ _ hj] at h
      exact inv.here j identity' h

/-- A party lets go of what it has locked. -/
theorem Inv.letGo (inv : c.Inv path) (i : ι) :
    (c.turn i .idle (c.lock.letGo (c.party i).grip)).Inv path := by
  have hothers : ∀ j identity,
      ((c.turn i .idle (c.lock.letGo (c.party i).grip)).party j).grip = some identity ↔
        j ≠ i ∧ (c.party j).grip = some identity := by
    intro j identity
    by_cases hj : j = i
    · subst hj
      simp
    · simp [party_turn_of_ne _ _ _ hj, hj]
  have hheld : ∀ identity, identity ∈ (c.lock.letGo (c.party i).grip).held ↔
      identity ∈ c.lock.held ∧ (c.party i).grip ≠ some identity := by
    intro identity
    cases hgrip : (c.party i).grip with
    | none => simp [State.letGo]
    | some identity' =>
      rw [State.letGo, release, inv.nodup.mem_erase_iff, and_comm]
      simp [eq_comm]
  have hnodup : (c.lock.letGo (c.party i).grip).held.Nodup := by
    cases (c.party i).grip with
    | none => exact inv.nodup
    | some identity => exact inv.nodup.erase identity
  have hfiles : (c.lock.letGo (c.party i).grip).files = c.lock.files := by
    cases (c.party i).grip <;> rfl
  refine ⟨hnodup, fun identity => ?_, fun j k identity hj hk => ?_, fun j identity h => ?_⟩
  · rw [lock_turn, hheld, inv.gripped]
    simp only [hothers]
    constructor
    · rintro ⟨⟨j, hj⟩, hne⟩
      refine ⟨j, ?_, hj⟩
      rintro rfl
      exact hne hj
    · rintro ⟨j, hne, hj⟩
      exact ⟨⟨j, hj⟩, fun hi => hne (inv.apart j i identity hj hi)⟩
  · exact inv.apart j k identity ((hothers j identity).mp hj).2 ((hothers k identity).mp hk).2
  · rw [lock_turn, hfiles]
    by_cases hj : j = i
    · subst hj
      rw [party_turn_self] at h
      cases h
    · rw [party_turn_of_ne _ _ _ hj] at h
      exact inv.here j identity h

/-- An attempt goes on, and the invariant with it. -/
theorem Inv.advance (inv : c.Inv path) {self : Holder} {attempt : Attempt}
    (trying : c.party i = .trying self attempt) :
    (c.turn i (attempt.advance path self c.lock).1
      (attempt.advance path self c.lock).2).Inv path := by
  have hhere : ∀ {identity}, (Party.trying self attempt).opened = some identity →
      c.lock.files.IsAt path identity := fun h => inv.here i _ (trying ▸ h)
  cases attempt with
  | preparing =>
    have hgrows := Files.grows_createDirs c.lock.files (Path.parent path)
    rw [Attempt.advance]
    cases hdirs : c.lock.files.createDirs (Path.parent path) with
    | mk fs cause =>
      rw [hdirs] at hgrows
      cases cause with
      | none => exact inv.turn hgrows.spares (by simp [trying]) (by simp)
      | some cause => exact inv.turn hgrows.spares (by simp [trying]) (by simp)
  | opening =>
    rw [Attempt.advance]
    cases hopen : c.lock.files.openFile path with
    | error cause => exact inv.turn (.refl _ _) (by simp [trying]) (by simp)
    | ok found =>
      obtain ⟨identity, fs⟩ := found
      refine inv.turn (Files.spares_openFile hopen) (by simp [trying]) fun identity' h => ?_
      obtain rfl := Option.some.inj h
      exact Or.inr (Files.isAt_openFile hopen)
  | locking identity =>
    rw [Attempt.advance]
    cases hheld : c.lock.held.contains identity with
    | true => exact inv.turn (.refl _ _) (by simp [trying]) (by simp [trying])
    | false =>
      have hfresh : identity ∉ c.lock.held := by simpa using hheld
      exact inv.take (by simp [trying]) (by simp [trying]) hfresh rfl
  | inquiring identity =>
    rw [Attempt.advance]
    exact inv.turn (.refl _ _) (by simp [trying]) (by simp)
  | emptying identity =>
    obtain ⟨fs, hcreate, hat, -⟩ := Files.create_of_isAt (hhere rfl)
    rw [Attempt.advance, hcreate]
    refine inv.turn (fun identity' h => ?_) (by simp [trying]) (by simp [trying])
    rwa [h.unique (hhere rfl)]
  | recording identity =>
    obtain ⟨fs, old, hfill, -, hat, -⟩ := Files.fill_of_isAt (hhere rfl) (record self)
    rw [Attempt.advance, hfill]
    refine inv.turn (fun identity' h => ?_) (by simp [trying]) (by simp [trying])
    rwa [h.unique (hhere rfl)]

theorem Step.inv (step : Step path meddling c c') (inv : c.Inv path) : c'.Inv path := by
  cases step with
  | begins i self free =>
    refine inv.turn (.refl _ _) ?_ (by simp)
    cases hp : c.party i <;> simp_all [Party.isFree]
  | advances i trying => exact inv.advance trying
  | releases i holding =>
    have hinv := inv.letGo i
    rwa [holding] at hinv
  | dies i => exact inv.letGo i
  | drifts fs spares calm => exact ⟨inv.nodup, inv.gripped, inv.apart,
      fun j identity h => spares _ (inv.here j identity h)⟩

theorem Evolves.inv (h : Evolves path meddling c c') (inv : c.Inv path) : c'.Inv path := by
  induction h with
  | refl => exact inv
  | tail _ step ih => exact step.inv ih

theorem Reachable.inv (h : Reachable path c) : c.Inv path := by
  obtain ⟨fs, hevolves⟩ := h
  exact Evolves.inv hevolves (inv_start path fs)

end Contest

end Upkeep.Lock
