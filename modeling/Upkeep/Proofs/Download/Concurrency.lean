import Mathlib.Data.List.Nodup
import Upkeep.Proofs.Download.Parts

/-!
# How much is in flight

How much is in flight at a moment can be seen without looking at the board: it is what has begun and
is not done. That the board keeps count of it is the invariant (`Schedule.inFlight_perm`). A place is
held from the first attempt to the end, rests included, so whatever is in flight holds a place of its
own, and there are never more of them than there are places. Since a candidate holds one place and
has one standing, it never has two pieces of work in flight either.

All of this is said of schedules, and so of every order in which work begins, is done, is given up
on, or is tried again.

## Main definitions

* `Download.inFlight`: the pieces of work that have begun and are not done.
* `Download.fetchesInFlight`: how many of them are fetches.

## Main results

* `Schedule.active_le`: no more places are held than there are.
* `Schedule.inFlight_perm`: the board keeps count of what is in flight.
* `concurrency`: fetches side by side, at every moment and at the end.
-/

namespace Upkeep

namespace Download

/-- The pieces of work in flight after one more cue. -/
def afterCue (aloft : List (Nat × Job)) : Cue → List (Nat × Job)
  | .launch index job => aloft ++ [(index, job)]
  | .settle s => aloft.erase (s.index, s.job)

/-- The pieces of work that have begun and are not done, each with the index of its candidate. -/
def inFlight (cues : List Cue) : List (Nat × Job) := cues.foldl afterCue []

/-- How many fetches have begun and are not done. -/
def fetchesInFlight (cues : List Cue) : Nat := (inFlight cues).countP fun f => f.2.isFetch

/-- No candidate has two pieces of work in flight. -/
def Apart (cues : List Cue) : Prop := ((inFlight cues).map Prod.fst).Nodup

/-- The candidate at an index has been fetched, or is being fetched. -/
def Attempted (d : DownloadConfig) (cues : List Cue) (i : Nat) (c : Candidate) : Prop :=
  Cue.launch i (.fetch c d.cacheDir (Task.limit d)) ∈ cues

variable {d : DownloadConfig} {cs : List Candidate} {cues cues' : List Cue} {b b' : Board}
  {i : Nat} {c : Candidate} {s : Standing}

/-! ### The flights of a board -/

/-- The piece of work that a candidate has in flight. -/
def Standing.flights (i : Nat) (c : Candidate) : Standing → List Flight
  | .flying t => [⟨i, c, t⟩]
  | _ => []

namespace Board

/-- The flights of a board whose first index is not zero. -/
def flightsFrom : Nat → Board → List Flight
  | _, [] => []
  | n, (c, s) :: b => s.flights n c ++ flightsFrom (n + 1) b

theorem flights_eq (b : Board) : b.flights = flightsFrom 0 b := by
  have hflat : b.flights = b.zipIdx.flatMap fun e => e.1.2.flights e.2 e.1.1 := by
    rw [flights, indexed, List.filterMap_eq_flatMap_toList, List.flatMap_map]
    refine List.flatMap_congr fun e _ => ?_
    obtain ⟨⟨c, s⟩, i⟩ := e
    cases s <;> rfl
  have hfrom : ∀ (n : Nat) (b : Board),
      ((b.zipIdx n).flatMap fun e => e.1.2.flights e.2 e.1.1) = flightsFrom n b := by
    intro n b
    induction b generalizing n with
    | nil => rfl
    | cons e b ih =>
      rw [List.zipIdx_cons, List.flatMap_cons, ih (n + 1)]
      rfl
  exact hflat.trans (hfrom 0 b)

theorem flightsFrom_append (n : Nat) (b₁ b₂ : Board) :
    flightsFrom n (b₁ ++ b₂) = flightsFrom n b₁ ++ flightsFrom (n + b₁.length) b₂ := by
  induction b₁ generalizing n with
  | nil => rfl
  | cons e b₁ ih =>
    obtain ⟨c, s⟩ := e
    rw [List.cons_append, flightsFrom, flightsFrom, ih, List.append_assoc, List.length_cons,
      Nat.add_assoc, Nat.add_comm 1]

/-- A candidate that moves changes only its own flight. -/
theorem exists_flights (h : b[i]? = some (c, s)) : ∃ before after,
    b.flights = before ++ s.flights i c ++ after ∧
      ∀ s', (b.move (i, c, s')).flights = before ++ s'.flights i c ++ after := by
  obtain ⟨hi, he⟩ := List.getElem?_eq_some_iff.mp h
  have hset : ∀ s', (b.move (i, c, s')).flights =
      flightsFrom 0 (b.take i) ++ Standing.flights i c s' ++
        flightsFrom (i + 1) (b.drop (i + 1)) := by
    intro s'
    change Board.flights (b.set i (c, s')) = _
    rw [flights_eq, List.set_eq_take_cons_drop _ hi, flightsFrom_append, flightsFrom,
      List.length_take_of_le (Nat.le_of_lt hi), Nat.zero_add, List.append_assoc]
  refine ⟨_, _, ?_, hset⟩
  rw [← hset s]
  change b.flights = Board.flights (b.set i (c, s))
  rw [← he, List.set_getElem_self]

/-- Flights are in the order of the board, so that no index has two. -/
theorem nodup_flights (b : Board) : (b.flights.map Flight.index).Nodup := by
  have hfrom : ∀ (n : Nat) (b : Board), (∀ f ∈ flightsFrom n b, n ≤ f.index) ∧
      ((flightsFrom n b).map Flight.index).Nodup := by
    intro n b
    induction b generalizing n with
    | nil => simp [flightsFrom]
    | cons e b ih =>
      obtain ⟨c, s⟩ := e
      obtain ⟨hle, hnodup⟩ := ih (n + 1)
      cases s with
      | flying t =>
        refine ⟨List.forall_mem_cons.mpr ⟨Nat.le_refl n, fun f hf => Nat.le_of_lt (hle f hf)⟩,
          List.nodup_cons.mpr ⟨fun hmem => ?_, hnodup⟩⟩
        obtain ⟨f, hf, heq⟩ := List.mem_map.mp hmem
        have hlater := hle f hf
        rw [heq] at hlater
        exact Nat.not_succ_le_self n hlater
      | queued | ready t | finished o => exact ⟨fun f hf => Nat.le_of_lt (hle f hf), hnodup⟩
  rw [flights_eq]
  exact (hfrom 0 b).2

theorem active_cons (c : Candidate) (s : Standing) (b : Board) :
    active ((c, s) :: b) = active b + s.isActive.toNat := by
  rw [active, List.countP_cons]
  cases s.isActive <;> rfl

/-- Whatever is in flight holds a place. -/
theorem length_flights_le (b : Board) : b.flights.length ≤ b.active := by
  have hfrom : ∀ (n : Nat) (b : Board), (flightsFrom n b).length ≤ b.active := by
    intro n b
    induction b generalizing n with
    | nil => exact Nat.le_refl 0
    | cons e b ih =>
      obtain ⟨c, s⟩ := e
      have hone : (s.flights n c).length ≤ s.isActive.toNat := by
        cases s <;> simp [Standing.flights, Standing.isActive]
      have hrest := ih (n + 1)
      rw [flightsFrom, List.length_append, active_cons]
      omega
  rw [flights_eq]
  exact hfrom 0 b

/-- A candidate that moves changes only its own share of the places. -/
theorem active_move (h : b[i]? = some (c, s)) (s' : Standing) :
    (b.move (i, c, s')).active + s.isActive.toNat = b.active + s'.isActive.toNat := by
  change active (b.set i (c, s')) + _ = _
  induction b generalizing i with
  | nil => simp at h
  | cons e b ih =>
    obtain ⟨c₀, s₀⟩ := e
    cases i with
    | zero =>
      obtain ⟨rfl, rfl⟩ := Prod.mk.inj (Option.some.inj h)
      rw [List.set_cons_zero, active_cons, active_cons]
      omega
    | succ i =>
      have hrest := ih (i := i) (by simpa using h)
      rw [List.set_cons_succ, active_cons, active_cons]
      omega

end Board

/-! ### Moves -/

/-- A move keeps to the places that there are. -/
theorem Move.active_le (hm : Move d b cues b') (hb : b.active ≤ Board.places d) :
    b'.active ≤ Board.places d := by
  cases hm with
  | admitted queued room =>
    have hmove := Board.active_move queued (.ready (.fetching 1))
    simp [Standing.isActive] at hmove
    omega
  | @begun i c t ready =>
    have hmove := Board.active_move ready (.flying t)
    simp [Standing.isActive] at hmove
    omega
  | @done i c t flying r =>
    have hmove := Board.active_move flying (.after (t.advance d c r))
    have hle := Bool.toNat_le (Standing.after (t.advance d c r)).isActive
    simp [Standing.isActive] at hmove hle
    omega

/-- The board keeps count of what is in flight. -/
theorem Move.perm (hm : Move d b cues b') {aloft : List (Nat × Job)}
    (hb : aloft.Perm (b.flights.map (Flight.piece d))) :
    (cues.foldl afterCue aloft).Perm (b'.flights.map (Flight.piece d)) := by
  cases hm with
  | @admitted i c queued room =>
    obtain ⟨before, after, heq, hmove⟩ := Board.exists_flights queued
    rw [hmove]
    rwa [heq] at hb
  | @begun i c t ready =>
    obtain ⟨before, after, heq, hmove⟩ := Board.exists_flights ready
    have hidle : (Standing.ready t).flights i c = [] := rfl
    rw [heq, hidle, List.append_nil, List.map_append] at hb
    rw [hmove, Standing.flights, List.append_assoc, List.singleton_append, List.map_append]
    exact ((List.perm_append_singleton _ _).trans (hb.cons _)).trans List.perm_middle.symm
  | @done i c t flying r =>
    obtain ⟨before, after, heq, hmove⟩ := Board.exists_flights flying
    have hlanded : (Standing.after (t.advance d c r)).flights i c = [] := by
      cases t.advance d c r <;> rfl
    rw [heq, Standing.flights, List.append_assoc, List.singleton_append, List.map_append] at hb
    rw [hmove, hlanded, List.append_nil, List.map_append]
    have herase := (hb.trans List.perm_middle).erase (i, t.job d c)
    rwa [Flight.piece, List.erase_cons_head] at herase

/-! ### Schedules -/

/-- **No more places are held than there are.** -/
theorem Schedule.active_le (hs : Schedule d cs cues b) : b.active ≤ Board.places d := by
  refine hs.preserves (fun _ b => b.active ≤ Board.places d) ?_ fun hm hb => hm.active_le hb
  have hnone : (Board.start cs).active = 0 := by
    refine List.countP_eq_zero.mpr fun e he => ?_
    obtain ⟨c, -, rfl⟩ := List.mem_map.mp he
    exact Bool.false_ne_true
  exact hnone ▸ Nat.zero_le _

/-- **The board keeps count of what is in flight.** -/
theorem Schedule.inFlight_perm (hs : Schedule d cs cues b) :
    (inFlight cues).Perm (b.flights.map (Flight.piece d)) := by
  refine hs.preserves (fun cues b => (inFlight cues).Perm (b.flights.map (Flight.piece d))) ?_ ?_
  · have hnone : (Board.start cs).flights = [] := by
      refine List.eq_nil_iff_forall_not_mem.mpr fun f hf => ?_
      cases Board.eq_queued_of_start (Board.mem_flights.mp hf)
    rw [hnone]
    exact .nil
  · intro cues b cues' b' hm hb
    rw [inFlight, List.foldl_append]
    exact hm.perm hb

/-- **There are no more fetches in flight than places.** -/
theorem Schedule.fetchesInFlight_le (hs : Schedule d cs cues b) :
    fetchesInFlight cues ≤ max 1 d.maxParallel := by
  calc fetchesInFlight cues ≤ (inFlight cues).length := List.countP_le_length
    _ = b.flights.length := by rw [hs.inFlight_perm.length_eq, List.length_map]
    _ ≤ b.active := b.length_flights_le
    _ ≤ Board.places d := hs.active_le
    _ = max 1 d.maxParallel := Nat.max_comm _ _

/-- **The work of one candidate never overlaps.** -/
theorem Schedule.apart (hs : Schedule d cs cues b) : Apart cues := by
  rw [Apart, (hs.inFlight_perm.map Prod.fst).nodup_iff, List.map_map]
  exact b.nodup_flights

/-- When all candidates are finished, nothing is in flight. -/
theorem Schedule.inFlight_eq_nil (hs : Schedule d cs cues b) (hfinished : b.Finished) :
    inFlight cues = [] := by
  have hnone : b.flights = [] := by
    refine List.eq_nil_iff_forall_not_mem.mpr fun f hf => ?_
    obtain ⟨outcome, heq⟩ := hfinished _ (List.mem_of_getElem? (Board.mem_flights.mp hf))
    cases heq
  have hperm := hs.inFlight_perm
  rw [hnone] at hperm
  exact hperm.eq_nil

/-- When all candidates are finished, each has been attempted. -/
theorem Schedule.attempted (hs : Schedule d cs cues b) (hfinished : b.Finished)
    (hi : cs[i]? = some c) : Attempted d cues i c := by
  rw [← hs.map_fst, List.getElem?_map, Option.map_eq_some_iff] at hi
  obtain ⟨⟨c, s⟩, hentry, rfl⟩ := hi
  obtain ⟨outcome, rfl⟩ := hfinished _ (List.mem_of_getElem? hentry)
  exact hs.launch_fetch_mem hentry

/-- **Fetches side by side.** In whichever order work begins and is done, and with whatever results,
there are never more fetches in flight than are allowed, and never two of one candidate. When all
candidates are finished nothing is in flight any more, and each has been attempted. So it is of the
loop at each moment, and at its end. -/
theorem concurrency (d : DownloadConfig) (cs : List Candidate) :
    (∀ (cues : List Cue) (b : Board), Schedule d cs cues b →
      fetchesInFlight cues ≤ max 1 d.maxParallel ∧ Apart cues ∧
        (b.Finished → inFlight cues = [] ∧
          ∀ (i : Nat) (c : Candidate), cs[i]? = some c → Attempted d cues i c)) ∧
    (∀ (h : History), (all d cs).Begins h → ∀ cues, cues <+: h.cues →
      fetchesInFlight cues ≤ max 1 d.maxParallel ∧ Apart cues) ∧
    ∀ (h : History) (report : Report), (all d cs).Leads h report →
      inFlight h.cues = [] ∧
        ∀ (i : Nat) (c : Candidate), cs[i]? = some c → Attempted d h.cues i c := by
  refine ⟨fun cues b hs => ?_, fun h hb cues hbefore => ?_, fun h report hl => ?_⟩
  · exact ⟨hs.fetchesInFlight_le, hs.apart, fun hfinished =>
      ⟨hs.inFlight_eq_nil hfinished, fun i c => hs.attempted hfinished⟩⟩
  · obtain ⟨b, hs⟩ := schedule_of_begins hb hbefore
    exact ⟨hs.fetchesInFlight_le, hs.apart⟩
  · obtain ⟨b, hs, hfinished, -⟩ := schedule_of_leads hl
    exact ⟨hs.inFlight_eq_nil hfinished, fun i c => hs.attempted hfinished⟩

/-- A candidate of a name. -/
def anyone (name : String) : Candidate where
  name := name
  arch := "x86_64"
  oldVersion := none
  newVersion := "1-1"
  repo := "updates"
  advisory := none
  location := none
  checksum := none

/-- Three candidates. -/
def three : List Candidate := [anyone "a", anyone "b", anyone "c"]

/-- Two places. -/
def cramped : DownloadConfig := { maxParallel := 2 }

/-- The fetch of a candidate begins, and takes some time. -/
def setOut (i : Nat) (c : Candidate) : Event :=
  ⟨.begin i (.fetch c cramped.cacheDir (Task.limit cramped)), none, false, false⟩

/-- The bound is met: of three candidates two are fetched at a time, if so many places there are.
They need not be the first two, though for the loop they are, and it ends with none in flight. -/
theorem concurrency_crowded :
    (∃ cues b, Schedule cramped three cues b ∧ fetchesInFlight cues = 2 ∧
      fetchesInFlight cues ≤ max 1 2 ∧ Apart cues) ∧
    ∃ h h' report, (all cramped three).Begins h ∧ fetchesInFlight h.cues = 2 ∧
      fetchesInFlight h.cues ≤ max 1 2 ∧ (all cramped three).Leads (h ++ h') report ∧
        inFlight (h ++ h').cues = [] := by
  obtain ⟨hschedules, hbegins, hleads⟩ := concurrency cramped three
  constructor
  · have hstart : Schedule cramped three [] _ := .start
    have hadmitted := hstart.on (.admitted (i := 2) (c := anyone "c") rfl (by decide))
    have hbegun := (hadmitted.on (.admitted (i := 0) (c := anyone "a") rfl (by decide))).on
      (.begun (i := 2) (c := anyone "c") (t := .fetching 1) rfl)
    have hschedule := hbegun.on (.begun (i := 0) (c := anyone "a") (t := .fetching 1) rfl)
    obtain ⟨hle, hapart, -⟩ := hschedules _ _ hschedule
    exact ⟨_, _, hschedule, by decide, hle, hapart⟩
  · have hb : (all cramped three).Begins [setOut 0 (anyone "a"), setOut 1 (anyone "b")] :=
      ⟨_, rfl, _, rfl, trivial⟩
    obtain ⟨h', report, hl⟩ := hb.exists_leads
    exact ⟨_, h', report, hb, by decide, (hbegins _ hb _ (List.prefix_refl _)).1, hl,
      (hleads _ _ hl).1⟩

end Download

end Upkeep
