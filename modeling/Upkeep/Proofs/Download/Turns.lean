import Upkeep.Download.Stage
import Upkeep.Proofs.History

/-!
# The turns of the downloads

`Download.turns` is a loop over a board, and which board comes next is up to the world. Here it is
taken apart once: `Turn` is one turn with the history it leaves, `Turns` is a run of them, and
`leads_turns` says that the loop is nothing else. Every property of the downloads is then a
property that each turn keeps.

## Why the downloads come to an end

A turn that begins, admits or lands something leaves less to do. `Task.work` counts the turns that
a task can still take, with every attempt it has left. The count is right only while a task keeps
to its limit of attempts (`Task.Timely`), which is an invariant of its own. `enough` is above the
count of a board that starts, so the loop ends because nothing is left to do and not because it
ran out of turns.

## Main definitions

* `Settled`, `Event.settled?`: the piece of work that an answer settles.
* `Turn`, `Turns`.
* `Board.Still`, `Board.Finished`, `Board.Orderly`.

## Main results

* `Turn.work_lt`: a turn leaves less to do.
* `Board.Orderly.move`, `Board.Orderly.admitted`: where there is one place, candidates are done one
  by one.
* `leads_turns`: the loop takes turns, to a still board or to its last turn.
* `leads_all`: all downloads are taken to their ends.
-/

namespace Upkeep

/-! ### Settled work -/

/-- A piece of work that is done. -/
structure Settled where
  /-- The index of the candidate. -/
  index : Nat
  /-- The piece of work. -/
  job : Job
  /-- What came of it. -/
  result : job.Result

/-- The piece of work that was done first. -/
def Landing.settled : (first : Nat × Job) → (rest : List (Nat × Job)) →
    Landing first rest → Settled
  | first, [], r => ⟨first.1, first.2, r⟩
  | first, _ :: _, .inl r => ⟨first.1, first.2, r⟩
  | _, next :: rest, .inr landing => Landing.settled next rest landing

/-- The piece of work that an answer settles. -/
def Event.settled? : Event → Option Settled
  | ⟨.begin index job, answer⟩ => answer.value.map fun r => ⟨index, job, r⟩
  | ⟨.await first rest, answer⟩ => some (Landing.settled first rest answer.value)
  | _ => none

namespace Download

variable {d : DownloadConfig}

namespace Flight

/-- What a flight settles when its result is there. -/
def settle (d : DownloadConfig) (f : Flight) (r : (f.piece d).2.Result) : Settled :=
  ⟨f.index, f.task.job d f.candidate, r⟩

/-- Whichever flight lands, it goes on from its own result. -/
theorem land_settled (first : Flight) (rest : List Flight)
    (landing : Landing (first.piece d) (rest.map (piece d))) :
    ∃ f ∈ first :: rest, ∃ r, Landing.settled _ _ landing = f.settle d r ∧
      land d first rest landing = f.advance d r := by
  induction rest generalizing first with
  | nil => exact ⟨first, List.mem_cons_self, landing, rfl, rfl⟩
  | cons next rest ih =>
    cases landing with
    | inl r => exact ⟨first, List.mem_cons_self, r, rfl, rfl⟩
    | inr landing =>
      obtain ⟨f, hf, r, hs, hl⟩ := ih next landing
      exact ⟨f, List.mem_cons_of_mem _ hf, r, hs, hl⟩

end Flight

/-! ### Looking at a board -/

namespace Board

variable {b : Board}

theorem mem_indexed {i : Nat} {c : Candidate} {s : Standing} :
    (i, c, s) ∈ b.indexed ↔ b[i]? = some (c, s) := by
  rw [indexed, List.mem_map]
  constructor
  · rintro ⟨⟨e, j⟩, hmem, heq⟩
    cases heq
    exact List.mk_mem_zipIdx_iff_getElem?.mp hmem
  · intro h
    exact ⟨((c, s), i), List.mk_mem_zipIdx_iff_getElem?.mpr h, rfl⟩

theorem due?_eq_some {f : Flight} (h : b.due? = some f) :
    b[f.index]? = some (f.candidate, .ready f.task) := by
  obtain ⟨⟨i, c, s⟩, hmem, heq⟩ := List.exists_of_findSome?_eq_some h
  cases s <;> cases heq
  exact mem_indexed.mp hmem

theorem due?_eq_none (h : b.due? = none) {i : Nat} {c : Candidate} {t : Task} :
    b[i]? ≠ some (c, .ready t) := by
  intro hb
  have := List.findSome?_eq_none_iff.mp h _ (mem_indexed.mpr hb)
  simp at this

theorem queued?_eq_some {i : Nat} {c : Candidate} (h : b.queued? = some (i, c)) :
    b[i]? = some (c, .queued) := by
  obtain ⟨⟨i, c, s⟩, hmem, heq⟩ := List.exists_of_findSome?_eq_some h
  cases s <;> cases heq
  exact mem_indexed.mp hmem

theorem queued?_eq_none (h : b.queued? = none) {i : Nat} {c : Candidate} :
    b[i]? ≠ some (c, .queued) := by
  intro hb
  have := List.findSome?_eq_none_iff.mp h _ (mem_indexed.mpr hb)
  simp at this

/-- Whoever comes before the next candidate has been admitted. -/
theorem ne_queued_of_queued? {i k : Nat} {c c' : Candidate} (h : b.queued? = some (i, c))
    (hki : k < i) : b[k]? ≠ some (c', .queued) := by
  have hindexed : ∀ n : Nat, b.indexed[n]? = (b[n]?).map fun e => (n, e) := by
    intro n
    simp [indexed, List.getElem?_map, List.getElem?_zipIdx, Function.comp_def]
  obtain ⟨front, ⟨j, c₀, s₀⟩, back, hsplit, hfirst, hnone⟩ := List.findSome?_eq_some_iff.mp h
  obtain rfl : j = i := by cases s₀ <;> cases hfirst; rfl
  have hlength : front.length = j := by
    have hat : b.indexed[front.length]? = some (j, c₀, s₀) := by simp [hsplit]
    rw [hindexed] at hat
    obtain ⟨e, -, heq⟩ := Option.map_eq_some_iff.mp hat
    exact congrArg Prod.fst heq
  intro hk
  have hat : b.indexed[k]? = some (k, c', .queued) := by rw [hindexed, hk]; rfl
  rw [hsplit, List.getElem?_append_left (hlength ▸ hki)] at hat
  cases hnone _ (List.mem_of_getElem? hat)

theorem admissible?_eq_some {i : Nat} {c : Candidate} (h : b.admissible? d = some (i, c)) :
    b[i]? = some (c, .queued) ∧ b.active < places d := by
  rw [admissible?] at h
  split at h
  · exact ⟨queued?_eq_some h, ‹_›⟩
  · cases h

theorem mem_flights {f : Flight} :
    f ∈ b.flights ↔ b[f.index]? = some (f.candidate, .flying f.task) := by
  rw [flights, List.mem_filterMap]
  constructor
  · rintro ⟨⟨i, c, s⟩, hmem, heq⟩
    cases s <;> cases heq
    exact mem_indexed.mp hmem
  · intro h
    exact ⟨(f.index, f.candidate, .flying f.task), mem_indexed.mpr h, rfl⟩

/-- Nothing is due, nobody can be admitted, and nothing is in flight. -/
def Still (d : DownloadConfig) (b : Board) : Prop :=
  b.due? = none ∧ b.admissible? d = none ∧ b.flights = []

/-- Every candidate is finished. -/
def Finished (b : Board) : Prop := ∀ e ∈ b, ∃ outcome, e.2 = .finished outcome

/-- On a board that is still nobody waits to be admitted: there is a place for him. -/
theorem Still.finished (h : b.Still d) : b.Finished := by
  obtain ⟨hdue, hadm, hfly⟩ := h
  have hquiet : ∀ e ∈ b, e.2.isActive = false := by
    rintro ⟨c, s⟩ he
    obtain ⟨i, hi⟩ := List.mem_iff_getElem?.mp he
    cases s with
    | queued => rfl
    | ready t => exact absurd hi (due?_eq_none hdue)
    | flying t =>
      have : (⟨i, c, t⟩ : Flight) ∈ b.flights := mem_flights.mpr hi
      rw [hfly] at this
      cases this
    | finished o => rfl
  have hactive : b.active = 0 := by
    rw [active, List.countP_eq_zero]
    intro e he
    simp [hquiet e he]
  have hplace : b.active < places d := by
    rw [hactive, places]
    omega
  rw [admissible?, if_pos hplace] at hadm
  rintro ⟨c, s⟩ he
  obtain ⟨i, hi⟩ := List.mem_iff_getElem?.mp he
  cases s with
  | queued => exact absurd hi (queued?_eq_none hadm)
  | ready t => simpa [Standing.isActive] using hquiet _ he
  | flying t => simpa [Standing.isActive] using hquiet _ he
  | finished o => exact ⟨o, rfl⟩

/-- Where only one candidate holds a place, no more than one place is held. -/
theorem active_le_one {i : Nat}
    (h : ∀ (k : Nat) (c : Candidate) (s : Standing), b[k]? = some (c, s) → s.isActive = true →
      k = i) : b.active ≤ 1 := by
  induction b generalizing i with
  | nil => exact Nat.zero_le 1
  | cons e b ih =>
    rw [active, List.countP_cons]
    cases i with
    | zero =>
      have hrest : active b = 0 := by
        refine List.countP_eq_zero.mpr fun e' he' hactive => ?_
        obtain ⟨k, hk⟩ := List.mem_iff_getElem?.mp he'
        cases h (k + 1) e'.1 e'.2 hk hactive
      rw [active] at hrest
      split <;> omega
    | succ i =>
      have hfirst : e.2.isActive = false := by
        rw [Bool.eq_false_iff]
        intro hactive
        cases h 0 e.1 e.2 rfl hactive
      have hrest : active b ≤ 1 := ih fun k c s hk hactive =>
        Nat.succ.inj (h (k + 1) c s hk hactive)
      rw [hfirst]
      exact hrest

theorem map_fst_start (cs : List Candidate) : (start cs).map Prod.fst = cs := by
  rw [start, List.map_map]
  exact List.map_id cs

/-- Everyone on a board that starts is queued. -/
theorem eq_queued_of_start {cs : List Candidate} {i : Nat} {c : Candidate} {s : Standing}
    (h : (start cs)[i]? = some (c, s)) : s = .queued := by
  obtain ⟨c', -, heq⟩ := List.mem_map.mp (List.mem_of_getElem? h)
  cases heq
  rfl

theorem map_fst_move {i : Nat} {c : Candidate} {s s' : Standing} (h : b[i]? = some (c, s)) :
    (b.move (i, c, s')).map Prod.fst = b.map Prod.fst := by
  obtain ⟨hi, he⟩ := List.getElem?_eq_some_iff.mp h
  have hi' : i < (b.map Prod.fst).length := by simpa using hi
  have hc : (b.map Prod.fst)[i] = c := by rw [List.getElem_map, he]
  change (b.set i (c, s')).map Prod.fst = _
  rw [List.map_set, ← hc, List.set_getElem_self]

theorem getElem?_move {i j : Nat} {c : Candidate} {s s' : Standing} (h : b[i]? = some (c, s)) :
    (b.move (i, c, s'))[j]? = if i = j then some (c, s') else b[j]? := by
  obtain ⟨hi, -⟩ := List.getElem?_eq_some_iff.mp h
  change (b.set i (c, s'))[j]? = _
  rw [List.getElem?_set]
  by_cases hij : i = j
  · rw [if_pos hij, if_pos hij, if_pos (hij ▸ hi)]
  · rw [if_neg hij, if_neg hij]

theorem getElem?_move_self {i : Nat} {c : Candidate} {s : Standing} (h : b[i]? = some (c, s))
    (s' : Standing) : (b.move (i, c, s'))[i]? = some (c, s') := by
  rw [getElem?_move h, if_pos rfl]

/-- Where a candidate stands once one has moved: it is that one, or it stands where it stood. -/
theorem getElem?_move_eq_some {i j : Nat} {c c' : Candidate} {s s' s'' : Standing}
    (h : b[i]? = some (c, s)) (hj : (b.move (i, c, s'))[j]? = some (c', s'')) :
    (j = i ∧ c' = c ∧ s'' = s') ∨ (j ≠ i ∧ b[j]? = some (c', s'')) := by
  rw [getElem?_move h] at hj
  split at hj
  · rename_i hij
    obtain ⟨hc, hs⟩ := Prod.mk.inj (Option.some.inj hj)
    exact Or.inl ⟨hij.symm, hc.symm, hs.symm⟩
  · rename_i hij
    exact Or.inr ⟨Ne.symm hij, hj⟩

end Board

/-! ### What is left to do -/

section Advance

variable {c : Candidate} {attempt : Nat} {path reason : String} {expected : Checksum}

@[simp] theorem Task.advance_fetched :
    advance d c (.fetching attempt) (.inTime (.ok path)) = afterArrival c attempt path := rfl

@[simp] theorem Task.advance_refused {e : FetchError} :
    advance d c (.fetching attempt) (.inTime (.error e)) = afterFailure d attempt e := rfl

@[simp] theorem Task.advance_expired :
    advance d c (.fetching attempt) .expired =
      afterFailure d attempt (.transient (timedOut (limit d))) := rfl

@[simp] theorem Task.advance_resting (r : ((resting attempt).job d c).Result) :
    advance d c (.resting attempt) r = .more (.fetching (attempt + 1)) := rfl

@[simp] theorem Task.advance_checking (r : ((checking attempt path expected).job d c).Result) :
    advance d c (.checking attempt path expected) r = afterCheck attempt path expected r := rfl

@[simp] theorem Task.advance_discarding (r : ((discarding attempt path reason).job d c).Result) :
    advance d c (.discarding attempt path reason) r = .finished (.error ⟨reason, attempt⟩) := rfl

end Advance

/-- A task that keeps to its limit of attempts: a rest is followed by one that is allowed. -/
def Task.Timely (d : DownloadConfig) : Task → Prop
  | .fetching attempt => attempt ≤ mostAttempts d
  | .resting attempt => attempt < mostAttempts d
  | _ => True

/-- The turns that a task can still take, once it is ready: a fetch, a rest, a check and a removal
take two turns each, one to begin and one to land. -/
def Task.work (d : DownloadConfig) : Task → Nat
  | .fetching attempt => 4 * (mostAttempts d - attempt) + 6
  | .resting attempt => 4 * (mostAttempts d - attempt) + 4
  | .checking .. => 4
  | .discarding .. => 2

namespace Standing

/-- A candidate's task keeps to its limit of attempts. -/
def Timely (d : DownloadConfig) : Standing → Prop
  | .ready t | .flying t => t.Timely d
  | _ => True

/-- The turns that a candidate can still take. -/
def work (d : DownloadConfig) : Standing → Nat
  | .queued => 4 * Task.mostAttempts d + 3
  | .ready t => t.work d
  | .flying t => t.work d - 1
  | .finished _ => 0

end Standing

/-- Any piece of work that comes back leaves a task that still keeps to its limit, and less to do
than there was even while that piece was in flight. -/
theorem Task.advance_spec {c : Candidate} {t : Task} (ht : t.Timely d)
    (r : (t.job d c).Result) :
    (Standing.after (t.advance d c r)).Timely d ∧
      (Standing.after (t.advance d c r)).work d + 1 < t.work d := by
  cases t with
  | fetching attempt =>
    have hfailure : ∀ e, (Standing.after (afterFailure d attempt e)).Timely d ∧
        (Standing.after (afterFailure d attempt e)).work d + 1 <
          (Task.fetching attempt).work d := by
      intro e
      rw [afterFailure]
      split
      · rename_i hmore
        have hlt : attempt < mostAttempts d := by simpa using (Bool.and_eq_true_iff.mp hmore).2
        exact ⟨hlt, by simp only [Standing.after, Standing.work, work]; omega⟩
      · exact ⟨trivial, by simp only [Standing.after, Standing.work, work]; omega⟩
    rcases r with (e | path) | _
    · exact hfailure e
    · rw [advance_fetched, afterArrival]
      cases c.checksum with
      | none => exact ⟨trivial, by simp only [Standing.after, Standing.work, work]; omega⟩
      | some expected => exact ⟨trivial, by simp only [Standing.after, Standing.work, work]; omega⟩
    · exact hfailure _
  | resting attempt =>
    have hlt : attempt < mostAttempts d := ht
    rw [advance_resting]
    exact ⟨hlt, by simp only [Standing.after, Standing.work, work]; omega⟩
  | checking attempt path expected =>
    rw [advance_checking]
    cases r with
    | error cause => exact ⟨trivial, by simp [afterCheck, Standing.after, Standing.work, work]⟩
    | ok digest =>
      rw [afterCheck]
      split
      · exact ⟨trivial, by simp [Standing.after, Standing.work, work]⟩
      · exact ⟨trivial, by simp [Standing.after, Standing.work, work]⟩
  | discarding attempt path reason =>
    rw [advance_discarding]
    exact ⟨trivial, by simp [Standing.after, Standing.work, work]⟩

namespace Board

variable {b : Board}

/-- Every candidate's task keeps to its limit of attempts. -/
def Timely (d : DownloadConfig) (b : Board) : Prop := ∀ e ∈ b, e.2.Timely d

/-- The turns that the candidates can still take. -/
def work (d : DownloadConfig) : Board → Nat
  | [] => 0
  | e :: b => e.2.work d + work d b

theorem Timely.getElem? {i : Nat} {c : Candidate} {s : Standing} (hb : b.Timely d)
    (h : b[i]? = some (c, s)) : s.Timely d :=
  hb _ (List.mem_of_getElem? h)

theorem Timely.move {i : Nat} {c : Candidate} {s : Standing} (hb : b.Timely d)
    (hs : s.Timely d) : (b.move (i, c, s)).Timely d := by
  intro e he
  rcases List.mem_or_eq_of_mem_set he with hmem | rfl
  · exact hb e hmem
  · exact hs

/-- A candidate that moves changes only its own share. -/
theorem work_move (d : DownloadConfig) {i : Nat} {c : Candidate} {s : Standing} (s' : Standing)
    (h : b[i]? = some (c, s)) :
    (b.move (i, c, s')).work d + s.work d = b.work d + s'.work d := by
  change work d (b.set i (c, s')) + _ = _
  induction b generalizing i with
  | nil => simp at h
  | cons e b ih =>
    cases i with
    | zero =>
      obtain rfl : e = (c, s) := by simpa using h
      simp only [work, List.set_cons_zero]
      omega
    | succ i =>
      have := ih (i := i) (by simpa using h)
      simp only [work, List.set_cons_succ] at this ⊢
      omega

theorem timely_start (cs : List Candidate) : (start cs).Timely d := by
  intro e he
  obtain ⟨c, -, rfl⟩ := List.mem_map.mp he
  exact trivial

/-- What is there to do at first is less than the turns that are allowed. -/
theorem work_start_lt (cs : List Candidate) : (start cs).work d < enough d cs.length := by
  have hwork : ∀ cs : List Candidate,
      (start cs).work d = cs.length * (4 * Task.mostAttempts d + 3) := by
    intro cs
    induction cs with
    | nil => simp [start, work]
    | cons c cs ih =>
      have hcons : (start (c :: cs)).work d = (4 * Task.mostAttempts d + 3) + (start cs).work d :=
        rfl
      rw [hcons, ih, List.length_cons, Nat.succ_mul cs.length, Nat.add_comm]
  have hle : cs.length * (4 * Task.mostAttempts d + 3)
      ≤ cs.length * (4 * Task.mostAttempts d + 6) := Nat.mul_le_mul_left _ (by omega)
  rw [hwork, enough]
  omega

end Board

/-! ### Turns -/

/-- One turn, and what it leaves of history. A piece of work that is due begins, and may be done
at once; else the next candidate is admitted; else one of the flights lands. -/
inductive Turn (d : DownloadConfig) : Board → History → Board → Prop
  /-- A piece of work has begun and is in flight. -/
  | launched {b : Board} {f : Flight} (due : b.due? = some f)
      (answer : Answer (Request.begin f.index (f.task.job d f.candidate)).Reply)
      (aloft : answer.value = none) :
      Turn d b [⟨.begin f.index (f.task.job d f.candidate), answer⟩]
        (b.move (f.index, f.candidate, .flying f.task))
  /-- A piece of work was done as soon as it had begun. -/
  | instant {b : Board} {f : Flight} (due : b.due? = some f)
      (answer : Answer (Request.begin f.index (f.task.job d f.candidate)).Reply)
      {r : (f.piece d).2.Result} (done : answer.value = some r) :
      Turn d b [⟨.begin f.index (f.task.job d f.candidate), answer⟩] (b.move (f.advance d r))
  /-- A candidate has been admitted. -/
  | admitted {b : Board} {i : Nat} {c : Candidate} (due : b.due? = none)
      (next : b.admissible? d = some (i, c)) :
      Turn d b [] (b.move (i, c, .ready (.fetching 1)))
  /-- A piece of work in flight was done. -/
  | landed {b : Board} {first : Flight} {rest : List Flight} (due : b.due? = none)
      (next : b.admissible? d = none) (flights : b.flights = first :: rest)
      (answer : Answer (Request.await (first.piece d) (rest.map (Flight.piece d))).Reply)
      {f : Flight} (flying : f ∈ b.flights) {r : (f.piece d).2.Result}
      (done : Landing.settled _ _ answer.value = f.settle d r) :
      Turn d b [⟨.await (first.piece d) (rest.map (Flight.piece d)), answer⟩]
        (b.move (f.advance d r))

/-- Turns, one after the other. -/
inductive Turns (d : DownloadConfig) : Board → History → Board → Prop
  /-- No turn. -/
  | none {b : Board} : Turns d b [] b
  /-- A first turn, and others. -/
  | more {b b' b'' : Board} {h h' : History} (first : Turn d b h b') (others : Turns d b' h' b'') :
      Turns d b (h ++ h') b''

variable {b b' : Board} {h : History}

/-- A turn moves one candidate from where it stands. -/
theorem Turn.moves (ht : Turn d b h b') :
    ∃ i c s s', b[i]? = some (c, s) ∧ b' = b.move (i, c, s') ∧ (s.Timely d → s'.Timely d) ∧
      (s.Timely d → s'.work d < s.work d) := by
  cases ht with
  | launched due answer aloft =>
    rename_i f
    refine ⟨_, _, _, _, Board.due?_eq_some due, rfl, id, fun _ => ?_⟩
    have : 0 < f.task.work d := by cases f.task <;> simp [Task.work]
    simp only [Standing.work]
    omega
  | instant due answer done =>
    rename_i f r
    refine ⟨_, _, _, _, Board.due?_eq_some due, rfl, fun hs => (Task.advance_spec hs r).1,
      fun hs => ?_⟩
    have := (Task.advance_spec hs r).2
    simp only [Standing.work] at this ⊢
    omega
  | admitted due next =>
    refine ⟨_, _, _, _, (Board.admissible?_eq_some next).1, rfl, fun _ => ?_, fun _ => ?_⟩
    · show 1 ≤ Task.mostAttempts d
      rw [Task.mostAttempts]
      omega
    · simp only [Standing.work, Task.work, Task.mostAttempts]
      omega
  | landed due next flights answer flying done =>
    rename_i first rest f r
    refine ⟨_, _, _, _, Board.mem_flights.mp flying, rfl, fun hs => (Task.advance_spec hs r).1,
      fun hs => ?_⟩
    have := (Task.advance_spec hs r).2
    simp only [Standing.work] at this ⊢
    omega

theorem Turn.map_fst (ht : Turn d b h b') : b'.map Prod.fst = b.map Prod.fst := by
  obtain ⟨i, c, s, s', hb, rfl, -, -⟩ := ht.moves
  exact Board.map_fst_move hb

theorem Turn.timely (ht : Turn d b h b') (hb : b.Timely d) : b'.Timely d := by
  obtain ⟨i, c, s, s', hi, rfl, hs, -⟩ := ht.moves
  exact hb.move (hs (hb.getElem? hi))

/-- **A turn leaves less to do.** -/
theorem Turn.work_lt (ht : Turn d b h b') (hb : b.Timely d) : b'.work d < b.work d := by
  obtain ⟨i, c, s, s', hi, rfl, -, hs⟩ := ht.moves
  have hmove := Board.work_move d s' hi
  have hless := hs (hb.getElem? hi)
  omega

theorem Turns.map_fst (ht : Turns d b h b') : b'.map Prod.fst = b.map Prod.fst := by
  induction ht with
  | none => rfl
  | more first _ ih => rw [ih, first.map_fst]

/-- Where there is one place, a candidate is admitted when all before it are finished. -/
def Board.Orderly (d : DownloadConfig) (b : Board) : Prop :=
  places d = 1 → ∀ (k l : Nat) (c : Candidate) (s : Standing), k < l →
    b[l]? = some (c, s) → s ≠ .queued → ∃ c' outcome, b[k]? = some (c', .finished outcome)

theorem Board.orderly_start (cs : List Candidate) : (start cs).Orderly d := by
  intro _ k l c s _ hl hs
  exact absurd (eq_queued_of_start hl) hs

/-- Whoever holds the place may go on: nobody after it has been admitted. -/
theorem Board.Orderly.move {i : Nat} {c : Candidate} {s : Standing} (hb : b.Orderly d)
    (hi : b[i]? = some (c, s)) (hactive : s.isActive = true) (s' : Standing) :
    (b.move (i, c, s')).Orderly d := by
  intro hplaces k l c' s'' hkl hl hs
  rw [getElem?_move hi] at hl ⊢
  by_cases hik : i = k
  · subst hik
    rw [if_neg (Nat.ne_of_lt hkl)] at hl
    obtain ⟨c₀, outcome, h₀⟩ := hb hplaces i l c' s'' hkl hl hs
    rw [hi] at h₀
    cases h₀
    cases hactive
  · rw [if_neg hik]
    by_cases hil : i = l
    · subst hil
      refine hb hplaces k i c s hkl hi ?_
      rintro rfl
      cases hactive
    · rw [if_neg hil] at hl
      exact hb hplaces k l c' s'' hkl hl hs

/-- While nobody holds the place, whoever comes before the next candidate is finished. -/
theorem Board.Orderly.admitted {i : Nat} {c : Candidate} (hb : b.Orderly d)
    (hnext : b.admissible? d = some (i, c)) (t : Task) :
    (b.move (i, c, .ready t)).Orderly d := by
  intro hplaces k l c' s hkl hl hs
  obtain ⟨hi, hactive⟩ := admissible?_eq_some hnext
  have hidle : ∀ e ∈ b, e.2.isActive = false := by
    have hnone : b.active = 0 := by omega
    intro e he
    simpa using List.countP_eq_zero.mp hnone e he
  rw [getElem?_move hi] at hl ⊢
  by_cases hil : i = l
  · subst hil
    obtain ⟨hlength, -⟩ := List.getElem?_eq_some_iff.mp hi
    obtain ⟨⟨c₀, s₀⟩, hk⟩ : ∃ e, b[k]? = some e := ⟨_, List.getElem?_eq_getElem (by omega)⟩
    have hs₀ := hidle _ (List.mem_of_getElem? hk)
    rw [if_neg (Nat.ne_of_gt hkl), hk]
    rw [admissible?, if_pos hactive] at hnext
    cases s₀ with
    | queued => exact absurd hk (ne_queued_of_queued? hnext hkl)
    | ready t => cases hs₀
    | flying t => cases hs₀
    | finished outcome => exact ⟨c₀, outcome, rfl⟩
  · rw [if_neg hil] at hl
    obtain ⟨c₀, outcome, hk⟩ := hb hplaces k l c' s hkl hl hs
    rw [if_neg, hk]
    · exact ⟨c₀, outcome, rfl⟩
    · rintro rfl
      rw [hi] at hk
      cases hk

/-- What every turn keeps, all of them keep. -/
theorem Turns.preserves (Inv : History → Board → Prop)
    (hturn : ∀ {h₀ b h b'}, Turn d b h b' → Inv h₀ b → Inv (h₀ ++ h) b')
    (ht : Turns d b h b') : ∀ h₀, Inv h₀ b → Inv (h₀ ++ h) b' := by
  induction ht with
  | none =>
    intro h₀ hb
    simpa using hb
  | more first _ ih =>
    intro h₀ hb
    rw [← List.append_assoc]
    exact ih _ (hturn first hb)

/-- **The loop takes turns.** It ends on a board that is still, or each of its turns has left
less to do. -/
theorem leads_turns {most : Nat} (hl : (turns d most b).Leads h b') (hb : b.Timely d) :
    Turns d b h b' ∧ (b'.Still d ∨ b'.work d + most ≤ b.work d) := by
  induction most generalizing b h with
  | zero =>
    obtain ⟨rfl, rfl⟩ := hl
    exact ⟨.none, Or.inr (by omega)⟩
  | succ most ih =>
    have hcons : ∀ {h₁ h₂ : History} {b₁ : Board}, Turn d b h₁ b₁ →
        (turns d most b₁).Leads h₂ b' →
        Turns d b (h₁ ++ h₂) b' ∧ (b'.Still d ∨ b'.work d + (most + 1) ≤ b.work d) := by
      intro h₁ h₂ b₁ hturn hrest
      obtain ⟨hturns, hend⟩ := ih hrest (hturn.timely hb)
      refine ⟨.more hturn hturns, hend.imp_right fun hle => ?_⟩
      have := hturn.work_lt hb
      omega
    rw [turns] at hl
    cases hdue : b.due? with
    | some f =>
      rw [hdue] at hl
      obtain ⟨⟨value, waited, cancelled⟩, rest, rfl, hrest⟩ := hl
      cases value with
      | none => exact hcons (.launched hdue ⟨none, waited, cancelled⟩ rfl) hrest
      | some r => exact hcons (.instant hdue ⟨some r, waited, cancelled⟩ rfl) hrest
    | none =>
      rw [hdue] at hl
      cases hadm : b.admissible? d with
      | some entry =>
        rw [hadm] at hl
        exact hcons (.admitted hdue hadm) hl
      | none =>
        rw [hadm] at hl
        dsimp only at hl
        rw [Board.wait] at hl
        cases hfly : b.flights with
        | nil =>
          rw [hfly] at hl
          obtain ⟨rfl, rfl⟩ := hl
          exact ⟨.none, Or.inl ⟨hdue, hadm, hfly⟩⟩
        | cons first others =>
          rw [hfly] at hl
          obtain ⟨answer, rest, rfl, hrest⟩ := hl
          obtain ⟨f, hf, r, hs, hland⟩ := Flight.land_settled first others answer.value
          dsimp only at hrest
          rw [hland] at hrest
          exact hcons (.landed hdue hadm hfly answer (hfly ▸ hf) hs) hrest

/-- **All downloads are taken to their ends**, whatever the world answers and in whichever order
their pieces of work are done. -/
theorem leads_all {cs : List Candidate} {report : Report} (hl : (all d cs).Leads h report) :
    ∃ b, Turns d (Board.start cs) h b ∧ b.Finished ∧ b.map Prod.fst = cs ∧
      report = Report.ofBoard b := by
  obtain ⟨h₁, b, h₂, rfl, hturns, rfl, rfl⟩ := Program.leads_bind.mp hl
  obtain ⟨hturns, hend⟩ := leads_turns hturns (Board.timely_start cs)
  have hstill : b.Still d := by
    refine hend.resolve_right fun hle => ?_
    have := Board.work_start_lt (d := d) cs
    omega
  refine ⟨b, by simpa using hturns, hstill.finished, ?_, rfl⟩
  rw [hturns.map_fst, Board.map_fst_start]

/-- Nobody is finished before anything has been asked for. -/
theorem leads_all_nil {cs : List Candidate} {report : Report}
    (hl : (all d cs).Leads [] report) : cs = [] := by
  obtain ⟨b, hturns, hfinished, hcs, -⟩ := leads_all hl
  have hopen : ([] : History) = [] → ∀ e ∈ b, ∀ outcome, e.2 ≠ .finished outcome := by
    refine hturns.preserves (fun h b => h = [] → ∀ e ∈ b, ∀ outcome, e.2 ≠ .finished outcome)
      ?_ [] ?_
    · intro h₀ b h b' hturn hb hnil
      obtain ⟨rfl, rfl⟩ := List.append_eq_nil_iff.mp hnil
      cases hturn with
      | admitted due next =>
        intro e he
        rcases List.mem_or_eq_of_mem_set he with hmem | rfl
        · exact hb rfl e hmem
        · exact fun outcome => (by simp)
    · intro _ e he
      obtain ⟨c, -, rfl⟩ := List.mem_map.mp he
      exact fun outcome => (by simp)
  cases b with
  | nil => exact hcs.symm
  | cons e b =>
    obtain ⟨outcome, houtcome⟩ := hfinished e List.mem_cons_self
    exact absurd houtcome (hopen rfl e List.mem_cons_self outcome)

end Download

end Upkeep
