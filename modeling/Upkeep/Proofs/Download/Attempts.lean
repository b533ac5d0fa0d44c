import Upkeep.Proofs.Download.Turns

/-!
# The attempts of a download

What comes of the fetches of one candidate decides how many there are. A fetch that fails in
passing is followed by another one as long as that is allowed, and so is one that never comes back
and is given up on: nothing distinguishes the two but the text of the reason. Any other fetch is the
last one.

The history retains every attempt of every candidate, in order (`History.fetches`), whatever is in
flight besides. So the statement is about the list of a candidate's attempts, and the invariant says
which lists a task may have behind it.

## Main definitions

* `History.fetches`: what came of a candidate's fetches.
* `Download.failure?`: why a fetch brought nothing.
* `Download.Tries`: what fetches come to.

## Main results

* `Download.Turn.tried`: what a turn adds to the attempts.
* `Download.leads_all_tried`: every candidate is tried as often as that may help and is allowed.
-/

namespace Upkeep

/-- What comes of a fetch. -/
abbrev Fetch := Timed (Except FetchError String)

/-- What came of the fetch, if this was one of the candidate at an index. -/
def Settled.fetch? (index : Nat) : Settled → Option Fetch
  | ⟨i, .fetch .., r⟩ => if i = index then some r else none
  | _ => none

namespace History

/-- What came of the fetches of the candidate at an index, one after the other. -/
def fetches (index : Nat) (h : History) : List Fetch :=
  h.filterMap fun e => e.settled?.bind (Settled.fetch? index)

theorem fetches_append (index : Nat) (h h' : History) :
    fetches index (h ++ h') = h.fetches index ++ fetches index h' :=
  List.filterMap_append

theorem fetches_of_settled {e : Event} {settled : Settled} (he : e.settled? = some settled)
    (index : Nat) : fetches index [e] = (settled.fetch? index).toList := by
  rw [fetches, List.filterMap_cons, he, Option.bind_some]
  cases settled.fetch? index <;> rfl

theorem fetches_of_unsettled {e : Event} (he : e.settled? = none) (index : Nat) :
    fetches index [e] = [] := by
  rw [fetches, List.filterMap_cons, he]
  rfl

end History

namespace Download

variable {d : DownloadConfig} {b b' : Board} {h : History} {results : List Fetch}

/-- Why a fetch brought no artifact. One that was given up on may be tried again. -/
def failure? (d : DownloadConfig) : Fetch → Option FetchError
  | .inTime (.ok _) => none
  | .inTime (.error e) => some e
  | .expired => some (.transient (timedOut (Task.limit d)))

/-- None of the fetches brought an artifact, but each might have if it had been tried again. -/
def Fruitless (d : DownloadConfig) (results : List Fetch) : Prop :=
  ∀ r ∈ results, ∃ e, failure? d r = some e ∧ e.isTransient = true

theorem fruitless_nil (d : DownloadConfig) : Fruitless d [] := by
  simp [Fruitless]

theorem Fruitless.concat (hf : Fruitless d results) {r : Fetch} {e : FetchError}
    (hr : failure? d r = some e) (he : e.isTransient = true) : Fruitless d (results ++ [r]) :=
  List.forall_mem_append.mpr ⟨hf, List.forall_mem_singleton.mpr ⟨e, hr, he⟩⟩

/-- The fetches brought an artifact in the end, and not before an attempt. -/
def Fruitful (d : DownloadConfig) (attempt : Nat) (results : List Fetch) : Prop :=
  ∃ before path, results = before ++ [.inTime (.ok path)] ∧ Fruitless d before ∧
    before.length + 1 = attempt ∧ attempt ≤ Task.mostAttempts d

/-- What the fetches of a candidate come to. All but the last one brought nothing and were worth
another attempt. -/
inductive Tries (d : DownloadConfig) : List Fetch → Outcome → Prop
  /-- The last one brought nothing either, and is not worth another attempt, or there is none
  left. -/
  | spent {before : List Fetch} {last : Fetch} {e : FetchError} (fruitless : Fruitless d before)
      (allowed : before.length < Task.mostAttempts d) (failed : failure? d last = some e)
      (final : e.isTransient = true → before.length + 1 = Task.mostAttempts d) :
      Tries d (before ++ [last]) (.error ⟨e.message, before.length + 1⟩)
  /-- The last one brought an artifact, which was kept. -/
  | kept {results : List Fetch} {attempt : Nat} {path : String}
      (fruitful : Fruitful d attempt results) : Tries d results (.ok path)
  /-- The last one brought an artifact, which was not kept. -/
  | discarded {results : List Fetch} {attempt : Nat} {reason : String}
      (fruitful : Fruitful d attempt results) : Tries d results (.error ⟨reason, attempt⟩)

/-- There are no more attempts than are allowed. -/
theorem Tries.length_le {outcome : Outcome} (ht : Tries d results outcome) :
    results.length ≤ Task.mostAttempts d := by
  cases ht with
  | spent fruitless allowed failed final =>
    rw [List.length_append, List.length_singleton]
    exact allowed
  | kept fruitful | discarded fruitful =>
    obtain ⟨before, path, rfl, -, rfl, hallowed⟩ := fruitful
    rw [List.length_append, List.length_singleton]
    exact hallowed

/-- A fetch that is given up on is the last one only if no more are allowed; then the candidate
has no artifact, for that reason. -/
theorem Tries.of_expired {before : List Fetch} {outcome : Outcome}
    (ht : Tries d (before ++ [.expired]) outcome) :
    before.length + 1 = Task.mostAttempts d ∧ outcome =
      .error ⟨(FetchError.transient (timedOut (Task.limit d))).message, Task.mostAttempts d⟩ := by
  generalize hresults : before ++ [Timed.expired] = results at ht
  cases ht with
  | spent fruitless allowed failed final =>
    obtain ⟨rfl, hlast⟩ := List.append_inj' hresults rfl
    obtain rfl := List.singleton_inj.mp hlast
    cases failed
    have hfinal := final rfl
    exact ⟨hfinal, by rw [hfinal]⟩
  | kept fruitful | discarded fruitful =>
    obtain ⟨before', path, rfl, -, -, -⟩ := fruitful
    have hlast := (List.append_inj' hresults rfl).2
    cases hlast

/-! ### The attempts behind a task -/

/-- The attempts that a task may have behind it. -/
def Task.Tried (d : DownloadConfig) (results : List Fetch) : Task → Prop
  | .fetching attempt => Fruitless d results ∧ results.length + 1 = attempt
  | .resting attempt => Fruitless d results ∧ results.length = attempt
  | .checking attempt _ _ | .discarding attempt _ _ => Fruitful d attempt results

/-- The attempts that a candidate may have behind it where it stands. -/
def Standing.Tried (d : DownloadConfig) (results : List Fetch) : Standing → Prop
  | .queued => results = []
  | .ready t | .flying t => t.Tried d results ∧ t.Timely d
  | .finished outcome => Tries d results outcome

/-- A fetch that brought nothing is the last one, or it is followed by a rest. -/
theorem Task.afterFailure_tried (hf : Fruitless d results)
    (timely : results.length + 1 ≤ mostAttempts d) {last : Fetch} {e : FetchError}
    (he : failure? d last = some e) :
    (Standing.after (afterFailure d (results.length + 1) e)).Tried d (results ++ [last]) := by
  rw [afterFailure]
  split
  · rename_i hagain
    rw [Bool.and_eq_true, decide_eq_true_iff] at hagain
    exact ⟨⟨hf.concat he hagain.1, by simp⟩, hagain.2⟩
  · rename_i hfinal
    refine .spent hf timely he fun htransient => ?_
    rw [htransient, Bool.true_and, decide_eq_true_iff] at hfinal
    exact Nat.le_antisymm timely (Nat.le_of_not_lt hfinal)

/-- A piece of work that comes back adds to the attempts if it was a fetch. -/
theorem Task.advance_tried {index : Nat} {c : Candidate} {t : Task} (ht : t.Tried d results)
    (timely : t.Timely d) (r : (t.job d c).Result) :
    (Standing.after (t.advance d c r)).Tried d
      (results ++ (Settled.fetch? index ⟨index, t.job d c, r⟩).toList) := by
  have htimely := (Task.advance_spec timely r).1
  cases t with
  | fetching attempt =>
    obtain ⟨hfruitless, rfl⟩ := ht
    have hadded :
        (Settled.fetch? index ⟨index, (fetching (results.length + 1)).job d c, r⟩).toList =
          ([r] : List Fetch) := congrArg Option.toList (if_pos rfl)
    rw [hadded]
    rcases r with (e | path) | _
    · exact afterFailure_tried hfruitless timely rfl
    · have hfruitful : Fruitful d (results.length + 1) (results ++ [.inTime (.ok path)]) :=
        ⟨results, path, rfl, hfruitless, rfl, timely⟩
      rw [advance_fetched, afterArrival]
      cases c.checksum with
      | none => exact ⟨hfruitful, trivial⟩
      | some expected => exact ⟨hfruitful, trivial⟩
    · exact afterFailure_tried hfruitless timely rfl
  | resting attempt =>
    have hnone : Settled.fetch? index ⟨index, (resting attempt).job d c, r⟩ = none := rfl
    rw [hnone, Option.toList_none, List.append_nil]
    exact ⟨⟨ht.1, congrArg (· + 1) ht.2⟩, htimely⟩
  | checking attempt path expected =>
    have hnone : Settled.fetch? index ⟨index, (checking attempt path expected).job d c, r⟩ =
        none := rfl
    rw [hnone, Option.toList_none, List.append_nil, advance_checking]
    cases r with
    | error cause => exact ⟨ht, trivial⟩
    | ok digest =>
      rw [afterCheck]
      split
      · exact .kept ht
      · exact ⟨ht, trivial⟩
  | discarding attempt path reason =>
    have hnone : Settled.fetch? index ⟨index, (discarding attempt path reason).job d c, r⟩ =
        none := rfl
    rw [hnone, Option.toList_none, List.append_nil, advance_discarding]
    exact .discarded ht

/-! ### The attempts behind a board -/

/-- The attempts of every candidate of a board are those of the history. -/
def Board.Tried (d : DownloadConfig) (h : History) (b : Board) : Prop :=
  ∀ (i : Nat) (c : Candidate) (s : Standing), b[i]? = some (c, s) → s.Tried d (h.fetches i)

theorem Standing.Tried.append {s : Standing} {index : Nat} (hs : s.Tried d (h.fetches index))
    {h' : History} (hsilent : h'.fetches index = []) :
    s.Tried d (History.fetches index (h ++ h')) := by
  rwa [History.fetches_append, hsilent, List.append_nil]

/-- A piece of work that is settled is no attempt of a candidate at another index. -/
theorem fetches_settle_of_ne {f : Flight} {r : (f.piece d).2.Result} {e : Event}
    (he : e.settled? = some (f.settle d r)) {index : Nat} (hne : f.index ≠ index) :
    History.fetches index [e] = [] := by
  rw [History.fetches_of_settled he]
  obtain ⟨i, c, t⟩ := f
  cases t with
  | fetching attempt =>
    have hnone : Settled.fetch? index (Flight.settle d ⟨i, c, .fetching attempt⟩ r) = none :=
      if_neg hne
    rw [hnone]
    rfl
  | _ => rfl

/-- A piece of work that is settled keeps the board in accord with the history. -/
theorem Board.Tried.settle (hb : b.Tried d h) {f : Flight} {s : Standing}
    (hs : b[f.index]? = some (f.candidate, s)) (htask : s = .ready f.task ∨ s = .flying f.task)
    {r : (f.piece d).2.Result} {e : Event} (he : e.settled? = some (f.settle d r)) :
    Board.Tried d (h ++ [e]) (b.move (f.advance d r)) := by
  intro i c s' hi
  rcases Board.getElem?_move_eq_some hs hi with ⟨rfl, rfl, rfl⟩ | ⟨hne, hi⟩
  · have hold : f.task.Tried d (h.fetches f.index) ∧ f.task.Timely d := by
      have hold := hb _ _ _ hs
      rcases htask with rfl | rfl <;> exact hold
    rw [History.fetches_append, History.fetches_of_settled he]
    exact Task.advance_tried hold.1 hold.2 r
  · exact (hb _ _ _ hi).append (fetches_settle_of_ne he hne.symm)

/-- **What a turn adds to the attempts.** -/
theorem Turn.tried {h₀ : History} (ht : Turn d b h b') (hb : b.Tried d h₀) :
    Board.Tried d (h₀ ++ h) b' := by
  cases ht with
  | launched due answer aloft =>
    rename_i f
    intro i c s hi
    have hsilent :
        History.fetches i [⟨.begin f.index (f.task.job d f.candidate), answer⟩] = [] := by
      refine History.fetches_of_unsettled ?_ i
      rw [Event.settled?, aloft]
      rfl
    have hf := Board.due?_eq_some due
    rcases Board.getElem?_move_eq_some hf hi with ⟨rfl, rfl, rfl⟩ | ⟨-, hi⟩
    · have hready : (Standing.ready f.task).Tried d (h₀.fetches f.index) := hb _ _ _ hf
      exact hready.append hsilent
    · exact (hb _ _ _ hi).append hsilent
  | instant due answer done =>
    rename_i f r
    refine hb.settle (Board.due?_eq_some due) (Or.inl rfl) ?_
    rw [Event.settled?, done]
    rfl
  | admitted due next =>
    have hj := (Board.admissible?_eq_some next).1
    intro i c s hi
    rw [List.append_nil]
    rcases Board.getElem?_move_eq_some hj hi with ⟨rfl, rfl, rfl⟩ | ⟨-, hi⟩
    · have hnone : h₀.fetches i = [] := hb _ _ _ hj
      rw [hnone]
      exact ⟨⟨fruitless_nil d, rfl⟩, Nat.le_max_right _ _⟩
    · exact hb _ _ _ hi
  | landed due next flights answer flying done =>
    exact hb.settle (Board.mem_flights.mp flying) (Or.inr rfl) (congrArg some done)

theorem tried_start (d : DownloadConfig) (cs : List Candidate) :
    (Board.start cs).Tried d [] := by
  intro i c s hi
  rw [Board.eq_queued_of_start hi]
  rfl

/-- **Every candidate is tried as often as that may help and is allowed**, and the report says what
that came to. -/
theorem leads_all_tried {cs : List Candidate} {report : Report} (hl : (all d cs).Leads h report)
    {i : Nat} {c : Candidate} (hi : cs[i]? = some c) :
    ∃ outcome, Tries d (h.fetches i) outcome ∧
      (∀ path, outcome = .ok path → (⟨c, path⟩ : Artifact) ∈ report.succeeded) ∧
      ∀ rejection, outcome = .error rejection → (⟨c, rejection⟩ : Failure) ∈ report.failed := by
  obtain ⟨b, hturns, hfinished, rfl, rfl⟩ := leads_all hl
  have hb : b.Tried d h := by
    simpa using hturns.preserves (Board.Tried d) (fun ht hv => ht.tried hv) [] (tried_start d _)
  rw [List.getElem?_map, Option.map_eq_some_iff] at hi
  obtain ⟨⟨c, s⟩, hentry, rfl⟩ := hi
  have hmem := List.mem_of_getElem? hentry
  obtain ⟨outcome, rfl⟩ := hfinished _ hmem
  refine ⟨outcome, hb i c _ hentry, ?_, ?_⟩
  · rintro path rfl
    exact List.mem_filterMap.mpr ⟨_, hmem, rfl⟩
  · rintro rejection rfl
    exact List.mem_filterMap.mpr ⟨_, hmem, rfl⟩

end Download

end Upkeep
