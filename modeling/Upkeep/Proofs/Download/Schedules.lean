import Upkeep.Proofs.Download.Scenes

/-!
# Downloads in any order

`Download.all` begins what is due before it admits anyone, admits candidates in their order, and only
then waits. None of that is needed for what is said of downloads that run side by side. So here the
order is left open: whoever waits may take a place that is free, any piece of work that is due may
begin, and any that is in flight may be done, at any time and with any result. A schedule is what
can be seen of such moves, one after the other.

The turns of the loop are moves (`Turns.schedule`), and so is every beginning of them
(`schedule_of_begins`). What holds of every schedule holds of every run of the loop, at each of its
moments, and would hold of a loop that chose otherwise.

## Main definitions

* `Download.Move`: what may happen next on a board.
* `Download.Schedule`: moves from the start, and the cues that they give.

## Main results

* `Move.work_lt`, `Schedule.length_le`: a move leaves less to do, so schedules are bounded.
* `Schedule.of_isPrefix`: a schedule up to a moment.
* `schedule_of_leads`, `schedule_of_begins`: the loop keeps to schedules.
-/

namespace Upkeep

namespace Download

/-! ### Moves -/

/-- What may happen next, and the cue that it gives. -/
inductive Move (d : DownloadConfig) : Board → List Cue → Board → Prop
  /-- A candidate that waits takes a place that is free. -/
  | admitted {b : Board} {i : Nat} {c : Candidate} (queued : b[i]? = some (c, .queued))
      (room : b.active < Board.places d) : Move d b [] (b.move (i, c, .ready (.fetching 1)))
  /-- A piece of work begins that is due. -/
  | begun {b : Board} {i : Nat} {c : Candidate} {t : Task} (ready : b[i]? = some (c, .ready t)) :
      Move d b [.launch i (t.job d c)] (b.move (i, c, .flying t))
  /-- A piece of work is done that is in flight. -/
  | done {b : Board} {i : Nat} {c : Candidate} {t : Task} (flying : b[i]? = some (c, .flying t))
      (r : (t.job d c).Result) :
      Move d b [.settle ⟨i, t.job d c, r⟩] (b.move (i, c, .after (t.advance d c r)))

/-- Moves from the start, the cues that they give, and the board to which they come. -/
inductive Schedule (d : DownloadConfig) (cs : List Candidate) : List Cue → Board → Prop
  /-- Nothing has happened. -/
  | start : Schedule d cs [] (Board.start cs)
  /-- One more move. -/
  | on {cues cues' : List Cue} {b b' : Board} (before : Schedule d cs cues b)
      (move : Move d b cues' b') : Schedule d cs (cues ++ cues') b'

variable {d : DownloadConfig} {cs : List Candidate} {cues cues' : List Cue} {b b' : Board}
  {h : History}

/-- A move moves one candidate from where it stands, and gives one cue at most. -/
theorem Move.moves (hm : Move d b cues b') :
    ∃ i c s s', b[i]? = some (c, s) ∧ b' = b.move (i, c, s') ∧ (s.Timely d → s'.Timely d) ∧
      (s.Timely d → s'.work d + cues.length ≤ s.work d ∧ s'.work d < s.work d) := by
  cases hm with
  | admitted queued room =>
    refine ⟨_, _, _, _, queued, rfl, fun _ => Nat.le_max_right _ _, fun _ => ?_⟩
    simp only [Standing.work, Task.work, Task.mostAttempts, List.length_nil]
    omega
  | @begun i c t ready =>
    refine ⟨_, _, _, _, ready, rfl, id, fun _ => ?_⟩
    have hsome : 0 < t.work d := by cases t <;> simp [Task.work]
    simp only [Standing.work, List.length_singleton]
    omega
  | done flying r =>
    refine ⟨_, _, _, _, flying, rfl, fun hs => (Task.advance_spec hs r).1, fun hs => ?_⟩
    have hless := (Task.advance_spec hs r).2
    simp only [Standing.work, List.length_singleton] at hless ⊢
    omega

theorem Move.map_fst (hm : Move d b cues b') : b'.map Prod.fst = b.map Prod.fst := by
  obtain ⟨i, c, s, s', hb, rfl, -, -⟩ := hm.moves
  exact Board.map_fst_move hb

theorem Move.timely (hm : Move d b cues b') (hb : b.Timely d) : b'.Timely d := by
  obtain ⟨i, c, s, s', hi, rfl, hs, -⟩ := hm.moves
  exact hb.move (hs (hb.getElem? hi))

/-- **A move leaves less to do**, and pays for its cue. -/
theorem Move.work_lt (hm : Move d b cues b') (hb : b.Timely d) :
    b'.work d + cues.length ≤ b.work d ∧ b'.work d < b.work d := by
  obtain ⟨i, c, s, s', hi, rfl, -, hs⟩ := hm.moves
  have hmove := Board.work_move d s' hi
  have hless := hs (hb.getElem? hi)
  omega

/-- A candidate that moves twice is where it has come to. -/
theorem Board.move_move (b : Board) (i : Nat) (c : Candidate) (s s' : Standing) :
    (b.move (i, c, s)).move (i, c, s') = b.move (i, c, s') :=
  List.set_set _

/-! ### Schedules -/

/-- What every move keeps, all of them keep. -/
theorem Schedule.preserves (Inv : List Cue → Board → Prop) (hstart : Inv [] (Board.start cs))
    (hmove : ∀ {cues b cues' b'}, Move d b cues' b' → Inv cues b → Inv (cues ++ cues') b')
    (hs : Schedule d cs cues b) : Inv cues b := by
  induction hs with
  | start => exact hstart
  | on before move ih => exact hmove move ih

theorem Schedule.map_fst (hs : Schedule d cs cues b) : b.map Prod.fst = cs :=
  hs.preserves (fun _ b => b.map Prod.fst = cs) (Board.map_fst_start cs)
    fun hm hb => hm.map_fst.trans hb

theorem Schedule.timely (hs : Schedule d cs cues b) : b.Timely d :=
  hs.preserves (fun _ b => b.Timely d) (Board.timely_start cs) fun hm hb => hm.timely hb

/-- **Schedules are bounded**, whatever the results and in whichever order. -/
theorem Schedule.length_le (hs : Schedule d cs cues b) :
    cues.length + b.work d ≤ (Board.start cs).work d := by
  induction hs with
  | start => simp
  | on before move ih =>
    have hless := (move.work_lt before.timely).1
    rw [List.length_append]
    omega

theorem Schedule.of_isPrefix (hs : Schedule d cs cues b) (hbefore : cues' <+: cues) :
    ∃ b', Schedule d cs cues' b' := by
  induction hs with
  | start =>
    obtain rfl := List.prefix_nil.mp hbefore
    exact ⟨_, .start⟩
  | on before move ih =>
    cases move with
    | admitted queued room =>
      rw [List.append_nil] at hbefore
      exact ih hbefore
    | begun ready =>
      rcases List.prefix_concat_iff.mp hbefore with rfl | hbefore
      · exact ⟨_, before.on (.begun ready)⟩
      · exact ih hbefore
    | done flying r =>
      rcases List.prefix_concat_iff.mp hbefore with rfl | hbefore
      · exact ⟨_, before.on (.done flying r)⟩
      · exact ih hbefore

/-! ### The loop -/

/-- A turn is a move or two. -/
theorem Turn.schedule (ht : Turn d b h b') (hs : Schedule d cs cues b) :
    Schedule d cs (cues ++ h.cues) b' := by
  cases ht with
  | launched due answer aloft =>
    rw [History.cues_of_aloft aloft]
    exact hs.on (.begun (Board.due?_eq_some due))
  | @instant f due answer r done =>
    have hi := Board.due?_eq_some due
    have hflying := Board.getElem?_move_self hi (.flying f.task)
    have hdone := (hs.on (.begun hi)).on (.done hflying r)
    rw [Board.move_move, List.append_assoc] at hdone
    rw [History.cues_of_done done]
    exact hdone
  | admitted due next =>
    obtain ⟨hqueued, hroom⟩ := Board.admissible?_eq_some next
    exact hs.on (.admitted hqueued hroom)
  | @landed first rest due next flights answer f flying r done =>
    have hcues : History.cues [⟨.await (first.piece d) (rest.map (Flight.piece d)), answer⟩] =
        [.settle (f.settle d r)] := by
      rw [← done]
      rfl
    rw [hcues]
    exact hs.on (.done (Board.mem_flights.mp flying) r)

theorem Turns.schedule (ht : Turns d (Board.start cs) h b) : Schedule d cs h.cues b := by
  simpa using ht.preserves (fun h b => Schedule d cs h.cues b)
    (fun ht hs => by rw [History.cues_append]; exact ht.schedule hs) [] .start

/-- **The loop keeps to a schedule**, to the end of all downloads. -/
theorem schedule_of_leads {report : Report} (hl : (all d cs).Leads h report) :
    ∃ b, Schedule d cs h.cues b ∧ b.Finished ∧ report = Report.ofBoard b := by
  obtain ⟨b, hturns, hfinished, -, hreport⟩ := leads_all hl
  exact ⟨b, hturns.schedule, hfinished, hreport⟩

/-- **So it does up to any moment.** -/
theorem schedule_of_begins (hb : (all d cs).Begins h) (hbefore : cues <+: h.cues) :
    ∃ b, Schedule d cs cues b := by
  obtain ⟨h', report, hl⟩ := hb.exists_leads
  obtain ⟨b, hs, -, -⟩ := schedule_of_leads hl
  rw [History.cues_append] at hs
  exact hs.of_isPrefix (hbefore.trans (List.prefix_append _ _))

end Download

end Upkeep
