import Mathlib.Data.List.Basic
import Upkeep.Proofs.Download.Turns
import Upkeep.Proofs.Parting

/-!
# What the downloads come to

The report of all downloads against the history that led to it. Every candidate is on exactly one
side of the report. A candidate is on the good side if and only if the history has a digest of its
artifact that is the expected one: `History.verified` reads the verified artifacts off a history
without looking at any board, and the report agrees with it.

The candidates of a report are told apart by their index and not by what they are. Two candidates
of one package, or two equal ones, are downloaded and checked on their own.

## Main definitions

* `History.verified?`, `History.verified`.
* `History.Fetched`.

## Main results

* `Report.parted`: every candidate succeeded or failed.
* `leads_all_succeeded`: the artifacts of the report are the verified ones.
-/

namespace Upkeep

/-! ### Reading a history -/

/-- Where the artifact of the candidate at an index is, if this was the check that it passed. -/
def Settled.verified? (index : Nat) (c : Candidate) : Settled → Option String
  | ⟨i, .digest path algorithm, .ok digest⟩ =>
    c.checksum.bind fun expected =>
      if i = index ∧ expected.algorithm = algorithm ∧
          Download.Task.isExpected expected digest = true then some path
      else none
  | _ => none

namespace History

/-- Where the artifact of the candidate at an index is that passed its check. -/
def verified? (h : History) (index : Nat) (c : Candidate) : Option String :=
  h.findSome? fun e => e.settled?.bind (Settled.verified? index c)

/-- The artifacts that passed their checks, in the order of the candidates. -/
def verified (h : History) (cs : List Candidate) : List Artifact :=
  cs.zipIdx.filterMap fun (c, i) => (h.verified? i c).map (Artifact.mk c)

/-- The candidate at an index has been fetched, and its artifact is in a file. -/
def Fetched (h : History) (index : Nat) (c : Candidate) (path : String) : Prop :=
  ∃ e ∈ h, ∃ dir limit, e.settled? = some ⟨index, .fetch c dir limit, .inTime (.ok path)⟩

theorem Fetched.append {h : History} {index : Nat} {c : Candidate} {path : String}
    (hf : h.Fetched index c path) (h' : History) : Fetched (h ++ h') index c path := by
  obtain ⟨e, he, rest⟩ := hf
  exact ⟨e, List.mem_append_left _ he, rest⟩

theorem verified?_append (h h' : History) (index : Nat) (c : Candidate) :
    verified? (h ++ h') index c = (h.verified? index c).or (verified? h' index c) :=
  List.findSome?_append

/-- A check is passed against a checksum. -/
theorem checksum_of_verified? {h : History} {index : Nat} {c : Candidate} {path : String}
    (hv : h.verified? index c = some path) : c.checksum.isSome = true := by
  obtain ⟨e, -, he⟩ := List.exists_of_findSome?_eq_some hv
  obtain ⟨⟨i, job, r⟩, -, hs⟩ := Option.bind_eq_some_iff.mp he
  cases job with
  | digest path algorithm =>
    cases r with
    | error cause => cases hs
    | ok digest =>
      obtain ⟨expected, hexpected, -⟩ := Option.bind_eq_some_iff.mp hs
      rw [hexpected]
      rfl
  | _ => cases hs

theorem mem_verified {h : History} {cs : List Candidate} {a : Artifact} :
    a ∈ h.verified cs ↔
      ∃ i, cs[i]? = some a.candidate ∧ h.verified? i a.candidate = some a.path := by
  rw [verified, List.mem_filterMap]
  constructor
  · rintro ⟨⟨c, i⟩, hmem, heq⟩
    obtain ⟨path, hpath, rfl⟩ := Option.map_eq_some_iff.mp heq
    exact ⟨i, List.mk_mem_zipIdx_iff_getElem?.mp hmem, hpath⟩
  · rintro ⟨i, hi, hv⟩
    exact ⟨(a.candidate, i), List.mk_mem_zipIdx_iff_getElem?.mpr hi, by simp [hv]⟩

/-- An answer that settles nothing verifies nothing. -/
theorem verified?_eq_none_of_settled? {h : History} (hs : ∀ e ∈ h, e.settled? = none)
    (index : Nat) (c : Candidate) : h.verified? index c = none := by
  rw [verified?, List.findSome?_eq_none_iff]
  intro e he
  rw [hs e he]
  rfl

theorem Fetched.append_left {h : History} {index : Nat} {c : Candidate} {path : String}
    (hf : h.Fetched index c path) (h₀ : History) : Fetched (h₀ ++ h) index c path := by
  obtain ⟨e, he, rest⟩ := hf
  exact ⟨e, List.mem_append_right _ he, rest⟩

/-- What came before the downloads does not matter. -/
theorem verified_append_of_settled? {h : History} (hs : ∀ e ∈ h, e.settled? = none)
    (h' : History) (cs : List Candidate) : verified (h ++ h') cs = verified h' cs := by
  have hv : ∀ i c, verified? (h ++ h') i c = verified? h' i c := by
    intro i c
    rw [verified?_append, verified?_eq_none_of_settled? hs, Option.none_or]
  simp only [verified, hv]

end History

namespace Download

variable {d : DownloadConfig} {b b' : Board} {h : History}

/-! ### Both sides of a report -/

/-- Every candidate of a finished board is on one side of the report. -/
theorem Report.parted (hb : b.Finished) :
    Parted (b.map Prod.fst) ((ofBoard b).succeeded.map Artifact.candidate)
      ((ofBoard b).failed.map Failure.candidate) := by
  induction b with
  | nil => exact .nil
  | cons e b ih =>
    obtain ⟨c, s⟩ := e
    obtain ⟨outcome, rfl⟩ := hb (c, s) List.mem_cons_self
    have hrest := ih fun e he => hb e (List.mem_cons_of_mem _ he)
    cases outcome with
    | ok path => exact .left hrest
    | error rejection => exact .right hrest

/-! ### Verified artifacts -/

/-- What the history says about a task: its candidate's artifact is only checked after it has
been fetched, and against the candidate's own checksum. -/
def Task.Vouched (h : History) (index : Nat) (c : Candidate) : Task → Prop
  | .checking _ path expected => c.checksum = some expected ∧ h.Fetched index c path
  | _ => True

/-- What the history says about where a candidate stands: it is finished with an artifact if its
check has been passed, and before that the check has not been passed. -/
def Standing.Vouched (h : History) (index : Nat) (c : Candidate) : Standing → Prop
  | .finished (.ok path) => h.verified? index c = some path ∧ h.Fetched index c path
  | .ready t | .flying t => h.verified? index c = none ∧ t.Vouched h index c
  | _ => h.verified? index c = none

theorem Task.Vouched.append {index : Nat} {c : Candidate} {t : Task}
    (ht : t.Vouched h index c) (h' : History) : t.Vouched (h ++ h') index c := by
  cases t with
  | checking attempt path expected => exact ⟨ht.1, ht.2.append h'⟩
  | _ => exact trivial

/-- An answer that says nothing about a candidate leaves what the history says about it. -/
theorem Standing.Vouched.append {index : Nat} {c : Candidate} {s : Standing}
    (hs : s.Vouched h index c) {h' : History} (hsilent : h'.verified? index c = none) :
    s.Vouched (h ++ h') index c := by
  have hv : History.verified? (h ++ h') index c = h.verified? index c := by
    rw [History.verified?_append, hsilent, Option.or_none]
  match s, hs with
  | .finished (.ok _), hs => exact ⟨hv.trans hs.1, hs.2.append h'⟩
  | .finished (.error _), hs => exact hv.trans hs
  | .queued, hs => exact hv.trans hs
  | .ready _, hs => exact ⟨hv.trans hs.1, hs.2.append h'⟩
  | .flying _, hs => exact ⟨hv.trans hs.1, hs.2.append h'⟩

/-- A piece of work that is settled says nothing about the candidates at other indices. -/
theorem verified?_settle_of_ne {f : Flight} {r : (f.piece d).2.Result} {e : Event}
    (he : e.settled? = some (f.settle d r)) {index : Nat} (hne : f.index ≠ index)
    (c : Candidate) : History.verified? [e] index c = none := by
  have hs : (f.settle d r).verified? index c = none := by
    obtain ⟨i, c', t⟩ := f
    cases t with
    | checking attempt path expected =>
      cases r with
      | error cause => rfl
      | ok digest =>
        show (c.checksum.bind fun _ => if i = index ∧ _ then _ else _) = none
        simp [show i ≠ index from hne]
    | fetching attempt => rfl
    | resting attempt => rfl
    | discarding attempt path reason => rfl
  simp [History.verified?, he, hs]

/-- A candidate's own piece of work takes it from what the history said before to what it says
with that piece of work. -/
theorem Task.advance_vouched {index : Nat} {c : Candidate} {t : Task} {e : Event}
    {r : (t.job d c).Result} (ht : t.Vouched h index c) (hv : h.verified? index c = none)
    (he : e.settled? = some ⟨index, t.job d c, r⟩) :
    (Standing.after (t.advance d c r)).Vouched (h ++ [e]) index c := by
  have hlast : History.verified? (h ++ [e]) index c =
      Settled.verified? index c ⟨index, t.job d c, r⟩ := by
    rw [History.verified?_append, hv, Option.none_or]
    simp [History.verified?, he]
  cases t with
  | fetching attempt =>
    have hfailure : ∀ x,
        (Standing.after (afterFailure d attempt x)).Vouched (h ++ [e]) index c := by
      intro x
      rw [afterFailure]
      split
      · exact ⟨hlast, trivial⟩
      · exact hlast
    rcases r with (x | path) | _
    · exact hfailure x
    · rw [advance_fetched, afterArrival]
      cases hc : c.checksum with
      | none => exact ⟨hlast, trivial⟩
      | some expected =>
        exact ⟨hlast, hc, e, List.mem_append_right _ (List.mem_singleton_self e), _, _, he⟩
    · exact hfailure _
  | resting attempt => exact ⟨hlast, trivial⟩
  | checking attempt path expected =>
    rw [advance_checking]
    obtain ⟨hc, hfetched⟩ := ht
    cases r with
    | error cause => exact ⟨hlast, trivial⟩
    | ok digest =>
      have hlast : History.verified? (h ++ [e]) index c =
          if isExpected expected digest = true then some path else none := by
        rw [hlast]
        show (c.checksum.bind fun _ => if index = index ∧ _ then _ else _) = _
        simp [hc]
      rw [afterCheck]
      by_cases hexp : isExpected expected digest = true
      · rw [if_pos hexp]
        exact ⟨by rw [hlast, if_pos hexp], hfetched.append _⟩
      · rw [if_neg hexp]
        exact ⟨by rw [hlast, if_neg hexp], trivial⟩
  | discarding attempt path reason => exact hlast

/-- What the history says about every candidate of a board. -/
def Board.Vouched (h : History) (b : Board) : Prop :=
  ∀ (i : Nat) (c : Candidate) (s : Standing), b[i]? = some (c, s) → s.Vouched h i c

/-- A piece of work that is settled keeps the board in accord with the history. -/
theorem Board.Vouched.settle (hb : b.Vouched h) {f : Flight} {s : Standing}
    (hs : b[f.index]? = some (f.candidate, s)) (htask : s = .ready f.task ∨ s = .flying f.task)
    {r : (f.piece d).2.Result} {e : Event} (he : e.settled? = some (f.settle d r)) :
    Board.Vouched (h ++ [e]) (b.move (f.advance d r)) := by
  intro i c s' hi
  rcases Board.getElem?_move_eq_some hs hi with ⟨rfl, rfl, rfl⟩ | ⟨hne, hi⟩
  · have hold := hb _ _ _ hs
    rcases htask with rfl | rfl
    · exact Task.advance_vouched hold.2 hold.1 he
    · exact Task.advance_vouched hold.2 hold.1 he
  · exact (hb _ _ _ hi).append (verified?_settle_of_ne he hne.symm c)

theorem Turn.vouched {h₀ : History} (ht : Turn d b h b') (hb : b.Vouched h₀) :
    Board.Vouched (h₀ ++ h) b' := by
  cases ht with
  | launched due answer aloft =>
    rename_i f
    intro i c s hi
    have hsilent :
        History.verified? [⟨.begin f.index (f.task.job d f.candidate), answer⟩] i c = none := by
      refine History.verified?_eq_none_of_settled? ?_ i c
      intro e he
      rw [List.mem_singleton.mp he, Event.settled?, aloft]
      rfl
    have hf := Board.due?_eq_some due
    rcases Board.getElem?_move_eq_some hf hi with ⟨rfl, rfl, rfl⟩ | ⟨-, hi⟩
    · have hready : (Standing.ready f.task).Vouched h₀ f.index f.candidate := hb _ _ _ hf
      exact hready.append hsilent
    · exact (hb _ _ _ hi).append hsilent
  | instant due answer done =>
    rename_i f r
    refine hb.settle (Board.due?_eq_some due) (Or.inl rfl) ?_
    rw [Event.settled?, done]
    rfl
  | admitted due next =>
    rename_i j c'
    have hj := (Board.admissible?_eq_some next).1
    intro i c s hi
    rw [List.append_nil]
    rcases Board.getElem?_move_eq_some hj hi with ⟨rfl, rfl, rfl⟩ | ⟨-, hi⟩
    · exact ⟨hb _ _ _ hj, trivial⟩
    · exact hb _ _ _ hi
  | landed due next flights answer flying done =>
    exact hb.settle (Board.mem_flights.mp flying) (Or.inr rfl) (congrArg some done)

theorem vouched_start (cs : List Candidate) : (Board.start cs).Vouched [] := by
  intro i c s hi
  rw [Board.eq_queued_of_start hi]
  rfl

/-- **The artifacts of the report are those that the history verifies**, in the order of the
candidates; each of them has been fetched, and had a checksum to be verified against. -/
theorem leads_all_succeeded {cs : List Candidate} {report : Report}
    (hl : (all d cs).Leads h report) :
    report.succeeded = h.verified cs ∧
      ∀ a ∈ report.succeeded, a.candidate.checksum.isSome = true ∧
        ∃ i, cs[i]? = some a.candidate ∧ h.Fetched i a.candidate a.path := by
  obtain ⟨b, hturns, hfinished, rfl, rfl⟩ := leads_all hl
  have hb : b.Vouched h := by
    simpa using hturns.preserves Board.Vouched (fun ht hv => ht.vouched hv) [] (vouched_start _)
  have hsucceeded : (Report.ofBoard b).succeeded = h.verified (b.map Prod.fst) := by
    rw [History.verified, List.zipIdx_map, List.filterMap_map, Report.ofBoard]
    have hzip : b = b.zipIdx.map Prod.fst := (List.zipIdx_map_fst 0 b).symm
    conv => lhs; rw [hzip, List.filterMap_map]
    refine List.filterMap_congr ?_
    rintro ⟨⟨c, s⟩, i⟩ hmem
    have hi := List.mk_mem_zipIdx_iff_getElem?.mp hmem
    obtain ⟨outcome, rfl⟩ := hfinished _ (List.mem_of_getElem? hi)
    have hs := hb i c _ hi
    cases outcome with
    | ok path => simp [hs.1]
    | error rejection =>
      have hnone : h.verified? i c = none := hs
      simp [hnone]
  refine ⟨hsucceeded, fun a ha => ?_⟩
  rw [hsucceeded] at ha
  obtain ⟨i, hi, hv⟩ := History.mem_verified.mp ha
  refine ⟨History.checksum_of_verified? hv, i, hi, ?_⟩
  rw [List.getElem?_map, Option.map_eq_some_iff] at hi
  obtain ⟨⟨c, s⟩, hentry, rfl⟩ := hi
  obtain ⟨outcome, rfl⟩ := hfinished _ (List.mem_of_getElem? hentry)
  have hs := hb i _ _ hentry
  cases outcome with
  | ok path =>
    obtain rfl : path = a.path := by simpa [hs.1] using hv
    exact hs.2
  | error rejection =>
    have hnone : h.verified? i _ = none := hs
    rw [hnone] at hv
    cases hv

end Download

end Upkeep
