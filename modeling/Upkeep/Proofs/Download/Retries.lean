import Mathlib.Data.List.Basic
import Mathlib.Order.Bounds.Defs
import Upkeep.Proofs.Download.Attempts
import Upkeep.Proofs.Download.Parts
import Upkeep.Proofs.Download.Storage
import Upkeep.Proofs.Files.Absence
import Upkeep.Proofs.Run.Phases

/-!
# How often a candidate is tried, and what comes of it

What a candidate's download does is fixed by what comes of its fetches and of the check, whatever
else goes on besides (`Schedule.traced`). So the loop over attempts is looked at as if it ran alone,
and the law of attempts is an induction over what it does then (`Does.course`).

The number of attempts is the least at which the limit is reached or the outcome is not one that may
pass. All attempts before it are followed by a rest. The last one is followed by the check, if it
brought an artifact, and by nothing else; a check that does not vouch for the artifact ends with its
removal.

## Main definitions

* `Passing`: a fetch that may be tried again.
* `rounds`, `Concludes`: the attempts before the last one, and what follows the last one.
* `Retried`: the course of a download from the first attempt to its outcome.
* `World.Discards`: a world whose files are removed when they are to be.

## Main results

* `Does.course`: the law of attempts.
* `exists_answered`: whatever fetches come to, downloads come to an end.
* `retried`: attempts, outcomes and files of every candidate.
-/

namespace Upkeep

/-- What came of a fetch of the candidate at an index, if this is said. -/
def Cue.fetch? (i : Nat) : Cue → Option Fetch
  | .launch .. => none
  | .settle s => s.fetch? i

/-- A fetch of the candidate at an index begins. -/
def Cue.isAttempt (i : Nat) : Cue → Bool
  | .launch j (.fetch ..) => j == i
  | _ => false

/-- Where files are to be removed, the last that happens to them is that they are. -/
def World.Discards {σ : Type} (world : World σ) (files : σ → Files) : Prop :=
  ∀ (q : Request) (s : σ) (i : Nat) (path : String),
    Event.settled? ⟨q, (world q s).1⟩ = some ⟨i, .discard path, ()⟩ →
      ∃ fs, files (world q s).2 = Verification.discard fs path

namespace Download

/-- What came of a fetch, if this is one. -/
def Stint.fetch? : Stint → Option Fetch
  | ⟨.fetch .., r⟩ => some r
  | _ => none

/-- What came of the fetches of the candidate at an index, one after the other. -/
def answers (i : Nat) (cues : List Cue) : List Fetch := cues.filterMap (Cue.fetch? i)

/-- How often the candidate at an index has been fetched. -/
def attempts (i : Nat) (cues : List Cue) : Nat := cues.countP (Cue.isAttempt i)

/-- The fetches of the candidate at an index have come to these replies, the first of which has the
number 1. -/
def Answered (replies : Nat → Fetch) (i : Nat) (cues : List Cue) : Prop :=
  ∀ (k : Nat) (r : Fetch), (answers i cues)[k]? = some r → r = replies (k + 1)

/-- A fetch brought no artifact, but may if it is tried again. -/
def Passing (d : DownloadConfig) (r : Fetch) : Prop :=
  ∃ e, failure? d r = some e ∧ e.isTransient = true

/-- Attempts that are tried again: a fetch each, and a rest. -/
def rounds (d : DownloadConfig) (c : Candidate) (replies : Nat → Fetch) (first last : Nat) :
    List Stint :=
  (List.range' first (last - first)).flatMap fun k =>
    [⟨.fetch c d.cacheDir (Task.limit d), replies k⟩,
      ⟨.rest (Backoff.delay k d.backoffBaseMs d.backoffMaxMs), ()⟩]

/-- What follows the last attempt, whose number is given, and what the download comes to. -/
inductive Concludes (c : Candidate) (d : DownloadConfig) (n : Nat) :
    Fetch → List Stint → Outcome → Prop
  /-- It brought no artifact, and that is all. -/
  | failed {r : Fetch} {e : FetchError} (failed : failure? d r = some e) :
      Concludes c d n r [] (.error ⟨e.message, n⟩)
  /-- There is nothing to check the artifact against. -/
  | unchecked {path : String} (unknown : c.checksum = none) :
      Concludes c d n (.inTime (.ok path)) [⟨.discard path, ()⟩]
        (.error ⟨"no checksum in repository metadata", n⟩)
  /-- The artifact is the expected one. -/
  | verified {path digest : String} {expected : Checksum} (known : c.checksum = some expected)
      (same : Task.isExpected expected digest = true) :
      Concludes c d n (.inTime (.ok path)) [⟨.digest path expected.algorithm, .ok digest⟩]
        (.ok path)
  /-- The artifact is another one. -/
  | mismatched {path digest : String} {expected : Checksum} (known : c.checksum = some expected)
      (other : Task.isExpected expected digest = false) :
      Concludes c d n (.inTime (.ok path))
        [⟨.digest path expected.algorithm, .ok digest⟩, ⟨.discard path, ()⟩]
        (.error ⟨"checksum mismatch: expected " ++ expected.digest ++ ", got " ++ digest, n⟩)
  /-- The artifact cannot be read. -/
  | unreadable {path cause : String} {expected : Checksum} (known : c.checksum = some expected) :
      Concludes c d n (.inTime (.ok path))
        [⟨.digest path expected.algorithm, .error cause⟩, ⟨.discard path, ()⟩]
        (.error ⟨"cannot read " ++ path ++ ": " ++ cause, n⟩)

/-- The course of a download, when fetches come to these replies. -/
structure Retried (d : DownloadConfig) (cues : List Cue) (i : Nat) (c : Candidate) (o : Outcome)
    (replies : Nat → Fetch) (n : Nat) : Prop where
  /-- The last attempt is the first that is the last one allowed, or that may not pass. -/
  least : IsLeast {k | 1 ≤ k ∧ (k = max d.maxAttempts 1 ∨ ¬Passing d (replies k))} n
  /-- So often the candidate is fetched. -/
  attempts : attempts i cues = n
  /-- All there is to say of it are these attempts, each to its end, and what follows the last. -/
  course : ∃ tail, Concludes c d n (replies n) tail o ∧
    cuesOf i cues = (rounds d c replies 1 n ++
      ⟨.fetch c d.cacheDir (Task.limit d), replies n⟩ :: tail).flatMap (Stint.cues i)

variable {d : DownloadConfig} {cs : List Candidate} {cues cues' : List Cue} {b b' : Board}
  {i : Nat} {c : Candidate} {s : Standing} {t : Task} {ws : List Stint} {o : Outcome} {a n : Nat}
  {replies : Nat → Fetch} {r : Fetch} {path : String}

/-- What came of the fetches among some pieces of work. -/
def fetched (ws : List Stint) : List Fetch := ws.filterMap Stint.fetch?

/-- An artifact that is to be discarded is discarded, and that is all. -/
theorem Does.discarding {reason : String} (h : Does d c (.discarding a path reason) ws o) :
    ws = [⟨.discard path, ()⟩] ∧ o = .error ⟨reason, a⟩ := by
  obtain ⟨r, ws', rfl, hrest⟩ := h.inv
  rw [Task.advance_discarding] at hrest
  obtain ⟨rfl, rfl⟩ := hrest
  exact ⟨rfl, rfl⟩

/-- An artifact that is checked is discarded unless it is the expected one. -/
theorem Does.checking {expected : Checksum} (known : c.checksum = some expected)
    (h : Does d c (.checking a path expected) ws o) :
    Concludes c d a (.inTime (.ok path)) ws o := by
  obtain ⟨r, ws', rfl, hrest⟩ := h.inv
  rw [Task.advance_checking] at hrest
  cases r with
  | error cause =>
    obtain ⟨rfl, rfl⟩ := Does.discarding hrest
    exact .unreadable known
  | ok digest =>
    rw [Task.afterCheck] at hrest
    cases hsame : Task.isExpected expected digest with
    | true =>
      rw [hsame, if_pos rfl] at hrest
      obtain ⟨rfl, rfl⟩ := hrest
      exact .verified known hsame
    | false =>
      rw [hsame, if_neg Bool.false_ne_true] at hrest
      obtain ⟨rfl, rfl⟩ := Does.discarding hrest
      exact .mismatched known hsame

/-- An artifact that arrived is checked, if there is something to check it against. -/
theorem Concludes.of_arrival (h : (Task.afterArrival c a path).Does d c ws o) :
    Concludes c d a (.inTime (.ok path)) ws o := by
  rw [Task.afterArrival] at h
  cases known : c.checksum with
  | none =>
    rw [known] at h
    obtain ⟨rfl, rfl⟩ := Does.discarding h
    exact .unchecked known
  | some expected =>
    rw [known] at h
    exact Does.checking known h

/-- A fetch that failed is followed by a rest and the next attempt, or by nothing. -/
theorem again_or_concludes {e : FetchError} (hr : failure? d r = some e)
    (h : (Task.afterFailure d a e).Does d c ws o) :
    (Passing d r ∧ a < Task.mostAttempts d ∧ ∃ ws',
      ws = ⟨.rest (Backoff.delay a d.backoffBaseMs d.backoffMaxMs), ()⟩ :: ws' ∧
        Does d c (.fetching (a + 1)) ws' o) ∨
      ¬(Passing d r ∧ a < Task.mostAttempts d) ∧ Concludes c d a r ws o := by
  have hpassing : Passing d r ↔ e.isTransient = true := by
    rw [Passing, hr]
    simp
  rw [Task.afterFailure] at h
  split at h
  · rename_i hagain
    rw [Bool.and_eq_true, decide_eq_true_iff, ← hpassing] at hagain
    obtain ⟨rested, ws', rfl, hrest⟩ := Does.inv h
    rw [Task.advance_resting] at hrest
    exact Or.inl ⟨hagain.1, hagain.2, ws', rfl, hrest⟩
  · rename_i hfinal
    rw [Bool.and_eq_true, decide_eq_true_iff, ← hpassing] at hfinal
    obtain ⟨rfl, rfl⟩ := h
    exact Or.inr ⟨hfinal, .failed hr⟩

/-- An attempt is followed by a rest and the next one, or it was the last. -/
theorem Does.fetching (h : Does d c (.fetching a) ws o) :
    ∃ (r : Fetch) (ws' : List Stint),
      ws = ⟨.fetch c d.cacheDir (Task.limit d), r⟩ :: ws' ∧
      ((Passing d r ∧ a < Task.mostAttempts d ∧ ∃ ws'',
        ws' = ⟨.rest (Backoff.delay a d.backoffBaseMs d.backoffMaxMs), ()⟩ :: ws'' ∧
          Does d c (.fetching (a + 1)) ws'' o) ∨
        ¬(Passing d r ∧ a < Task.mostAttempts d) ∧ Concludes c d a r ws' o) := by
  obtain ⟨r, ws', rfl, hrest⟩ := h.inv
  refine ⟨r, ws', rfl, ?_⟩
  rcases r with (e | path) | _
  · exact again_or_concludes rfl hrest
  · refine Or.inr ⟨?_, .of_arrival hrest⟩
    rintro ⟨⟨e, hfailed, -⟩, -⟩
    cases hfailed
  · exact again_or_concludes rfl hrest

/-- **The law of attempts.** -/
theorem Does.course (h : Does d c (.fetching a) ws o) (hle : a ≤ Task.mostAttempts d)
    (hreplies : ∀ (k : Nat) (r : Fetch), (fetched ws)[k]? = some r → r = replies (a + k)) :
    ∃ n tail, IsLeast {k | a ≤ k ∧ (k = Task.mostAttempts d ∨ ¬Passing d (replies k))} n ∧
      Concludes c d n (replies n) tail o ∧
      ws = rounds d c replies a n ++ ⟨.fetch c d.cacheDir (Task.limit d), replies n⟩ :: tail := by
  obtain ⟨more, hmore⟩ := Nat.exists_eq_add_of_le hle
  induction more generalizing a ws with
  | zero =>
    obtain ⟨r, ws', rfl, ⟨-, hlt, -⟩ | ⟨-, hconcludes⟩⟩ := h.fetching
    · omega
    · obtain rfl : r = replies a := hreplies 0 r rfl
      refine ⟨a, ws', ⟨⟨Nat.le_refl a, Or.inl (by omega)⟩, fun k hk => hk.1⟩, hconcludes, ?_⟩
      rw [rounds, Nat.sub_self]
      rfl
  | succ more ih =>
    obtain ⟨r, ws', rfl, ⟨hpassing, hlt, ws'', rfl, hrest⟩ | ⟨hfinal, hconcludes⟩⟩ := h.fetching
    · obtain rfl : r = replies a := hreplies 0 r rfl
      obtain ⟨n, tail, hleast, hconcludes, rfl⟩ := ih hrest hlt (fun k r hr => by
        rw [hreplies (k + 1) r hr]
        congr 1
        omega) (by omega)
      have han : a < n := hleast.1.1
      refine ⟨n, tail, ⟨⟨Nat.le_of_lt han, hleast.1.2⟩, fun k hk => ?_⟩, hconcludes, ?_⟩
      · refine hleast.2 ⟨Nat.lt_of_le_of_ne hk.1 ?_, hk.2⟩
        rintro rfl
        exact hk.2.elim (fun heq => absurd heq (Nat.ne_of_lt hlt)) fun hnot => hnot hpassing
      · have hrange : List.range' a (n - a) = a :: List.range' (a + 1) (n - (a + 1)) := by
          rw [← List.range'_succ]
          congr 1
          omega
        rw [rounds, rounds, hrange, List.flatMap_cons]
        rfl
    · obtain rfl : r = replies a := hreplies 0 r rfl
      refine ⟨a, ws', ⟨⟨Nat.le_refl a, Or.inr fun hpassing => hfinal ⟨hpassing, by omega⟩⟩,
        fun k hk => hk.1⟩, hconcludes, ?_⟩
      rw [rounds, Nat.sub_self]
      rfl

/-! ### What is said of one candidate -/

/-- What came of the fetches of a candidate is said of it. -/
theorem answers_cuesOf (i : Nat) (cues : List Cue) : answers i (cuesOf i cues) = answers i cues := by
  rw [answers, cuesOf, List.filterMap_filter]
  refine List.filterMap_congr fun cue _ => ?_
  by_cases h : cue.index = i
  · simp [h]
  · rw [if_neg (by simpa using h)]
    rcases cue with _ | ⟨j, job, r⟩
    · rfl
    · cases job with
      | fetch => exact (if_neg h).symm
      | _ => rfl

/-- So are its attempts. -/
theorem attempts_cuesOf (i : Nat) (cues : List Cue) :
    attempts i (cuesOf i cues) = attempts i cues := by
  rw [attempts, cuesOf, List.countP_filter]
  refine List.countP_congr fun cue _ => ?_
  rcases cue with ⟨j, job⟩ | _
  · cases job <;> simp [Cue.isAttempt, Cue.index]
  · simp [Cue.isAttempt]

theorem Stint.answers_cues (i : Nat) (w : Stint) : answers i (w.cues i) = w.fetch?.toList := by
  obtain ⟨job, r⟩ := w
  cases job with
  | fetch c dir limit =>
    have hsome : Cue.fetch? i (.settle ⟨i, .fetch c dir limit, r⟩) = some r := if_pos rfl
    rw [answers, cues, List.filterMap_cons_none rfl, List.filterMap_cons_some hsome]
    rfl
  | _ => rfl

theorem Stint.attempts_cues (i : Nat) (w : Stint) :
    attempts i (w.cues i) = w.fetch?.toList.length := by
  obtain ⟨job, r⟩ := w
  cases job <;> simp [attempts, cues, Cue.isAttempt, Stint.fetch?]

theorem answers_flatMap (i : Nat) (ws : List Stint) :
    answers i (ws.flatMap (Stint.cues i)) = fetched ws := by
  induction ws with
  | nil => rfl
  | cons w ws ih =>
    have hw := w.answers_cues i
    rw [answers] at hw ih
    rw [answers, fetched, List.flatMap_cons, List.filterMap_append, hw, ih, fetched,
      List.filterMap_cons]
    cases w.fetch? <;> rfl

theorem attempts_flatMap (i : Nat) (ws : List Stint) :
    attempts i (ws.flatMap (Stint.cues i)) = (fetched ws).length := by
  induction ws with
  | nil => rfl
  | cons w ws ih =>
    have hw := w.attempts_cues i
    rw [attempts] at hw ih
    rw [attempts, fetched, List.flatMap_cons, List.countP_append, hw, ih, fetched,
      List.filterMap_cons]
    cases w.fetch? <;> simp [Nat.add_comm]

theorem fetched_rounds (d : DownloadConfig) (c : Candidate) (replies : Nat → Fetch)
    (first last : Nat) :
    fetched (rounds d c replies first last) = (List.range' first (last - first)).map replies := by
  rw [fetched, rounds]
  induction List.range' first (last - first) with
  | nil => rfl
  | cons k ks ih =>
    rw [List.flatMap_cons, List.filterMap_append, ih]
    rfl

/-- After the last attempt nothing is fetched. -/
theorem Concludes.fetched_eq_nil {tail : List Stint} (h : Concludes c d n r tail o) :
    fetched tail = [] := by
  cases h <;> rfl

/-- **The course of a download** that is said of its candidate. -/
theorem Does.exists_retried (h : Does d c (.fetching 1) ws o)
    (hcues : cuesOf i cues = ws.flatMap (Stint.cues i)) (hreplies : Answered replies i cues) :
    ∃ n, Retried d cues i c o replies n := by
  have hfetched : fetched ws = answers i cues := by
    rw [← answers_flatMap i, ← hcues, answers_cuesOf]
  have hfollowed : ∀ (k : Nat) (r : Fetch), (fetched ws)[k]? = some r → r = replies (1 + k) := by
    intro k r hr
    rw [Nat.add_comm]
    exact hreplies k r (hfetched ▸ hr)
  obtain ⟨n, tail, hleast, hconcludes, rfl⟩ := h.course (Nat.le_max_right _ _) hfollowed
  refine ⟨n, hleast, ?_, tail, hconcludes, hcues⟩
  have hpositive : 1 ≤ n := hleast.1.1
  rw [← attempts_cuesOf, hcues, attempts_flatMap, fetched, List.filterMap_append, List.length_append]
  change (fetched (rounds d c replies 1 n)).length + (replies n :: fetched tail).length = n
  rw [fetched_rounds, hconcludes.fetched_eq_nil, List.length_map, List.length_range',
    List.length_singleton]
  omega

/-! ### The counter -/

/-- The attempt that a task is at. -/
def Task.attempt : Task → Nat
  | .fetching a | .resting a | .checking a _ _ | .discarding a _ _ => a

/-- The attempt that a candidate is at, while it holds a place. -/
def Standing.attempt? : Standing → Option Nat
  | .ready t | .flying t => some t.attempt
  | _ => none

/-- A failure does not count attempts beyond the limit. -/
theorem Task.attempt_afterFailure_le (hle : a ≤ mostAttempts d) (e : FetchError) :
    ∀ n ∈ (Standing.after (afterFailure d a e)).attempt?, n ≤ mostAttempts d := by
  rw [afterFailure]
  split
  · exact fun n hn => Option.some.inj hn ▸ hle
  · exact fun n hn => by cases hn

/-- Nor does any work. -/
theorem Task.attempt_advance_le (timely : t.Timely d) (hle : t.attempt ≤ mostAttempts d)
    (r : (t.job d c).Result) :
    ∀ n ∈ (Standing.after (t.advance d c r)).attempt?, n ≤ mostAttempts d := by
  cases t with
  | fetching a =>
    rcases r with (e | path) | _
    · exact attempt_afterFailure_le hle e
    · rw [advance_fetched, afterArrival]
      cases c.checksum <;> exact fun n hn => Option.some.inj hn ▸ hle
    · exact attempt_afterFailure_le hle _
  | resting a => exact fun n hn => Option.some.inj hn ▸ timely
  | checking a path expected =>
    rw [advance_checking]
    cases r with
    | error cause => exact fun n hn => Option.some.inj hn ▸ hle
    | ok digest =>
      rw [afterCheck]
      split
      · exact fun n hn => by cases hn
      · exact fun n hn => Option.some.inj hn ▸ hle
  | discarding a path reason => exact fun n hn => by cases hn

/-- **The counter keeps to the limit**, at every moment. -/
theorem Schedule.attempt_le (hs : Schedule d cs cues b) :
    ∀ e ∈ b, ∀ n ∈ e.2.attempt?, n ≤ Task.mostAttempts d := by
  have hmoves : ∀ {i : Nat} {c : Candidate} {s : Standing} {b : Board},
      (∀ e ∈ b, ∀ n ∈ e.2.attempt?, n ≤ Task.mostAttempts d) →
        (∀ n ∈ s.attempt?, n ≤ Task.mostAttempts d) →
          ∀ e ∈ b.move (i, c, s), ∀ n ∈ e.2.attempt?, n ≤ Task.mostAttempts d := by
    intro i c s b hb hs e he
    rcases List.mem_or_eq_of_mem_set he with hmem | rfl
    · exact hb e hmem
    · exact hs
  induction hs with
  | start =>
    intro e he
    obtain ⟨c, -, rfl⟩ := List.mem_map.mp he
    exact fun n hn => by cases hn
  | on before move ih =>
    cases move with
    | admitted queued room =>
      exact hmoves ih fun n hn => Option.some.inj hn ▸ Nat.le_max_right _ _
    | begun ready => exact hmoves ih (ih _ (List.mem_of_getElem? ready))
    | done flying r =>
      have htimely := before.timely.getElem? flying
      have hle := ih _ (List.mem_of_getElem? flying) _ rfl
      exact hmoves ih (Task.attempt_advance_le htimely hle r)

/-! ### Any replies -/

/-- Each event is answered as the replies have it, which are numbered for each candidate. -/
def Heeds (replies : Nat → Nat → Fetch) (before : History) (e : Event) : Prop :=
  ∀ (settled : Settled) (i : Nat) (r : Fetch), e.settled? = some settled →
    settled.fetch? i = some r → r = replies i ((before.fetches i).length + 1)

/-- There is an answer to every request that heeds the replies. -/
theorem exists_heeds (replies : Nat → Nat → Fetch) (before : History) (q : Request) :
    ∃ answer, Heeds replies before ⟨q, answer⟩ := by
  obtain ⟨reply⟩ := q.nonempty_reply
  cases q with
  | begin index job => exact ⟨⟨none, false, false⟩, fun settled i r hs => nomatch hs⟩
  | await first rest =>
    -- the first piece of work in flight is done, and comes to the next reply if it is a fetch
    have hresult : ∃ r₀ : first.2.Result, ∀ (i : Nat) (r : Fetch),
        Settled.fetch? i ⟨first.1, first.2, r₀⟩ = some r →
          r = replies i ((before.fetches i).length + 1) := by
      obtain ⟨index, job⟩ := first
      cases job with
      | fetch c dir limit =>
        refine ⟨replies index ((before.fetches index).length + 1), fun i r hr => ?_⟩
        rw [Settled.fetch?] at hr
        split at hr
        · rename_i heq
          subst heq
          exact (Option.some.inj hr).symm
        · cases hr
      | rest millis => exact ⟨(), fun i r hr => nomatch hr⟩
      | digest path algorithm => exact ⟨.error "", fun i r hr => nomatch hr⟩
      | discard path => exact ⟨(), fun i r hr => nomatch hr⟩
    obtain ⟨r₀, hr₀⟩ := hresult
    have hlanding : ∃ landing : Landing first rest,
        Landing.settled first rest landing = ⟨first.1, first.2, r₀⟩ := by
      cases rest with
      | nil => exact ⟨r₀, rfl⟩
      | cons next rest => exact ⟨.inl r₀, rfl⟩
    obtain ⟨landing, hlanding⟩ := hlanding
    refine ⟨⟨landing, true, false⟩, fun settled i r hs hr => ?_⟩
    obtain rfl := (Option.some.inj hs).symm.trans hlanding
    exact hr₀ i r hr
  | _ => exact ⟨⟨reply, false, false⟩, fun settled i r hs => nomatch hs⟩

/-- What an event settles is what its cues say. -/
theorem answers_event (i : Nat) (e : Event) :
    answers i e.cues = (e.settled?.bind (Settled.fetch? i)).toList := by
  have hsettled : ∀ settled : Settled,
      answers i [.settle settled] = (settled.fetch? i).toList := fun settled => by
    rw [answers, List.filterMap_cons, List.filterMap_nil, Cue.fetch?]
    cases settled.fetch? i <;> rfl
  obtain ⟨q, value, waited, cancelled⟩ := e
  cases q with
  | begin index job =>
    cases value with
    | none => rfl
    | some r => exact hsettled ⟨index, job, r⟩
  | await first rest => exact hsettled _
  | _ => rfl

theorem answers_cues (i : Nat) (h : History) : answers i h.cues = h.fetches i := by
  rw [answers, History.cues, List.filterMap_flatMap, History.fetches]
  induction h with
  | nil => rfl
  | cons e h ih =>
    have he := answers_event i e
    rw [answers] at he
    rw [List.flatMap_cons, he, ih, List.filterMap_cons]
    cases e.settled?.bind (Settled.fetch? i) <;> rfl

/-- What is left of some list at a place comes from a place of its own. -/
theorem exists_of_filterMap {α β : Type} {f : α → Option β} {xs : List α} {k : Nat} {y : β}
    (h : (xs.filterMap f)[k]? = some y) :
    ∃ before x after, xs = before ++ x :: after ∧ (before.filterMap f).length = k ∧
      f x = some y := by
  induction xs generalizing k with
  | nil => cases h
  | cons x xs ih =>
    cases hx : f x with
    | none =>
      rw [List.filterMap_cons_none hx] at h
      obtain ⟨before, x', after, rfl, hlength, hx'⟩ := ih h
      exact ⟨x :: before, x', after, rfl, by rwa [List.filterMap_cons_none hx], hx'⟩
    | some y₀ =>
      rw [List.filterMap_cons_some hx] at h
      cases k with
      | zero =>
        obtain rfl : y₀ = y := Option.some.inj h
        exact ⟨[], x, xs, rfl, rfl, hx⟩
      | succ k =>
        obtain ⟨before, x', after, rfl, hlength, hx'⟩ := ih (k := k) h
        refine ⟨x :: before, x', after, rfl, ?_, hx'⟩
        rw [List.filterMap_cons_some hx, List.length_cons, hlength]

/-- **Whatever fetches come to, downloads come to an end.** -/
theorem exists_answered (d : DownloadConfig) (cs : List Candidate)
    (replies : Nat → Nat → Fetch) : ∃ h report, (all d cs).Leads h report ∧
      ∀ i, Answered (replies i) i h.cues := by
  obtain ⟨h, report, hl, heach⟩ :=
    (keeps_all d cs).exists_leads_each fun before q _ => exists_heeds replies before q
  refine ⟨h, report, hl, fun i k r hr => ?_⟩
  rw [answers_cues] at hr
  obtain ⟨before, e, after, hsplit, rfl, he⟩ := exists_of_filterMap hr
  obtain ⟨settled, hsettled, hfetch⟩ := Option.bind_eq_some_iff.mp he
  exact heach before e after hsplit settled i r hsettled hfetch

/-! ### What a rejection leaves -/

/-- A file that is discarded cannot be read any more. -/
theorem read_discard (fs : Files) (path : String) (content : ByteArray) :
    (Verification.discard fs path).read path ≠ .ok content := by
  intro hread
  rw [Verification.discard] at hread
  cases hremove : fs.remove path with
  | ok fs' =>
    rw [hremove] at hread
    rw [Files.read_remove hremove] at hread
    cases hread
  | error cause =>
    rw [hremove] at hread
    obtain ⟨dir, name, htarget, hshort, hfile⟩ := Files.read_eq_ok_iff.mp hread
    obtain ⟨identity, modified, hentry⟩ := Files.fileAt?_eq_some.mp hfile
    rw [Files.remove, htarget] at hremove
    dsimp only [Files.after] at hremove
    rw [if_neg (Nat.not_lt.mpr hshort), hentry] at hremove
    cases hremove

/-- On a machine files are removed when they are to be. -/
theorem discards_live (setup : Live.Setup) :
    (Live.answer setup).Discards fun s => s.machine.files := by
  intro q s i path hsettled
  cases q with
  | await first rest =>
    have hperform : Live.perform setup s.machine _ = _ := Live.await_settled first rest s
    have hdiscarded : Landing.settled first rest (Live.await setup first rest s).1.value =
        ⟨i, .discard path, ()⟩ := Option.some.inj hsettled
    rw [hdiscarded] at hperform
    exact ⟨s.machine.files, congrArg (fun m => m.2.files) hperform.symm⟩
  | begin index job => cases hsettled
  | _ => cases hsettled

/-- **How often candidates are tried, and what comes of it.** Whatever fetches come to, there are
downloads in which they do, and all downloads end in a report on every candidate. In whichever order
work is done there is less of it than a bound, no counter passes the limit, and what is said of a
candidate that is finished is its attempts and what follows the last one. What is discarded cannot
be read afterwards. -/
theorem retried (d : DownloadConfig) (cs : List Candidate) :
    (∀ replies : Nat → Nat → Fetch, ∃ h report, (all d cs).Leads h report ∧
      ∀ i, Answered (replies i) i h.cues) ∧
    (∀ (h : History) (report : Report), (all d cs).Leads h report →
      ∃ b, Schedule d cs h.cues b ∧ b.Finished ∧ b.map Prod.fst = cs ∧
        report = Report.ofBoard b) ∧
    (∀ (cues : List Cue) (b : Board), Schedule d cs cues b →
      cues.length < enough d cs.length ∧
      (∀ e ∈ b, ∀ n ∈ e.2.attempt?, n ≤ max d.maxAttempts 1 ∧
        (d.maxAttempts < UInt32.size → n < UInt32.size)) ∧
      ∀ (i : Nat) (c : Candidate) (o : Outcome), b[i]? = some (c, .finished o) →
        ∀ replies : Nat → Fetch, Answered replies i cues → ∃ n, Retried d cues i c o replies n) ∧
    (∀ {σ : Type} (world : World σ) (files : σ → Files), world.Discards files →
      ∀ (s : σ) (before after : History) (e : Event) (i : Nat) (path : String),
        world.Gives (before ++ e :: after) s → e.settled? = some ⟨i, .discard path, ()⟩ →
          ∀ content, (files (world.after (before ++ [e]) s)).read path ≠ .ok content) ∧
    ∀ setup : Live.Setup, (Live.answer setup).Discards fun s => s.machine.files := by
  refine ⟨exists_answered d cs, fun h report hl => ?_, fun cues b hs => ⟨?_, ?_, ?_⟩, ?_,
    discards_live⟩
  · obtain ⟨b, hs, hfinished, hreport⟩ := schedule_of_leads hl
    exact ⟨b, hs, hfinished, hs.map_fst, hreport⟩
  · have hbound := Board.work_start_lt (d := d) cs
    have hlength := hs.length_le
    omega
  · intro e he n hn
    have hle : n ≤ max d.maxAttempts 1 := hs.attempt_le e he n hn
    exact ⟨hle, fun hsmall => Nat.lt_of_le_of_lt hle (Nat.max_lt.mpr ⟨hsmall, by decide⟩)⟩
  · intro i c o hi replies hreplies
    obtain ⟨ws, hcues, hdoes⟩ := hs.traced i c _ hi
    exact hdoes.exists_retried hcues hreplies
  · intro σ world files hdiscards s before after e i path hgives hsettled content
    obtain ⟨-, hanswer, -⟩ := World.gives_append.mp hgives
    obtain ⟨q, answer⟩ := e
    obtain rfl : answer = (world q (world.after before s)).1 := hanswer
    obtain ⟨fs, hfiles⟩ := hdiscards q _ i path hsettled
    rw [World.after_append]
    change (files (world q (world.after before s)).2).read path ≠ .ok content
    rw [hfiles]
    exact read_discard fs path content

/-- Fetches that do not end at first, and then fail for good. -/
def failing : Nat → Nat → Fetch := fun _ k =>
  if k = 2 then .inTime (.error (.permanent "gone")) else .expired

/-- A candidate is fetched twice then, though three attempts are allowed. And an artifact that is
discarded on a machine was there before, and is not there afterwards. -/
theorem retried_failing :
    (∃ h report, (all { maxAttempts := 3 } [straying]).Leads h report ∧
      attempts 0 h.cues = 2 ∧ report.failed = [⟨straying, ⟨"fetch failed: gone", 2⟩⟩]) ∧
    ∃ s : Live.State, s.machine.files.read "/src.rpm" = .ok ⟨#[1]⟩ ∧
      ∀ content, (Live.answer offline (.await (0, .discard "/src.rpm") []) s).2.machine.files.read
        "/src.rpm" ≠ .ok content := by
  obtain ⟨hexists, hends, hcourse, hdiscarded, hlive⟩ := retried { maxAttempts := 3 } [straying]
  refine ⟨?_, { machine := .start noted, started := ⟨0, 0⟩ }, by decide +kernel,
    hdiscarded _ _ (hlive offline) _ [] [] ⟨.await (0, .discard "/src.rpm") [], _⟩ 0 "/src.rpm"
      ⟨rfl, trivial⟩ rfl⟩
  obtain ⟨h, report, hl, hanswered⟩ := hexists failing
  obtain ⟨b, hs, hfinished, hcs, rfl⟩ := hends h report hl
  obtain ⟨⟨c, s⟩, rfl, rfl⟩ := List.map_eq_singleton_iff.mp hcs
  obtain ⟨o, rfl⟩ := hfinished _ (List.mem_singleton_self _)
  obtain ⟨n, hleast, hattempts, tail, hconcludes, -⟩ :=
    (hcourse h.cues _ hs).2.2 0 _ o rfl (failing 0) (hanswered 0)
  have hpassing : Passing { maxAttempts := 3 } (failing 0 1) := ⟨_, rfl, rfl⟩
  have hfinal : ¬Passing { maxAttempts := 3 } (failing 0 2) := by
    rintro ⟨e, he, htransient⟩
    cases he
    cases htransient
  have hn : n = 2 := by
    have hle : n ≤ 2 := hleast.2 ⟨by decide, Or.inr hfinal⟩
    have hne : n ≠ 1 := by
      rintro rfl
      exact hleast.1.2.elim (by decide) fun hnot => hnot hpassing
    have hpositive : 1 ≤ n := hleast.1.1
    omega
  subst hn
  have hfailed : o = .error ⟨"fetch failed: gone", 2⟩ := by
    have hreply : failing 0 2 = .inTime (.error (.permanent "gone")) := rfl
    rw [hreply] at hconcludes
    cases hconcludes with
    | failed he =>
      cases he
      rfl
  refine ⟨h, _, hl, hattempts, ?_⟩
  rw [hfailed]
  rfl

end Download

end Upkeep
