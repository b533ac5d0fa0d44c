import Upkeep.Proofs.Download.Schedules

/-!
# One candidate's part in a schedule

Everything that goes on besides does not show in the download of a candidate: seen from there, a
schedule is a sequence of pieces of work each of which begins when the one before is done. What the
next one is depends on nothing but what came of those before. So a download can be looked at as if it
ran alone (`Does`), and what is found out in that way holds of it among any others.

The end of a download is not known while it goes on. What is kept about a candidate in between is
therefore how any end from where it stands would end the whole (`Onward`).

## Main definitions

* `Stint`, `Does`: what a download does when it is looked at alone.
* `cuesOf`: what is said of a candidate.
* `Standing.Traced`: what has been said of a candidate that stands somewhere.

## Main results

* `Schedule.traced`: a candidate's part in a schedule is what its download does alone.
* `Schedule.launch_fetch_mem`: when it is finished it has been fetched.
-/

namespace Upkeep

/-- The candidate that a cue is about. -/
def Cue.index : Cue → Nat
  | .launch index _ => index
  | .settle s => s.index

namespace Download

/-- A piece of work, and what came of it. -/
structure Stint where
  /-- The piece of work. -/
  job : Job
  /-- What came of it. -/
  result : job.Result

/-- The beginning and the end of a piece of work. -/
def Stint.cues (i : Nat) (w : Stint) : List Cue := [.launch i w.job, .settle ⟨i, w.job, w.result⟩]

/-- What is said of the candidate at an index. -/
def cuesOf (i : Nat) (cues : List Cue) : List Cue := cues.filter fun cue => cue.index == i

/-! ### A download alone -/

/-- What a task comes to when it is looked at alone: it does a piece of work, and goes on from what
came of it. -/
inductive Does (d : DownloadConfig) (c : Candidate) : Task → List Stint → Outcome → Prop
  /-- The piece of work was the last one. -/
  | last {t : Task} {r : (t.job d c).Result} {o : Outcome}
      (finished : t.advance d c r = .finished o) : Does d c t [⟨t.job d c, r⟩] o
  /-- There are more. -/
  | more {t t' : Task} {r : (t.job d c).Result} {ws : List Stint} {o : Outcome}
      (next : t.advance d c r = .more t') (rest : Does d c t' ws o) :
      Does d c t (⟨t.job d c, r⟩ :: ws) o

/-- What a download comes to from where a piece of work has left it. -/
def Progress.Does (d : DownloadConfig) (c : Candidate) : Progress → List Stint → Outcome → Prop
  | .more t, ws, o => Download.Does d c t ws o
  | .finished o', ws, o => ws = [] ∧ o = o'

variable {d : DownloadConfig} {cs : List Candidate} {cues cues' : List Cue} {b b' : Board}
  {i : Nat} {c : Candidate} {t : Task} {ws : List Stint} {o : Outcome}

/-- A task does its piece of work first. -/
theorem Does.inv (h : Does d c t ws o) :
    ∃ r ws', ws = ⟨t.job d c, r⟩ :: ws' ∧ (t.advance d c r).Does d c ws' o := by
  cases h with
  | last finished => exact ⟨_, [], rfl, finished ▸ ⟨rfl, rfl⟩⟩
  | more next rest => exact ⟨_, _, rfl, next ▸ rest⟩

theorem cuesOf_append (i : Nat) (cues cues' : List Cue) :
    cuesOf i (cues ++ cues') = cuesOf i cues ++ cuesOf i cues' :=
  List.filter_append _ _

theorem cuesOf_self (cue : Cue) : cuesOf cue.index [cue] = [cue] :=
  List.filter_cons_of_pos (by simp)

theorem cuesOf_of_ne {cue : Cue} (h : cue.index ≠ i) : cuesOf i [cue] = [] :=
  List.filter_cons_of_neg (by simp [h])

/-! ### A candidate among others -/

/-- What some work and then that of a task come to is what the download comes to. -/
def Onward (d : DownloadConfig) (c : Candidate) (ws : List Stint) (t : Task) : Prop :=
  ∀ ws' o, Does d c t ws' o → Does d c (.fetching 1) (ws ++ ws') o

/-- What has been said of a candidate that stands somewhere: work that was done, piece by piece, and
the beginning of what is in flight. -/
def Standing.Traced (d : DownloadConfig) (i : Nat) (c : Candidate) (cues : List Cue) :
    Standing → Prop
  | .queued => cues = []
  | .ready t => ∃ ws, cues = ws.flatMap (Stint.cues i) ∧ Onward d c ws t
  | .flying t => ∃ ws, cues = ws.flatMap (Stint.cues i) ++ [.launch i (t.job d c)] ∧ Onward d c ws t
  | .finished o => ∃ ws, cues = ws.flatMap (Stint.cues i) ∧ Does d c (.fetching 1) ws o

/-- A piece of work that is done is added to those before it. -/
theorem Onward.done (h : Onward d c ws t) (r : (t.job d c).Result) :
    (Standing.after (t.advance d c r)).Traced d i c
      ((ws ++ [(⟨t.job d c, r⟩ : Stint)]).flatMap (Stint.cues i)) := by
  cases hnext : t.advance d c r with
  | more t' =>
    refine ⟨ws ++ [⟨t.job d c, r⟩], rfl, fun ws' o hrest => ?_⟩
    rw [List.append_assoc]
    exact h _ o (.more hnext hrest)
  | finished o => exact ⟨ws ++ [⟨t.job d c, r⟩], rfl, h _ o (.last hnext)⟩

/-- A move says something of one candidate, which is what its download does next, and nothing of the
others. -/
theorem Move.traced (hm : Move d b cues' b')
    (hb : ∀ (i : Nat) (c : Candidate) (s : Standing), b[i]? = some (c, s) →
      s.Traced d i c (cuesOf i cues)) :
    ∀ (i : Nat) (c : Candidate) (s : Standing), b'[i]? = some (c, s) →
      s.Traced d i c (cuesOf i (cues ++ cues')) := by
  intro j c' s' hj
  rw [cuesOf_append]
  cases hm with
  | admitted queued room =>
    rcases Board.getElem?_move_eq_some queued hj with ⟨rfl, rfl, rfl⟩ | ⟨-, hj⟩
    · have hnone : cuesOf j cues = [] := hb _ _ _ queued
      rw [hnone]
      exact ⟨[], rfl, fun ws' o h => h⟩
    · exact (List.append_nil _).symm ▸ hb _ _ _ hj
  | @begun i c t ready =>
    rcases Board.getElem?_move_eq_some ready hj with ⟨rfl, rfl, rfl⟩ | ⟨hne, hj⟩
    · obtain ⟨ws, hcues, honward⟩ := hb _ _ _ ready
      have hown := cuesOf_self (.launch j (t.job d c'))
      rw [Cue.index] at hown
      rw [hcues, hown]
      exact ⟨ws, rfl, honward⟩
    · rw [cuesOf_of_ne (Ne.symm hne), List.append_nil]
      exact hb _ _ _ hj
  | @done i c t flying r =>
    rcases Board.getElem?_move_eq_some flying hj with ⟨rfl, rfl, rfl⟩ | ⟨hne, hj⟩
    · obtain ⟨ws, hcues, honward⟩ := hb _ _ _ flying
      have hown := cuesOf_self (.settle ⟨j, t.job d c', r⟩)
      rw [Cue.index] at hown
      rw [hcues, hown, List.append_assoc]
      have hdone := honward.done (i := j) r
      rwa [List.flatMap_append] at hdone
    · rw [cuesOf_of_ne (Ne.symm hne), List.append_nil]
      exact hb _ _ _ hj

/-- **A candidate's part in a schedule is what its download does alone.** -/
theorem Schedule.traced (hs : Schedule d cs cues b) : ∀ (i : Nat) (c : Candidate) (s : Standing),
    b[i]? = some (c, s) → s.Traced d i c (cuesOf i cues) := by
  refine hs.preserves (fun cues b => ∀ (i : Nat) (c : Candidate) (s : Standing),
    b[i]? = some (c, s) → s.Traced d i c (cuesOf i cues)) (fun i c s hi => ?_)
    fun hm hb => hm.traced hb
  rw [Board.eq_queued_of_start hi]
  rfl

/-- A candidate that is finished has been fetched: that is how its download begins. -/
theorem Schedule.launch_fetch_mem (hs : Schedule d cs cues b) (hi : b[i]? = some (c, .finished o)) :
    Cue.launch i (.fetch c d.cacheDir (Task.limit d)) ∈ cues := by
  obtain ⟨ws, hcues, hdoes⟩ := hs.traced i c _ hi
  obtain ⟨r, ws', rfl, -⟩ := hdoes.inv
  have hmem : Cue.launch i (.fetch c d.cacheDir (Task.limit d)) ∈ cuesOf i cues := by
    rw [hcues]
    exact List.mem_cons_self
  exact (List.mem_filter.mp hmem).1

end Download

end Upkeep
