import Upkeep.Download.Task
import Upkeep.Program

/-!
# Downloading side by side

All candidates of a run are downloaded side by side, as many at a time as the settings allow, in
their order as places become free. A candidate keeps its place from its first attempt until it is
finished, rests included. Which piece of work is done first is up to the world; each download
goes on from its own pieces alone.

The board says where every candidate stands. One turn begins a piece of work that is due, or
admits the next candidate, or waits for what is in flight; the downloads are over when none of
these is possible.

## Main definitions

* `Download.Board`, `Download.Standing`.
* `Download.all`: every download of a run.
* `Download.Report`: what came of them, in the order of the candidates.
-/

namespace Upkeep.Download

/-- Where a candidate stands. -/
inductive Standing where
  /-- It has not been admitted. -/
  | queued
  /-- A piece of work is due. -/
  | ready (task : Task)
  /-- A piece of work is in flight. -/
  | flying (task : Task)
  /-- It is finished. -/
  | finished (outcome : Outcome)

namespace Standing

/-- Whether the candidate holds a place. -/
def isActive : Standing → Bool
  | .ready _ | .flying _ => true
  | _ => false

/-- Where a candidate stands after a piece of work. -/
def after : Progress → Standing
  | .more task => .ready task
  | .finished outcome => .finished outcome

end Standing

/-- Where every candidate stands. -/
abbrev Board := List (Candidate × Standing)

/-- A piece of work of the candidate at an index. -/
structure Flight where
  /-- The index. -/
  index : Nat
  /-- The candidate. -/
  candidate : Candidate
  /-- Where its download stands. -/
  task : Task

namespace Flight

/-- The piece of work. -/
def piece (d : DownloadConfig) (f : Flight) : Nat × Job := (f.index, f.task.job d f.candidate)

/-- How a candidate goes on from its piece of work. -/
def advance (d : DownloadConfig) (f : Flight) (r : (f.piece d).2.Result) :
    Nat × Candidate × Standing :=
  (f.index, f.candidate, Standing.after (f.task.advance d f.candidate r))

/-- How the candidate goes on whose piece of work was done first. -/
def land (d : DownloadConfig) : (first : Flight) → (rest : List Flight) →
    Landing (first.piece d) (rest.map (piece d)) → Nat × Candidate × Standing
  | f, [], r => f.advance d r
  | f, _ :: _, .inl r => f.advance d r
  | _, next :: rest, .inr landing => land d next rest landing

end Flight

namespace Board

/-- The candidates with their indices. -/
def indexed (b : Board) : List (Nat × Candidate × Standing) := b.zipIdx.map fun (e, i) => (i, e)

/-- The places that can be held at a time. -/
def places (d : DownloadConfig) : Nat := max d.maxParallel 1

/-- The places that are held. -/
def active (b : Board) : Nat := b.countP (fun e => e.2.isActive)

/-- The first piece of work that is due. -/
def due? (b : Board) : Option Flight :=
  b.indexed.findSome? fun
    | (i, c, .ready task) => some ⟨i, c, task⟩
    | _ => none

/-- The first candidate that has not been admitted. -/
def queued? (b : Board) : Option (Nat × Candidate) :=
  b.indexed.findSome? fun
    | (i, c, .queued) => some (i, c)
    | _ => none

/-- The next candidate to be admitted, when a place is free. -/
def admissible? (d : DownloadConfig) (b : Board) : Option (Nat × Candidate) :=
  if b.active < places d then b.queued? else none

/-- The pieces of work in flight. -/
def flights (b : Board) : List Flight :=
  b.indexed.filterMap fun
    | (i, c, .flying task) => some ⟨i, c, task⟩
    | _ => none

/-- A candidate that stands elsewhere now. -/
def move (b : Board) : Nat × Candidate × Standing → Board
  | (i, entry) => b.set i entry

/-- No candidate admitted yet. -/
def start (cs : List Candidate) : Board := cs.map fun c => (c, .queued)

end Board

/-- Waits for what is in flight and goes on from there; done when nothing is. -/
def Board.wait (d : DownloadConfig) (b : Board) (next : Board → Program Board) : Program Board :=
  match b.flights with
  | [] => .done b
  | first :: rest =>
    .ask (.await (first.piece d) (rest.map (Flight.piece d))) fun a =>
      next (b.move (Flight.land d first rest a.value))

/-- Turns until no more is possible, at most so many. -/
def turns (d : DownloadConfig) : (most : Nat) → Board → Program Board
  | 0, b => .done b
  | most + 1, b =>
    match b.due? with
    | some f =>
      .ask (.begin f.index (f.task.job d f.candidate)) fun a =>
        match a.value with
        | some r => turns d most (b.move (f.advance d r))
        | none => turns d most (b.move (f.index, f.candidate, .flying f.task))
    | none =>
      match b.admissible? d with
      | some (i, c) => turns d most (b.move (i, c, .ready (.fetching 1)))
      | none => b.wait d (turns d most)

/-- Turns that are always enough: each attempt takes no more than four, and the rest no more
than six. -/
def enough (d : DownloadConfig) (candidates : Nat) : Nat :=
  candidates * (4 * Task.mostAttempts d + 6) + 1

/-- A candidate that has no artifact. -/
structure Failure where
  /-- The candidate. -/
  candidate : Candidate
  /-- Why. -/
  rejection : Rejection
  deriving DecidableEq, Repr

/-- What came of all downloads. -/
structure Report where
  /-- The verified artifacts. -/
  succeeded : List Artifact
  /-- The candidates without one. -/
  failed : List Failure
  deriving DecidableEq, Repr

/-- What came of the downloads on a board. -/
def Report.ofBoard (b : Board) : Report where
  succeeded := b.filterMap fun
    | (c, .finished (.ok path)) => some ⟨c, path⟩
    | _ => none
  failed := b.filterMap fun
    | (c, .finished (.error rejection)) => some ⟨c, rejection⟩
    | _ => none

/-- Downloads candidates side by side. -/
def all (d : DownloadConfig) (cs : List Candidate) : Program Report :=
  (turns d (enough d cs.length) (Board.start cs)).bind fun b => .done (Report.ofBoard b)

end Upkeep.Download
