import Upkeep.Errors
import Upkeep.Lock
import Upkeep.Report

/-!
# What a run asks for

A run decides; everything it does not decide itself it asks for. A request is one of a fixed list,
and its type says what can be answered, so a statement about every behaviour of the package
manager, the host, the emitters, the clock and the scheduler is a statement about every answer.

Requests with a limit are answered within it or given up on. An answer also says two things about
cancellation that the run cannot see otherwise: whether the run had to wait for it, and whether
cancellation has been requested by the time it arrives.

Downloads run side by side. A piece of their work (`Job`) is begun, and may be done at once; the
run then waits for any of those that are in flight, and which one is done first is part of the
answer.

## Main definitions

* `Request`, `Request.Reply`, `Answer`.
* `Job`, `Job.Result`: one piece of one candidate's download.
* `Landing`: what comes of the first of several pieces.
* `Timed`: what comes of something with a limit.
* `Repository`.
-/

namespace Upkeep

/-- A repository of packages. -/
structure Repository where
  /-- Its name. -/
  id : String
  /-- When its metadata was last refreshed, if ever. -/
  lastRefreshed : Option Instant
  deriving DecidableEq, Repr

/-- What comes of something with a limit. -/
inductive Timed (α : Type) where
  /-- It was done in time. -/
  | inTime (value : α)
  /-- It was not, and is given up on. -/
  | expired
  deriving DecidableEq, Repr

/-- One piece of the work on one candidate's download. -/
inductive Job where
  /-- Fetch the artifact into a directory; answers where it is. -/
  | fetch (candidate : Candidate) (dir : String) (limit : Span)
  /-- Rest for so many milliseconds and up to half as many again. -/
  | rest (millis : Nat)
  /-- The digest of a file in hexadecimal. -/
  | digest (path : String) (algorithm : Digest.Variant)
  /-- Remove a file that is not to be trusted. -/
  | discard (path : String)
  deriving DecidableEq, Repr

/-- What comes of a piece of work. -/
abbrev Job.Result : Job → Type
  | .fetch .. => Timed (Except FetchError String)
  | .rest _ => Unit
  | .digest .. => Except String String
  | .discard _ => Unit

/-- What comes of whichever of several pieces of work is done first: it is the first of them, or
one of the rest. -/
abbrev Landing : (first : Nat × Job) → (rest : List (Nat × Job)) → Type
  | first, [] => first.2.Result
  | first, next :: rest => first.2.Result ⊕ Landing next rest

/-- What a run asks for. -/
inductive Request where
  /-- The time. -/
  | now
  /-- The lock. -/
  | acquireLock
  /-- An end to the lock. -/
  | releaseLock
  /-- When the last run was. -/
  | readMarker
  /-- A new last-run marker; answers why it could not be written. -/
  | writeMarker (time : Instant)
  /-- A sleep of a random length, at most so many seconds. -/
  | sleepRandomly (mostSeconds : Nat)
  /-- Whether there is a network. -/
  | lookForNetwork
  /-- Whether so long has passed since the network was first looked for. -/
  | networkOverdue (limit : Span)
  /-- A short sleep before the network is looked for again. -/
  | sleepBetweenLooks
  /-- The enabled repositories. -/
  | listRepositories
  /-- Fresh metadata of a repository. -/
  | refresh (repository : String) (limit : Span)
  /-- The upgrades that repositories offer. -/
  | query (repositories : List String) (limit : Span)
  /-- The start of a piece of work on the candidate at an index; answers what comes of it when
  it is done at once. -/
  | begin (index : Nat) (job : Job)
  /-- Whichever piece of work in flight is done first, and what comes of it. -/
  | await (first : Nat × Job) (rest : List (Nat × Job))
  /-- All artifacts installed as one transaction. -/
  | apply (artifacts : List Artifact) (limit : Span)
  /-- Why what was applied needs a reboot, if it does. -/
  | rebootReason (applied : List Candidate)
  /-- The command that reboots. -/
  | reboot (command : String)
  /-- The report delivered by the emitter at an index. -/
  | emit (emitter : Nat) (result : RunResult) (report : Report) (limit : Span)
  /-- The notices of the emitter at an index withdrawn. -/
  | clear (emitter : Nat)

/-- What can be answered. -/
abbrev Request.Reply : Request → Type
  | .now => Instant
  | .acquireLock => Except LockError Unit
  | .releaseLock => Unit
  | .readMarker => Option Instant
  | .writeMarker _ => Option String
  | .sleepRandomly _ => Unit
  | .lookForNetwork => Bool
  | .networkOverdue _ => Bool
  | .sleepBetweenLooks => Unit
  | .listRepositories => Except String (List Repository)
  | .refresh .. => Timed (Except String Unit)
  | .query .. => Timed (Except String (List Candidate))
  | .begin _ job => Option job.Result
  | .await first rest => Landing first rest
  | .apply .. => Timed (Except TransactionError Unit)
  | .rebootReason _ => Except String (Option String)
  | .reboot _ => Except String Unit
  | .emit .. => Timed (Except EmitError Unit)
  | .clear _ => Except EmitError Unit

/-- An answer, and how it came. -/
structure Answer (α : Type) where
  /-- The answer. -/
  value : α
  /-- Whether it had to be waited for. -/
  waited : Bool
  /-- Whether cancellation has been requested by now. -/
  cancelled : Bool

end Upkeep
