import Upkeep.Dnf.Fetch
import Upkeep.Download.Backoff
import Upkeep.Download.Verification
import Upkeep.Emitters.Emitter
import Upkeep.Host
import Upkeep.Marker
import Upkeep.Program
import Upkeep.Reboot

/-!
# The world of a live run

A live run's requests are answered by a machine: by the package manager and the other programs on
it, and by its files. Everything that runs a command or works on files has to be waited for.

Of the pieces of work in flight the one that was begun first is done first, except that a rest
ends only when there is nothing else to do. A piece of work is done when it is waited for.

## Main definitions

* `Live.Setup`, `Live.State`.
* `Live.answer`: the world.
-/

namespace Upkeep.Live

/-- What a live run works with. -/
structure Setup where
  /-- The machine's surroundings. -/
  around : Surroundings
  /-- The package manager. -/
  manager : Dnf.Manager
  /-- The emitters. -/
  emitters : List Emitter
  /-- The lock file. -/
  lockPath : String
  /-- The last-run marker. -/
  markerPath : String
  /-- Where the system keeps its network interfaces. -/
  interfaces : String := Host.interfaces
  /-- Who the run is. -/
  self : Holder

/-- The state of a live run. -/
structure State where
  /-- The machine. -/
  machine : Machine
  /-- The time at which the machine was started. -/
  started : Instant
  /-- The file the run has locked. -/
  own : Option Nat := none
  /-- The work in flight, in the order in which it was begun. -/
  pending : List Nat := []
  /-- Nanoseconds that had passed when the network was first looked for. -/
  firstLook : Option Nat := none

namespace State

/-- The time. -/
def time (s : State) : Instant := s.started.plus ⟨s.machine.elapsed⟩

/-- An answer at once. -/
def now {α : Type} (s : State) (value : α) : Answer α × State :=
  (⟨value, false, s.machine.cancelled⟩, s)

/-- An answer that was waited for, and the machine after it. -/
def later {α : Type} (s : State) (value : α) (m : Machine) : Answer α × State :=
  (⟨value, true, m.cancelled⟩, { s with machine := m })

/-- Time passes. -/
def pass (s : State) (span : Span) : Answer Unit × State :=
  s.later () { s.machine with elapsed := s.machine.elapsed + span.nanos }

end State

/-- Whether nothing can be done within a limit. -/
def isNothing (limit : Option Span) : Bool := limit == some ⟨0⟩

/-- Something with a limit that yields when the run is cancelled. -/
def attempt {α : Type} (limit : Option Span) (yields : Bool) (work : Machine → α × Machine)
    (m : Machine) : Timed α × Machine :=
  if isNothing limit then (.expired, m)
  else
    match m.attempt limit yields work with
    | (some value, m) => (.inTime value, m)
    | (none, m) => (.expired, m)

/-- The answer to something with a limit. -/
def timed {α : Type} (s : State) (limit : Span) (yields : Bool) (work : Machine → α × Machine) :
    Answer (Timed α) × State :=
  let (result, m) := attempt (some limit) yields work s.machine
  s.later result m

/-- The enabled repositories; listing them yields to cancellation, and then tells nothing. -/
def listRepositories (setup : Setup) (s : State) :
    Answer (Except String (List Repository)) × State :=
  match s.machine.attempt none true (setup.manager.repositories setup.around) with
  | (some repositories, m) => s.later repositories m
  | (none, m) => s.later (.ok []) m

/-- One piece of work on a download. -/
def perform (setup : Setup) (m : Machine) : (job : Job) → job.Result × Machine
  | .fetch c dir limit => attempt (some limit) true (setup.manager.fetch setup.around c dir) m
  | .rest millis =>
    ((), { m with elapsed := m.elapsed + (Span.ofMillis (Backoff.rest millis 0)).nanos })
  | .digest path algorithm => (Verification.fileDigest m.files path algorithm, m)
  | .discard path => ((), m.withFiles (Verification.discard m.files path))

/-- Whether a piece of work is a rest. -/
def isRest : Job → Bool
  | .rest _ => true
  | _ => false

/-- The piece of work that is done next. -/
def next (pending : List Nat) (jobs : List (Nat × Job)) : Nat :=
  let busy := pending.filter fun i => (jobs.lookup i).any fun job => !isRest job
  (busy ++ pending).headD 0

/-- Does the piece of work of an index, or the last one. -/
def performAmong (setup : Setup) (index : Nat) (m : Machine) :
    (first : Nat × Job) → (rest : List (Nat × Job)) → Landing first rest × Machine
  | first, [] => perform setup m first.2
  | first, second :: rest =>
    if first.1 == index then
      let (result, m) := perform setup m first.2
      (.inl result, m)
    else
      let (landing, m) := performAmong setup index m second rest
      (.inr landing, m)

/-- Waits for one of several pieces of work. -/
def await (setup : Setup) (first : Nat × Job) (rest : List (Nat × Job)) (s : State) :
    Answer (Landing first rest) × State :=
  let index := next s.pending (first :: rest)
  let (landing, m) := performAmong setup index s.machine first rest
  { s with pending := s.pending.erase index }.later landing m

/-- A report for an emitter; printing takes no time. -/
def emit (setup : Setup) (index : Nat) (r : RunResult) (report : Report) (limit : Span)
    (s : State) : Answer (Timed (Except EmitError Unit)) × State :=
  match setup.emitters[index]? with
  | none => s.now (.inTime (.ok ()))
  | some .console => s.later (.inTime (.ok ())) (Emitter.print r report s.machine)
  | some emitter => timed s limit false (emitter.emit setup.around r report)

/-- A withdrawal for an emitter. -/
def clear (setup : Setup) (index : Nat) (s : State) : Answer (Except EmitError Unit) × State :=
  match setup.emitters[index]? with
  | none => s.now (.ok ())
  | some emitter =>
    let (result, m) := emitter.clear s.machine
    s.later result m

/-- The lock. -/
def acquireLock (setup : Setup) (s : State) : Answer (Except LockError Unit) × State :=
  let self := { setup.self with acquiredAt := s.time }
  match Lock.acquire s.machine.lock setup.lockPath self with
  | (.ok identity, lock) =>
    { s with machine := { s.machine with lock := lock }, own := some identity }.now (.ok ())
  | (.error e, lock) => { s with machine := { s.machine with lock := lock } }.now (.error e)

/-- An end to the lock. -/
def releaseLock (s : State) : Answer Unit × State :=
  match s.own with
  | some identity =>
    let lock := Lock.release s.machine.lock identity
    { s with machine := { s.machine with lock := lock }, own := none }.now ()
  | none => s.now ()

/-- A new marker. -/
def writeMarker (setup : Setup) (time : Instant) (s : State) : Answer (Option String) × State :=
  let (fs, cause) := Marker.write s.machine.files setup.markerPath time
  { s with machine := s.machine.withFiles fs }.now
    (cause.map (Marker.writeFailure setup.markerPath))

/-- Whether there is a network. -/
def lookForNetwork (setup : Setup) (s : State) : Answer Bool × State :=
  { s with firstLook := some (s.firstLook.getD s.machine.elapsed) }.now
    (Host.isOnline s.machine.files setup.interfaces)

/-- How long to wait before the network is looked for again. -/
def lookInterval : Span := Span.ofSeconds 1

/-- The answers of a machine. -/
def answer (setup : Setup) : World State
  | .now, s => s.now s.time
  | .acquireLock, s => acquireLock setup s
  | .releaseLock, s => releaseLock s
  | .readMarker, s => s.now (Marker.read s.machine.files setup.markerPath)
  | .writeMarker time, s => writeMarker setup time s
  | .sleepRandomly most, s => s.pass (Span.ofSeconds most)
  | .lookForNetwork, s => lookForNetwork setup s
  | .networkOverdue limit, s =>
    s.now (limit.nanos ≤ s.machine.elapsed - s.firstLook.getD s.machine.elapsed)
  | .sleepBetweenLooks, s => s.pass lookInterval
  | .listRepositories, s => listRepositories setup s
  | .refresh repository limit, s =>
    timed s limit true (setup.manager.refresh setup.around repository)
  | .query repositories limit, s =>
    timed s limit true (setup.manager.upgrades setup.around repositories)
  | .begin index _, s => { s with pending := s.pending ++ [index] }.now none
  | .await first rest, s => await setup first rest s
  | .apply artifacts limit, s =>
    timed s limit true (setup.manager.apply setup.around (artifacts.map Artifact.path))
  | .rebootReason applied, s => s.now (.ok (Reboot.reason applied))
  | .reboot command, s =>
    let (result, m) := Host.reboot setup.around command s.machine
    s.later result m
  | .emit index r report limit, s => emit setup index r report limit s
  | .clear index, s => clear setup index s

end Upkeep.Live
