import Upkeep.Download.Backoff
import Upkeep.Download.Verification
import Upkeep.Emitters.Notice
import Upkeep.Marker
import Upkeep.Program
import Upkeep.Rehearsal.Script

/-!
# The world of a rehearsal

A rehearsal answers a run's requests from a script, over files of its own and on a clock of its
own. Nothing really waits: whatever would pass the time moves the clock, and of the work in
flight the piece that is due first is done first, in the order in which they were begun when they
are due together. Work with a limit is given up on when the limit comes first.

Work on files takes no time, but has to be waited for. A fetch that runs out of time at the very
moment its artifact arrives has created the directory and nothing in it.

## Main definitions

* `Rehearsal.State`, `Rehearsal.Event`.
* `Rehearsal.answer`: the world.
-/

namespace Upkeep.Rehearsal

/-- Where a run keeps its lock file and its marker. -/
structure Sites where
  /-- The lock file. -/
  lock : String
  /-- The last-run marker. -/
  marker : String
  deriving DecidableEq, Repr

/-- What collaborators were asked. -/
inductive Event where
  /-- The repositories. -/
  | listed
  /-- A refresh. -/
  | refreshed (repository : String)
  /-- The upgrades of repositories. -/
  | queried (repositories : List String)
  /-- A fetch of a package's artifact. -/
  | fetched (name : String)
  /-- A transaction. -/
  | applied (packages : List PackageId)
  /-- Whether there is a network. -/
  | looked
  /-- A reboot, by a command that succeeded. -/
  | rebooted (command : String)
  /-- A report. -/
  | emitted (emitter : String) (outcome : Outcome) (report : Report)
  /-- A withdrawal. -/
  | cleared (emitter : String)
  deriving DecidableEq, Repr

/-- A piece of work in flight. -/
structure Pending where
  /-- The index of its candidate. -/
  index : Nat
  /-- Nanoseconds on the clock when it is done or given up on. -/
  due : Nat
  /-- Whether it is given up on then. -/
  expires : Bool
  /-- The attempt, for a fetch. -/
  attempt : Nat
  deriving DecidableEq, Repr

/-- The state of a rehearsal. -/
structure State where
  /-- Nanoseconds since the rehearsal began. -/
  clock : Nat
  /-- The time that is told. -/
  time : Instant
  /-- Who the run is. -/
  self : Holder
  /-- The files and the locks on them. -/
  lock : Lock.State
  /-- The file the run has locked. -/
  own : Option Nat
  /-- Whether cancellation has been requested. -/
  cancelled : Bool
  /-- What collaborators were asked, the latest first. -/
  events : List Event
  /-- The work in flight, in the order in which it was begun. -/
  pending : List Pending
  /-- The most fetches that were in flight at a time. -/
  mostFetches : Nat

namespace State

/-- The files. -/
def files (s : State) : Files := s.lock.files

/-- Other files. -/
def withFiles (s : State) (fs : Files) : State := { s with lock := { s.lock with files := fs } }

/-- One more thing that was asked. -/
def note (s : State) (e : Event) : State := { s with events := e :: s.events }

/-- Time passes. -/
def pass (s : State) (span : Span) : State := { s with clock := s.clock + span.nanos }

/-- An answer at once. -/
def now {α : Type} (s : State) (value : α) : Answer α × State := (⟨value, false, s.cancelled⟩, s)

/-- An answer that was waited for. -/
def later {α : Type} (s : State) (value : α) : Answer α × State := (⟨value, true, s.cancelled⟩, s)

/-- How often something was asked. -/
def count (s : State) (p : Event → Bool) : Nat := s.events.countP p

/-- How often a package's artifact was fetched. -/
def fetches (s : State) (name : String) : Nat := s.count (· == .fetched name)

end State

/-- A call that may be the one at which the run is cancelled: whether it then hangs. -/
def arrive (script : Script) (site : CallSite) (s : State) : Bool × State :=
  match script.cancellation.find? (fun c => c.site == site) with
  | some c => (c.hang, { s with cancelled := true })
  | none => (false, s)

/-- An answer that is waited for forever, or comes at once. A call hangs only when the run is
cancelled at it, so nobody learns the value. -/
def respond {α : Type} (hang : Bool) (s : State) (value : α) : Answer α × State :=
  if hang then s.later value else s.now value

/-! ### Metadata and query -/

/-- The enabled repositories. -/
def listRepositories (script : Script) (s : State) :
    Answer (Except String (List Repository)) × State :=
  let (hang, s) := arrive script .repositories (s.note .listed)
  respond hang s <| match script.listingFailure with
    | some reason => .error reason
    | none => .ok (script.repositories.map RepositoryScript.repository)

/-- How the refresh of a repository goes; of several of one name, the worst. -/
def refreshOf (script : Script) (repository : String) : RefreshScript :=
  let ways := (script.repositories.filter (fun r => r.repository.id == repository)).map
    RepositoryScript.refresh
  if ways.contains .hang then .hang else if ways.contains .fail then .fail else .ok

/-- A refresh. -/
def refresh (script : Script) (repository : String) (limit : Span) (s : State) :
    Answer (Timed (Except String Unit)) × State :=
  let (hang, s) := arrive script .refresh (s.note (.refreshed repository))
  match refreshOf script repository with
  | .hang => (s.pass limit).later .expired
  | .fail =>
    respond hang s (.inTime (.error ("Cannot download repomd.xml for " ++ repository)))
  | .ok => respond hang s (.inTime (.ok ()))

/-- What is offered. -/
def query (script : Script) (repositories : List String) (limit : Span) (s : State) :
    Answer (Timed (Except String (List Candidate))) × State :=
  let (hang, s) := arrive script .query (s.note (.queried repositories))
  if script.queryHangs then (s.pass limit).later .expired
  else
    respond hang s <| .inTime <| match script.queryFailure with
      | some reason => .error reason
      | none =>
        .ok (script.candidates.filter fun c => script.unfiltered || repositories.contains c.repo)

/-! ### Downloads -/

/-- What a fetch brings: an artifact, or why there is none; nothing when it never returns. -/
inductive Parcel where
  /-- An artifact. -/
  | bytes (content : ByteArray)
  /-- Word of an artifact that is not there. -/
  | ghost
  /-- A failure. -/
  | failure (e : FetchError)
  /-- Nothing. -/
  | nothing

/-- What the fetch of an artifact brings at an attempt. -/
def parcel (script : Script) (c : Candidate) (attempt : Nat) : Parcel :=
  match script.fetchOf c.name with
  | .ok => .bytes (artifact c)
  | .transientThenOk failures =>
    if attempt ≤ failures then
      .failure (.transient ("connection reset (attempt " ++ toString attempt ++ ")"))
    else .bytes (artifact c)
  | .alwaysTransient => .failure (.transient "mirror timed out")
  | .permanent => .failure (.permanent "HTTP 404")
  | .wrongContent => .bytes "truncated".toUTF8
  | .hang => .nothing
  | .ghost => .ghost
  | .content bytes => .bytes bytes

/-- Whether work on files follows when a fetch arrives. -/
def Parcel.isFile : Parcel → Bool
  | .bytes _ => true
  | _ => false

/-- A directory, as far as it can be created. -/
def prepare (dir : String) (s : State) : State := s.withFiles (s.files.createDirs dir).1

/-- A fetch arrives. -/
def unload (c : Candidate) (dir : String) (parcel : Parcel) (s : State) :
    Except FetchError String × State :=
  let path := Path.join dir c.artifactFileName
  match parcel with
  | .failure e => (.error e, s)
  | .ghost | .nothing => (.ok path, s)
  | .bytes content =>
    match s.files.perform (.createDirs dir :: Files.writing path content) with
    | (fs, none) => (.ok path, s.withFiles fs)
    | (fs, some cause) => (.error (.permanent cause.text), s.withFiles fs)

/-- One more piece of work in flight. -/
def depart {α : Type} (p : Pending) (s : State) : Answer (Option α) × State :=
  { s with pending := s.pending ++ [p] }.now none

/-- The start of a fetch. -/
def beginFetch (script : Script) (index : Nat) (c : Candidate) (dir : String) (limit : Span)
    (s : State) : Answer (Option (Timed (Except FetchError String))) × State :=
  let attempt := s.fetches c.name + 1
  let (hang, s) := arrive script .fetch (s.note (.fetched c.name))
  let flying := s.pending.countP (fun p => p.attempt != 0)
  let s := { s with mostFetches := max s.mostFetches (flying + 1) }
  let load := if hang then .nothing else parcel script c attempt
  let arrival := s.clock + script.fetchMillis * 1000000
  let deadline := s.clock + limit.nanos
  let fly (due : Nat) (expires : Bool) (s : State) := depart ⟨index, due, expires, attempt⟩ s
  match load with
  | .nothing => fly deadline true s
  | .bytes _ =>
    let s := if script.fetchMillis == 0 then prepare dir s else s
    if deadline ≤ arrival then fly deadline true s else fly arrival false s
  | .failure _ | .ghost =>
    if script.fetchMillis == 0 then
      let (result, s) := unload c dir load s
      s.now (some (.inTime result))
    else if deadline < arrival then fly deadline true s
    else fly arrival false s

/-- The start of a piece of work. -/
def begin (script : Script) (index : Nat) (s : State) :
    (job : Job) → Answer (Option job.Result) × State
  | .fetch c dir limit => beginFetch script index c dir limit s
  | .rest millis => depart ⟨index, s.clock + Backoff.rest millis 0 * 1000000, false, 0⟩ s
  | .digest .. | .discard _ => depart ⟨index, s.clock, false, 0⟩ s

/-- The end of a piece of work that was in flight. -/
def land (script : Script) (p : Pending) (s : State) : (job : Job) → job.Result × State
  | .fetch c dir limit =>
    if p.expires then
      let late := (parcel script c p.attempt).isFile && Span.ofMillis script.fetchMillis == limit
      (.expired, if late then prepare dir s else s)
    else
      let (result, s) := unload c dir (parcel script c p.attempt) s
      (.inTime result, s)
  | .rest _ => ((), s)
  | .digest path algorithm => (Verification.fileDigest s.files path algorithm, s)
  | .discard path => ((), s.withFiles (Verification.discard s.files path))

/-- The work that is due first. -/
def soonest (s : State) : Option Pending :=
  s.pending.foldl (fun best p =>
    match best with
    | none => some p
    | some b => if p.due < b.due then some p else best) none

/-- The end of a piece of work among those that are waited for: of the given one, or of the last
when it is not among them. -/
def landAmong (script : Script) (p : Pending) (s : State) :
    (first : Nat × Job) → (rest : List (Nat × Job)) → Landing first rest × State
  | first, [] => land script p s first.2
  | first, next :: rest =>
    if first.1 == p.index then
      let (result, s) := land script p s first.2
      (.inl result, s)
    else
      let (landing, s) := landAmong script p s next rest
      (.inr landing, s)

/-- Waits for the work that is due first. -/
def await (script : Script) (first : Nat × Job) (rest : List (Nat × Job)) (s : State) :
    Answer (Landing first rest) × State :=
  let p := (soonest s).getD ⟨first.1, s.clock, false, 0⟩
  let s := { s with
    clock := max s.clock p.due
    pending := s.pending.filter (fun q => q.index != p.index) }
  if s.cancelled then
    let (landing, _) := landAmong script p s first rest
    s.later landing
  else
    let (landing, s) := landAmong script p s first rest
    s.later landing

/-! ### Transaction, host and emitters -/

/-- The transaction. -/
def apply (script : Script) (artifacts : List Artifact) (limit : Span) (s : State) :
    Answer (Timed (Except TransactionError Unit)) × State :=
  let (hang, s) := arrive script .apply (s.note (.applied (artifacts.map (·.candidate.id))))
  let span := Span.ofMillis script.applyMillis
  let result : Except TransactionError Unit := match script.applyFailure with
    | some e => .error e
    | none => .ok ()
  if limit.nanos < span.nanos then (s.pass limit).later .expired
  else if span.nanos == 0 then respond hang s (.inTime result)
  else (s.pass span).later (.inTime result)

/-- Whether there is a network. -/
def lookForNetwork (script : Script) (s : State) : Answer Bool × State :=
  let looks := s.count (· == .looked)
  let (hang, s) := arrive script .network (s.note .looked)
  respond hang s (script.offlineLooks ≤ looks)

/-- Why what was applied needs a reboot. -/
def rebootReason (script : Script) (applied : List Candidate) (s : State) :
    Answer (Except String (Option String)) × State :=
  let (hang, s) := arrive script .rebootCheck s
  let names := (applied.map Candidate.name).filter script.rebootPackages.contains
  respond hang s <| match script.rebootCheckFailure with
    | some reason => .error reason
    | none =>
      if names.isEmpty then .ok none
      else .ok (some ("core packages updated: " ++ String.intercalate ", " names))

/-- The reboot command. -/
def reboot (script : Script) (command : String) (s : State) : Answer (Except String Unit) × State :=
  if script.rebootFails then s.now (.error "reboot command exited with status 1")
  else (s.note (.rebooted command)).now (.ok ())

/-- What an emitter's script makes of a call. -/
def scripted : Option EmitError → Except EmitError Unit
  | some e => .error e
  | none => .ok ()

/-- A report for an emitter. -/
def emit (script : Script) (index : Nat) (r : RunResult) (report : Report) (limit : Span)
    (s : State) : Answer (Timed (Except EmitError Unit)) × State :=
  match script.emitters[index]? with
  | none => s.now (.inTime (.ok ()))
  | some (.recorder name failure hang _) =>
    let s := s.note (.emitted name r.outcome report)
    if hang then (s.pass limit).later .expired else s.now (.inTime (scripted failure))
  | some (.notice path) =>
    if limit.nanos == 0 then (prepare (Path.parent path) s).later .expired
    else
      let (result, fs) := Notice.publish s.files path report
      (s.withFiles fs).later (.inTime result)

/-- A withdrawal for an emitter. -/
def clear (script : Script) (index : Nat) (s : State) : Answer (Except EmitError Unit) × State :=
  match script.emitters[index]? with
  | none => s.now (.ok ())
  | some (.recorder name _ _ failure) => (s.note (.cleared name)).now (scripted failure)
  | some (.notice path) =>
    let (result, fs) := Notice.withdraw s.files path
    (s.withFiles fs).later result

/-! ### Lock and marker -/

/-- The lock. -/
def acquireLock (sites : Sites) (s : State) : Answer (Except LockError Unit) × State :=
  match Lock.acquire s.lock sites.lock s.self with
  | (.ok identity, lock) => { s with lock := lock, own := some identity }.now (.ok ())
  | (.error e, lock) => { s with lock := lock }.now (.error e)

/-- An end to the lock. -/
def releaseLock (s : State) : Answer Unit × State :=
  match s.own with
  | some identity => { s with lock := Lock.release s.lock identity, own := none }.now ()
  | none => s.now ()

/-- A new marker. -/
def writeMarker (sites : Sites) (time : Instant) (s : State) : Answer (Option String) × State :=
  let (fs, cause) := Marker.write s.files sites.marker time
  (s.withFiles fs).now (cause.map (Marker.writeFailure sites.marker))

/-- The answers of a rehearsal. -/
def answer (script : Script) (sites : Sites) : World State
  | .now, s => s.now s.time
  | .acquireLock, s => acquireLock sites s
  | .releaseLock, s => releaseLock s
  | .readMarker, s => s.now (Marker.read s.files sites.marker)
  | .writeMarker time, s => writeMarker sites time s
  | .sleepRandomly most, s => (s.pass (Span.ofSeconds most)).later ()
  | .lookForNetwork, s => lookForNetwork script s
  | .networkOverdue _, s => s.now false
  | .sleepBetweenLooks, s => s.later ()
  | .listRepositories, s => listRepositories script s
  | .refresh repository limit, s => refresh script repository limit s
  | .query repositories limit, s => query script repositories limit s
  | .begin index job, s => begin script index s job
  | .await first rest, s => await script first rest s
  | .apply artifacts limit, s => apply script artifacts limit s
  | .rebootReason applied, s => rebootReason script applied s
  | .reboot command, s => reboot script command s
  | .emit index r report limit, s => emit script index r report limit s
  | .clear index, s => clear script index s

end Upkeep.Rehearsal
