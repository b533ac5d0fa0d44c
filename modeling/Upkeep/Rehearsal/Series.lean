import Upkeep.Rehearsal.World
import Upkeep.Run

/-!
# A series of runs

Several runs on one rehearsal's files, and what happens between them: the marker is aged, spoilt
or removed, someone else holds the lock, or a file gets in the way. A millisecond passes before
each run.

## Main definitions

* `Series`, `Series.Step`, `Series.take`.
* `Series.Account`: what can be told about one run afterwards.
-/

namespace Upkeep.Rehearsal

/-- What stays the same in a series. -/
structure Setting where
  /-- The configuration. -/
  config : Config
  /-- What the collaborators do. -/
  script : Script
  /-- Whether a timer starts the runs. -/
  timer : Bool

namespace Setting

/-- Where the runs keep their lock file and their marker. -/
def sites (s : Setting) : Sites := ⟨s.config.state.lockPath, s.config.state.timestampPath⟩

/-- What the runs are set up with. -/
def runSettings (s : Setting) : Run.Settings where
  config := s.config
  hostName := "localhost"
  timer := s.timer
  emitters := ⟨s.script.emitters.map EmitterScript.name, s.config.emitters.emitWhenUpToDate,
    Span.ofSeconds s.config.emitters.timeoutSecs⟩
  patience := s.script.offlineLooks + 2

end Setting

namespace Series

/-- What can be told about one run afterwards. -/
structure Account where
  /-- What the run came to. -/
  record : Run.Record
  /-- The rehearsal after it. -/
  state : State
  /-- What collaborators were asked during the run, in order. -/
  events : List Event
  /-- Whether the run wrote the marker. -/
  wroteMarker : Bool
  /-- Whether the run left the lock to others; so it does when someone else holds it. -/
  lockFree : Bool
  /-- Whether the marker it found was written by hand. -/
  foundHandWritten : Bool

/-- One thing that happens. -/
inductive Step where
  /-- A run, which may be cancelled before it starts. -/
  | run (cancelled : Bool)
  /-- A marker so many seconds old. -/
  | ageMarker (seconds : Int)
  /-- A marker with some content. -/
  | writeMarker (content : ByteArray)
  /-- No marker. -/
  | removeMarker
  /-- Someone else takes the lock and writes something into its file. -/
  | holdLock (content : ByteArray)
  /-- He lets go of it. -/
  | releaseLock
  /-- A file. -/
  | putFile (path : String) (content : ByteArray)

end Series

/-- A series so far. -/
structure Series where
  /-- The rehearsal. -/
  state : State
  /-- The file that someone else has locked. -/
  hold : Option Nat
  /-- Whether the marker was written by hand. -/
  handWritten : Bool
  /-- The runs so far. -/
  accounts : List Series.Account

namespace Series

/-- A series on some files. -/
def start (fs : Files) (time : Instant) (self : Holder) : Series where
  state := ⟨0, time, self, ⟨fs, []⟩, none, false, [], [], 0⟩
  hold := none
  handWritten := false
  accounts := []

/-- A file with some content, in a directory that is created. -/
def place (s : Series) (path : String) (content : ByteArray) : Series :=
  { s with state := s.state.withFiles (s.state.files.perform (Files.placing path content)).1 }

/-- The content of a file, if there is one. -/
def content? (fs : Files) (path : String) : Option ByteArray :=
  match fs.read path with
  | .ok bytes => some bytes
  | .error _ => none

/-- Whether the lock can be taken. -/
def isFree (setting : Setting) (s : State) : Bool :=
  (Lock.acquire s.lock setting.sites.lock s.self).1.isOk

/-- One run. -/
def runOnce (setting : Setting) (cancelled : Bool) (s : Series) : Series :=
  let start := { s.state with
    cancelled := cancelled
    pending := []
    time := s.state.time.plus (Span.ofMillis 1) }
  let (record, state) := (Run.run setting.runSettings).run
    (answer setting.script setting.sites) start
  let wrote := content? state.files setting.sites.marker !=
    content? start.files setting.sites.marker
  let account : Account :=
    { record := record
      state := state
      events := (state.events.take (state.events.length - start.events.length)).reverse
      wroteMarker := wrote
      lockFree := s.hold.isSome || isFree setting state
      foundHandWritten := s.handWritten }
  { s with
    state := state
    handWritten := s.handWritten && !wrote
    accounts := s.accounts ++ [account] }

/-- Someone else takes the lock, if it is free. -/
def takeLock (setting : Setting) (content : ByteArray) (s : Series) : Series :=
  match Lock.acquire s.state.lock setting.sites.lock s.state.self with
  | (.ok identity, lock) =>
    { s with hold := some identity, state := { s.state with lock := lock } }.place
      setting.sites.lock content
  | (.error _, lock) => { s with state := { s.state with lock := lock } }

/-- The lock that someone else holds is let go of. -/
def letGo (s : Series) : Series :=
  match s.hold with
  | some identity =>
    { s with
      hold := none
      state := { s.state with lock := Lock.release s.state.lock identity } }
  | none => s

/-- The series after one more thing happened. -/
def take (setting : Setting) (s : Series) : Step → Series
  | .run cancelled => s.runOnce setting cancelled
  | .ageMarker seconds =>
    let time := s.state.time.minusSeconds seconds
    let files := (Marker.write s.state.files setting.sites.marker time).1
    { s with state := s.state.withFiles files, handWritten := false }
  | .writeMarker content =>
    { s.place setting.sites.marker content with handWritten := true }
  | .removeMarker =>
    let files := (s.state.files.perform [.remove setting.sites.marker]).1
    { s with state := s.state.withFiles files }
  | .holdLock content => s.takeLock setting content
  | .releaseLock => s.letGo
  | .putFile path content => s.place path content

end Series

end Upkeep.Rehearsal
