import Upkeep.Files
import Upkeep.Json.Reader
import Upkeep.Json.Record

/-!
# The lock

One run at a time: a run holds an exclusive lock on the lock file, and the system lets go of it
when the run is gone. The lock is on the file's identity. The file's content says who took it and
is for messages only: it is written after the lock was taken and stays behind.

## Main definitions

* `Holder`: who holds the lock, with its stored form.
* `Lock.State`: the files and which of them are locked.
* `Lock.acquire`, `Lock.release`.
-/

namespace Upkeep

/-- Who holds the lock. -/
structure Holder where
  /-- The process. -/
  pid : Nat
  /-- The host it runs on. -/
  host : String
  /-- When it took the lock. -/
  acquiredAt : Instant
  deriving DecidableEq, Repr

namespace Holder

/-- The stored form. -/
def toJson (h : Holder) : Json :=
  Json.record [("pid", .nat h.pid), ("host", .text h.host),
    ("acquired_at", .text h.acquiredAt.storedText)]

/-- Reads the stored form. -/
def ofJson (j : Json) : Option Holder := do
  let r ← Json.asRecord ["pid", "host", "acquired_at"] j
  let pid ← r.required "pid" (Json.asNat 4294967296)
  let host ← r.required "host" Json.asText
  let acquiredAt ← r.required "acquired_at" (fun v => (Json.asText v).bind Instant.parse)
  some ⟨pid, host, acquiredAt⟩

/-- The holder that a lock file names. -/
def parse (content : String) : Option Holder := (Json.parse content).bind ofJson

end Holder

/-- Why the lock was not taken. -/
inductive LockError where
  /-- Another run holds it. -/
  | alreadyRunning (holder : Option Holder)
  /-- The lock file could not be opened. -/
  | io (path : String) (cause : IoCause)
  deriving DecidableEq, Repr

/-- The message. -/
def LockError.message : LockError → String
  | .alreadyRunning none => "Another run is in progress"
  | .alreadyRunning (some h) =>
    "Another run is in progress (pid " ++ toString h.pid ++ " on " ++ h.host ++ " since " ++
      h.acquiredAt.text ++ ")"
  | .io path cause => "Lock IO error on " ++ path ++ ": " ++ cause.text

namespace Lock

/-- The files, and the identities of those that are locked. -/
structure State where
  /-- The files. -/
  files : Files
  /-- The locked ones. -/
  held : List Nat

/-- The holder that the lock file names, when it can be read. -/
def holder? (fs : Files) (path : String) : Option Holder :=
  match fs.readText path with
  | .ok content => Holder.parse content
  | .error _ => none

/-- Opens the lock file, in a directory that is created; answers which file it is. -/
def openLockFile (fs : Files) (path : String) : Except IoCause Nat × Files :=
  match fs.createDirs (Path.parent path) with
  | (fs, some cause) => (.error cause, fs)
  | (fs, none) =>
    match fs.openFile path with
    | .error cause => (.error cause, fs)
    | .ok (identity, fs) => (.ok identity, fs)

/-- What the lock file holds while `h` holds the lock. -/
def record (h : Holder) : ByteArray := h.toJson.compact.toUTF8

/-- Takes the lock, unless the file is locked; answers which file was locked. The new holder is
recorded only then. -/
def acquire (s : State) (path : String) (self : Holder) : Except LockError Nat × State :=
  match openLockFile s.files path with
  | (.error cause, fs) => (.error (.io path cause), { s with files := fs })
  | (.ok identity, fs) =>
    if s.held.contains identity then
      (.error (.alreadyRunning (holder? fs path)), { s with files := fs })
    else
      let (fs, _) := fs.perform (Files.writing path (record self))
      (.ok identity, ⟨fs, identity :: s.held⟩)

/-- Lets go of a locked file. -/
def release (s : State) (identity : Nat) : State := { s with held := s.held.erase identity }

end Lock

end Upkeep
