import Upkeep.Files
import Upkeep.Json.Reader
import Upkeep.Json.Record

/-!
# The last-run marker

A file that says when a run last settled, and the rule by which it makes the next one due. A
marker that is missing or cannot be read means that there was no run. It is written by way of a
temporary file, so it never holds a part of a new time.

## Main definitions

* `Marker.isDue`.
* `Marker.read`, `Marker.write`.
-/

namespace Upkeep.Marker

/-- Whether a run is due: there was none, none is required to pass between runs, the last one
lies in the future (the clock went back), or enough time has passed. -/
def isDue (last : Option Instant) (now : Instant) (interval : Span) : Bool :=
  match last with
  | none => true
  | some last =>
    if interval.nanos == 0 || now.before last then true
    else
      match now.since? last with
      | some elapsed => interval.nanos ≤ elapsed.nanos
      | none => true

/-- The version of the stored form. -/
def version : Nat := 1

/-- The stored form. -/
def toJson (time : Instant) : Json :=
  Json.record [("last_run", .text time.storedText), ("version", .nat version)]

/-- Reads the stored form, of any version. -/
def ofJson (j : Json) : Option Instant := do
  let r ← Json.asRecord ["last_run", "version"] j
  let lastRun ← r.required "last_run" (fun v => (Json.asText v).bind Instant.parse)
  let _ ← r.required "version" (Json.asNat 4294967296)
  some lastRun

/-- The text of the marker. -/
def content (time : Instant) : ByteArray := (toJson time).pretty.toUTF8

/-- When the last run was, as far as the marker says. -/
def read (fs : Files) (path : String) : Option Instant :=
  match fs.readText path with
  | .ok text => (Json.parse text).bind ofJson
  | .error _ => none

/-- Writes the marker. -/
def write (fs : Files) (path : String) (time : Instant) : Files × Option IoCause :=
  fs.perform (Files.publication path (content time))

/-- The message about a marker that could not be written. -/
def writeFailure (path : String) (cause : IoCause) : String :=
  "Failed to write " ++ path ++ ": " ++ cause.text

end Upkeep.Marker
