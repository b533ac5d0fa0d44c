import Upkeep.Errors
import Upkeep.Files
import Upkeep.Report

/-!
# The notice file

The report of the last run as a message of the day. It is written by way of its temporary
sibling, so a reader sees one report or the other, and it is removed when there is nothing left
to say.

## Main definitions

* `Notice.publish`, `Notice.withdraw`.
-/

namespace Upkeep.Notice

/-- What the file holds. -/
def content (report : Report) : ByteArray := (report.fullText ++ "\n").toUTF8

/-- What comes of steps on files. -/
def outcome : Option IoCause → Except EmitError Unit
  | none => .ok ()
  | some cause => .error (.io cause.text)

/-- Writes a report. -/
def publish (fs : Files) (path : String) (report : Report) : Except EmitError Unit × Files :=
  let (fs, cause) := fs.perform (Files.publication path (content report))
  (outcome cause, fs)

/-- Removes the file; it may be missing. -/
def withdraw (fs : Files) (path : String) : Except EmitError Unit × Files :=
  match fs.remove path with
  | .ok fs => (.ok (), fs)
  | .error .notFound => (.ok (), fs)
  | .error cause => (.error (.io cause.text), fs)

end Upkeep.Notice
