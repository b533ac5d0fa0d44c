import Upkeep.Json.Loose
import Upkeep.Machine

/-!
# Stubs

A stub stands in for a program: it answers the commands whose arguments contain a given text, and
does what it is told to. The first stub that fits a command answers it. A known program for which
no stub fits does nothing and succeeds; every other program is missing.

## Main definitions

* `Rehearsal.Stub`, `Rehearsal.programs`.
* `Rehearsal.readStub`: a stub as people write it.
-/

namespace Upkeep.Rehearsal

/-- A stand-in for a program. -/
structure Stub where
  /-- The program. -/
  program : String
  /-- What the arguments contain. -/
  part : String
  /-- What it does. -/
  conduct : Conduct
  /-- The files it creates where it is told to put downloads. -/
  downloads : List (String × ByteArray) := []

/-- Whether a text is contained in another one. -/
def isPart (part : List Char) : List Char → Bool
  | [] => part.isEmpty
  | c :: cs => part.isPrefixOf (c :: cs) || isPart part cs

namespace Stub

/-- Whether a stub answers a command. -/
def fits (s : Stub) (c : Command) : Bool :=
  c.program == s.program && isPart s.part.toList (String.intercalate " " c.args).toList

/-- The directory in which a command is told to put downloads. -/
def downloadDir? : (args : List String) → Option String
  | "--destdir" :: dir :: _ => some dir
  | _ :: args => downloadDir? args
  | [] => none

/-- What a stub does for a command. -/
def conductFor (s : Stub) (c : Command) : Conduct :=
  match downloadDir? c.args with
  | none => s.conduct
  | some dir =>
    { s.conduct with
      files := s.downloads.map fun (name, content) => (Path.join dir name, content) }

end Stub

/-- The programs that have stand-ins. -/
def knownPrograms : List String := ["dnf", "rpm", "logger", "sh"]

/-- What programs do when stubs stand in for them. -/
def programs (stubs : List Stub) : Programs := fun c =>
  if knownPrograms.contains c.program then
    match stubs.find? (fun s => s.fits c) with
    | some s => some (s.conductFor c)
    | none => some {}
  else none

/-! ### Written stubs -/

/-- Bytes from pairs of hexadecimal digits. -/
def hexBytes : List Char → List UInt8
  | a :: b :: rest =>
    UInt8.ofNat ((Text.hexDigit? a).getD 0 * 16 + (Text.hexDigit? b).getD 0) :: hexBytes rest
  | _ => []

/-- A member that is text, or bytes written as hexadecimal digits under another name. -/
def bytesAt (j : Json) (text hex : String) : ByteArray :=
  match j.textAt? hex with
  | some digits => ⟨(hexBytes digits.toList).toArray⟩
  | none => (j.textAt text).toUTF8

/-- How a stub ends. -/
def readStatus (j : Json) : ExitStatus :=
  match j.part "signal" with
  | .null => .code (j.intAt "exit" % 256).toNat
  | _ => .signal (j.natAt "signal" 0)

/-- A stub. -/
def readStub (j : Json) : Stub where
  program := j.textAt "prog"
  part := j.textAt "match"
  conduct := {
    span := Span.ofMillis (j.natAt "sleep_ms" 0)
    status := readStatus j
    output := bytesAt j "stdout" "stdout_hex"
    errors := bytesAt j "stderr" "stderr_hex"
    cancels := j.natAt "kill_parent" 0 != 0 }
  downloads := (j.part "creates").members.filterMap fun (name, content) =>
    match content with
    | .text t => some (name, t.toUTF8)
    | _ => none

end Upkeep.Rehearsal
