import Upkeep.Application
import Upkeep.Json.Reader
import Upkeep.Rehearsal.Description

/-!
# The program

Tries a command line out on a machine that is described on standard input: its files, the stubs
that stand in for its programs, the process, the host and the time. Prints what the program prints
there and ends with its exit code.
-/

namespace Upkeep.Main

/-- All that can be read. -/
partial def readAll (input : IO.FS.Stream) (start : String) : IO String := do
  let line ← input.getLine
  if line.isEmpty then return start else readAll input (start ++ line)

/-- The program's exit code and the machine it leaves. -/
def onMachine (description : Json) (args : List String) : Nat × Machine :=
  Application.run (Rehearsal.readSurroundings description) (Rehearsal.readHolder description) args
    (Machine.start (Rehearsal.readFiles "/" description Files.empty))

end Upkeep.Main

/-- Runs a command line on the described machine. -/
def main (args : List String) : IO UInt32 := do
  let text ← Upkeep.Main.readAll (← IO.getStdin) ""
  match Upkeep.Json.parse text with
  | none =>
    IO.eprintln "the machine is not described in JSON"
    return 1
  | some description =>
    let (code, machine) := Upkeep.Main.onMachine description args
    IO.print machine.output
    IO.eprint machine.errors
    return UInt32.ofNat code
