import Upkeep.Rehearsal.Stub

/-!
# Described machines

A machine for trying things out, as people write it: the stubs that stand in for its programs, the
files on it, and who runs the program on it, when. There is no network.

## Main definitions

* `Rehearsal.readSurroundings`, `Rehearsal.readFiles`, `Rehearsal.readHolder`.
-/

namespace Upkeep.Rehearsal

/-- The surroundings of a described machine. -/
def readSurroundings (j : Json) : Surroundings where
  programs := programs ((j.listAt "stubs").map readStub)
  web := fun address => .unanswered (Web.noConnection address Web.networkUnreachable)
  mail := .unreachable Web.networkUnreachable

/-- A file with some content, in a directory that is created. -/
def putFile (fs : Files) (path : String) (content : ByteArray) : Files :=
  (fs.perform (Files.placing path content)).1

/-- The described files, added below a directory. -/
def readFiles (dir : String) (j : Json) (fs : Files) : Files :=
  (j.part "files").members.foldl (fun fs (path, content) =>
    match content with
    | .text t => putFile fs (Path.join dir path) t.toUTF8
    | _ => fs) fs

/-- Who runs the program, where and when. -/
def readHolder (j : Json) : Holder where
  pid := j.natAt "pid" 1
  host := (j.textAt? "host").getD "localhost"
  acquiredAt := ((j.textAt? "now").bind Instant.parse).getD ⟨0, 0⟩

end Upkeep.Rehearsal
