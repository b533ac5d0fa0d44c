import Upkeep.Text.Chars

/-!
# Paths

A path is text, and stays the text it was given as: messages show it, and two texts may lead to
one place. As text it can be joined to a directory, cut down to the directory it is in, and given
another extension; empty segments and `.` at its end do not count there. Where it leads is another
matter, which the tree of files decides step by step, since `..` leads up only from a directory
that is there.

## Main definitions

* `Path.Step`, `Path.steps`: what a path says to do, from the root on.
* `Path.ancestors`, `Path.parent`: the directories a path is in.
* `Path.join`: a path below a directory.
* `Path.temporary`: the sibling a file is written to before it takes its place.
-/

namespace Upkeep

/-- The names from the root down. -/
abbrev Place := List String

namespace Path

/-! ### Steps -/

/-- One step of a path. -/
inductive Step where
  /-- Nowhere. -/
  | stay
  /-- To the directory that a directory is in; the root is in itself. -/
  | up
  /-- To something in a directory. -/
  | enter (name : String)
  deriving DecidableEq, Repr

/-- What stands between slashes. -/
def segments (path : String) : List String := (Text.splitOn '/' path.toList).map String.ofList

/-- The step that a segment stands for; an empty one stands for none. -/
def stepOf? : String → Option Step
  | "" => none
  | "." => some .stay
  | ".." => some .up
  | name => some (.enter name)

/-- The steps of a path. Every path starts at the root. -/
def steps (path : String) : List Step := (segments path).filterMap stepOf?

/-- Whether a path ends in a slash, so that only a directory will do. -/
def endsInSlash (path : String) : Bool := path.toList.getLast? == some '/'

/-! ### Text -/

/-- The text of segments, given from the last to the first. -/
def ofReversed (segments : List String) : String := String.intercalate "/" segments.reverse

/-- Whether a segment does not count at the end of a path. -/
def isIdle (segment : String) : Bool := segment == "" || segment == "."

/-- The segments of a path, from the last that counts to the first. -/
def reversed (path : String) : List String := (segments path).reverse.dropWhile isIdle

/-- The paths of which the given segments, from the last to the first, are the ends. -/
def lineage : List String → List String
  | [] => []
  | segment :: segments =>
    if isIdle segment then lineage segments
    else ofReversed (segment :: segments) :: lineage segments

/-- The directories that a path is in, the nearest first. The root is not among them, since it is
always there. -/
def ancestors (path : String) : List String := lineage (reversed path).tail

/-- The directory that a path is in; nothing when that is the root. -/
def parent (path : String) : String := (ancestors path).headD ""

/-- A path below a directory; an absolute path stands for itself. -/
def join (dir path : String) : String :=
  if path.startsWith "/" then path
  else if dir == "" || dir.endsWith "/" then dir ++ path
  else dir ++ "/" ++ path

/-- What stands before the last dot of a name; all of it when only a leading dot is there. -/
def stem (name : String) : String :=
  match Text.cutLast '.' name.toList with
  | some ([], _) | none => name
  | some (start, _) => String.ofList start

/-- The same name with another extension. -/
def withExtension (extension name : String) : String := stem name ++ "." ++ extension

/-- The temporary sibling of a file: the same name with the extension `tmp`. A path that names no
file stays as it is. -/
def temporary (path : String) : String :=
  match reversed path with
  | [] => path
  | name :: segments =>
    if name == ".." then path else ofReversed (withExtension "tmp" name :: segments)

end Path

end Upkeep
