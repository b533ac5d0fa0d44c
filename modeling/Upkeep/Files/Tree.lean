import Upkeep.Files.Path
import Upkeep.Time.Instant

/-!
# The tree of files

Directories and files at places below a root, and how a path leads through them. A path is
followed one step at a time, from the left: every step but the last has to lead to a directory
that is there, and the first step that does not decides why the path leads nowhere. There are no
links.

A file has an identity of its own, apart from its place: a lock is held on the identity, so it
outlives the file's removal and is not inherited by a new file at the same place.

The tree is a list of places with what is there; the first entry of a place counts. The root is
always a directory and is not listed.

## Main definitions

* `IoCause`: why the system refuses something.
* `Files`, `FileEntry`, `Files.put`, `Files.drop`, `Files.addFile`.
* `Files.target`: the directory and the step in which a path ends.
* `Files.look`: what is where a path leads.
-/

namespace Upkeep

/-- Why the system refuses an operation on a file. -/
inductive IoCause where
  /-- Nothing is there. -/
  | notFound
  /-- It is no program. -/
  | notPermitted
  /-- The place is in use. -/
  | busy
  /-- Something is there already. -/
  | alreadyThere
  /-- A file stands where a directory is needed. -/
  | notDirectory
  /-- A directory stands where a file is needed. -/
  | isDirectory
  /-- A name or a path is too long. -/
  | tooLong
  /-- The path is no path, since it has a NUL in it. -/
  | notPath
  /-- The content is not UTF-8. -/
  | notText
  /-- What is to be copied is no file. -/
  | notCopyable
  deriving DecidableEq, Repr

/-- The system's words. -/
def IoCause.text : IoCause → String
  | .notFound => "No such file or directory (os error 2)"
  | .notPermitted => "Permission denied (os error 13)"
  | .busy => "Device or resource busy (os error 16)"
  | .alreadyThere => "File exists (os error 17)"
  | .notDirectory => "Not a directory (os error 20)"
  | .isDirectory => "Is a directory (os error 21)"
  | .tooLong => "File name too long (os error 36)"
  | .notPath => "file name contained an unexpected NUL byte"
  | .notText => "stream did not contain valid UTF-8"
  | .notCopyable => "the source path is neither a regular file nor a symlink to a regular file"

/-- What can be at a place. -/
inductive FileEntry where
  /-- A directory. -/
  | directory
  /-- A file: which one it is, its content, and when that was last changed, if anyone asks. -/
  | file (identity : Nat) (content : ByteArray) (modified : Option Instant)

/-- A tree of directories and files. -/
structure Files where
  /-- What is at the places below the root; the first entry of a place counts. -/
  entries : List (Place × FileEntry)
  /-- The identity of the next new file. -/
  nextIdentity : Nat

namespace Files

/-! ### Places -/

/-- Only the root. -/
def empty : Files := ⟨[], 0⟩

/-- What is at a place. -/
def find? (fs : Files) (place : Place) : Option FileEntry :=
  if place = [] then some .directory else fs.entries.lookup place

/-- Something at a place, instead of what was there. -/
def put (fs : Files) (place : Place) (entry : FileEntry) : Files :=
  { fs with entries := (place, entry) :: fs.entries.filter (fun e => e.1 != place) }

/-- Nothing at a place. -/
def drop (fs : Files) (place : Place) : Files :=
  { fs with entries := fs.entries.filter (fun e => e.1 != place) }

/-- A new file. -/
def addFile (fs : Files) (place : Place) (content : ByteArray) : Files :=
  { fs.put place (.file fs.nextIdentity content none) with
    nextIdentity := fs.nextIdentity + 1 }

/-! ### Following a path -/

/-- The most bytes that a name may have. -/
def longestName : Nat := 255

/-- The most bytes that a path may have. -/
def longestPath : Nat := 4095

/-- Where one step leads from a directory, and what is there. -/
def after (fs : Files) (dir : Place) : Path.Step → Except IoCause (Place × Option FileEntry)
  | .stay => .ok (dir, some .directory)
  | .up => .ok (dir.dropLast, some .directory)
  | .enter name =>
    if longestName < name.utf8ByteSize then .error .tooLong
    else .ok (dir ++ [name], fs.find? (dir ++ [name]))

/-- Where steps lead, each of which has to lead to a directory. -/
def follow (fs : Files) (dir : Place) : List Path.Step → Except IoCause Place
  | [] => .ok dir
  | step :: steps =>
    match fs.after dir step with
    | .error cause => .error cause
    | .ok (_, none) => .error .notFound
    | .ok (_, some (.file ..)) => .error .notDirectory
    | .ok (dir, some .directory) => follow fs dir steps

/-- The end of a path. -/
structure Target where
  /-- The directory from which the last step is taken. -/
  dir : Place
  /-- The last step. -/
  last : Path.Step
  /-- Whether a slash follows. -/
  slash : Bool
  deriving DecidableEq, Repr

/-- The end of a path, all of whose other steps lead to directories. -/
def target (fs : Files) (path : String) : Except IoCause Target :=
  if path.toList.contains '\x00' then .error .notPath
  else if path == "" then .error .notFound
  else if longestPath < path.utf8ByteSize then .error .tooLong
  else
    let steps := Path.steps path
    match fs.follow [] steps.dropLast with
    | .error cause => .error cause
    | .ok dir => .ok ⟨dir, steps.getLastD .stay, Path.endsInSlash path⟩

/-- What is where a path leads, and where that is. -/
def look (fs : Files) (path : String) : Except IoCause (Place × FileEntry) :=
  match fs.target path with
  | .error cause => .error cause
  | .ok t =>
    match fs.after t.dir t.last with
    | .error cause => .error cause
    | .ok (_, none) => .error .notFound
    | .ok (place, some entry) =>
      match entry, t.slash with
      | .file .., true => .error .notDirectory
      | entry, _ => .ok (place, entry)

/-- Whether a path leads to something. -/
def isThere (fs : Files) (path : String) : Bool := (fs.look path).isOk

/-- Whether a path leads to a directory. -/
def isDirectory (fs : Files) (path : String) : Bool :=
  match fs.look path with
  | .ok (_, .directory) => true
  | _ => false

end Files

end Upkeep
