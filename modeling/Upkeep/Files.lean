import Upkeep.Files.Tree
import Upkeep.Text.Utf8

/-!
# Files

The few operations on files that the program needs, on paths, each with the causes for which a
system refuses it. A single change either is done or is refused and changes nothing; only the
creation of several directories may be refused halfway. So what a crash or a refusal leaves of a
longer operation is what its first steps leave.

## Main definitions

* `Files.read`, `Files.readText`, `Files.names`, `Files.listing`.
* `Files.openFile`: opens a file, and tells which one it is.
* `Files.Step`, `Files.perform`: changes, and sequences of them.
* `Files.publication`: the steps that give a file new content by way of its temporary sibling.
-/

namespace Upkeep.Files

/-! ### Reading -/

/-- The content of a file. -/
def read (fs : Files) (path : String) : Except IoCause ByteArray :=
  match fs.look path with
  | .error cause => .error cause
  | .ok (_, .directory) => .error .isDirectory
  | .ok (_, .file _ content _) => .ok content

/-- The content of a file as text. -/
def readText (fs : Files) (path : String) : Except IoCause String :=
  match fs.read path with
  | .error cause => .error cause
  | .ok bytes =>
    match Text.decode? bytes with
    | some text => .ok text
    | none => .error .notText

/-- When a file was last changed. -/
def modified? (fs : Files) (path : String) : Option Instant :=
  match fs.look path with
  | .ok (_, .file _ _ modified) => modified
  | _ => none

/-- The names in the directory at a place. -/
def namesAt (fs : Files) (place : Place) : List String :=
  (fs.entries.filterMap fun (p, _) =>
    if p.length == place.length + 1 && place.isPrefixOf p then p.getLast? else none).eraseDups

/-- The names in a directory; none when it is no directory. -/
def names (fs : Files) (path : String) : List String :=
  match fs.look path with
  | .ok (place, .directory) => fs.namesAt place
  | _ => []

/-- Everything below the directory at a place, relative to it and in order; a directory's path
ends in `/`. -/
def listing (fs : Files) (place : Place) : List String :=
  let below := fs.entries.filterMap fun (p, e) =>
    if place.isPrefixOf p && p.length != place.length then
      let path := String.intercalate "/" (p.drop place.length)
      some (match e with
        | .directory => path ++ "/"
        | .file .. => path)
    else none
  below.mergeSort (fun a b => !(b < a))

/-! ### Changing -/

/-- The place of a file that is to be written, and the file that is there, if there is one. -/
def lookForWriting (fs : Files) (path : String) :
    Except IoCause (Place × Option (Nat × ByteArray)) :=
  match fs.target path with
  | .error cause => .error cause
  | .ok ⟨dir, .enter name, false⟩ =>
    match fs.after dir (.enter name) with
    | .error cause => .error cause
    | .ok (_, some .directory) => .error .isDirectory
    | .ok (place, some (.file identity content _)) => .ok (place, some (identity, content))
    | .ok (place, none) => .ok (place, none)
  | .ok _ => .error .isDirectory

/-- Opens a file, which is created when it is missing; answers which file it is. -/
def openFile (fs : Files) (path : String) : Except IoCause (Nat × Files) :=
  match fs.lookForWriting path with
  | .error cause => .error cause
  | .ok (_, some (identity, _)) => .ok (identity, fs)
  | .ok (place, none) => .ok (fs.nextIdentity, fs.addFile place ByteArray.empty)

/-- An empty file; a file that is there keeps its identity. -/
def create (fs : Files) (path : String) : Except IoCause Files :=
  match fs.lookForWriting path with
  | .error cause => .error cause
  | .ok (place, some (identity, _)) => .ok (fs.put place (.file identity ByteArray.empty none))
  | .ok (place, none) => .ok (fs.addFile place ByteArray.empty)

/-- More content at the end of a file. -/
def append (fs : Files) (path : String) (content : ByteArray) : Except IoCause Files :=
  match fs.lookForWriting path with
  | .error cause => .error cause
  | .ok (place, some (identity, start)) =>
    .ok (fs.put place (.file identity (start ++ content) none))
  | .ok (_, none) => .error .notFound

/-- A new directory. -/
def makeDir (fs : Files) (path : String) : Except IoCause Files :=
  match fs.target path with
  | .error cause => .error cause
  | .ok ⟨dir, .enter name, _⟩ =>
    match fs.after dir (.enter name) with
    | .error cause => .error cause
    | .ok (_, some _) => .error .alreadyThere
    | .ok (place, none) => .ok (fs.put place .directory)
  | .ok _ => .error .alreadyThere

/-- What a refusal to create a directory amounts to: nothing, if the directory is there. -/
def excuse (fs : Files) (path : String) (cause : IoCause) : Option IoCause :=
  if fs.isDirectory path then none else some cause

/-- Creates the first of some directories, of which each is in the next. The others are created
only when the first cannot be for want of them; they stay when it cannot be all the same. -/
def createFirst (fs : Files) : List String → Files × Option IoCause
  | [] => (fs, none)
  | path :: above =>
    match fs.makeDir path with
    | .ok fs => (fs, none)
    | .error .notFound =>
      match createFirst fs above with
      | (fs, some cause) => (fs, some cause)
      | (fs, none) =>
        match fs.makeDir path with
        | .ok fs => (fs, none)
        | .error cause => (fs, fs.excuse path cause)
    | .error cause => (fs, fs.excuse path cause)

/-- Creates a directory and the missing ones among those it is in. Answers what that leaves, and
why the directory is not there, if it is not. -/
def createDirs (fs : Files) (path : String) : Files × Option IoCause :=
  if path == "" then (fs, none) else fs.createFirst (path :: Path.ancestors path)

/-- Moves a file; a file where it goes is replaced, a directory is not. -/
def rename (fs : Files) (old new : String) : Except IoCause Files :=
  match fs.target old, fs.target new with
  | .error cause, _ => .error cause
  | _, .error cause => .error cause
  | .ok ⟨oldDir, .enter oldName, oldSlash⟩, .ok ⟨newDir, .enter newName, newSlash⟩ =>
    match fs.after oldDir (.enter oldName), fs.after newDir (.enter newName) with
    | .error cause, _ => .error cause
    | .ok (_, none), _ => .error .notFound
    | _, .error cause => .error cause
    | .ok (oldPlace, some entry), .ok (newPlace, there) =>
      if oldSlash || newSlash then .error .notDirectory
      else
        match entry, there with
        | .directory, _ => .error .isDirectory
        | _, some .directory => .error .isDirectory
        | entry, _ => .ok ((fs.drop oldPlace).put newPlace entry)
  | _, _ => .error .busy

/-- Removes a file. -/
def remove (fs : Files) (path : String) : Except IoCause Files :=
  match fs.target path with
  | .error cause => .error cause
  | .ok ⟨dir, .enter name, slash⟩ =>
    match fs.after dir (.enter name) with
    | .error cause => .error cause
    | .ok (_, none) => .error .notFound
    | .ok (_, some .directory) => .error .isDirectory
    | .ok (place, some (.file ..)) =>
      if slash then .error .notDirectory else .ok (fs.drop place)
  | .ok _ => .error .isDirectory

/-- Copies a file over another one, which is emptied before the first is read. -/
def copy (fs : Files) (old new : String) : Except IoCause Files :=
  match fs.read old with
  | .error .isDirectory => .error .notCopyable
  | .error cause => .error cause
  | .ok _ =>
    match fs.create new with
    | .error cause => .error cause
    | .ok fs =>
      match fs.read old with
      | .error cause => .error cause
      | .ok content => fs.append new content

/-- The first second that files can have been changed in: 32 bits before 1970 hold no other. -/
def firstSecond : Int := -2147483648

/-- The last second that files can have been changed in: 34 bits from the first one on hold no
other. -/
def lastSecond : Int := 15032385535

/-- A time as that of a file. There are no leap seconds, so one that is inside a leap second is as
far inside the next second; and a time outside the limits, or in their seconds, is at them. -/
def fileTime (time : Instant) : Instant :=
  let time := time.plus ⟨0⟩
  if time.second ≤ firstSecond then ⟨firstSecond, 0⟩
  else if lastSecond ≤ time.second then ⟨lastSecond, 0⟩
  else time

/-- Another time at which a file was last changed. -/
def touch (fs : Files) (path : String) (time : Instant) : Except IoCause Files :=
  match fs.look path with
  | .error cause => .error cause
  | .ok (_, .directory) => .error .isDirectory
  | .ok (place, .file identity content _) =>
    .ok (fs.put place (.file identity content (some (fileTime time))))

/-! ### Steps -/

/-- One change. -/
inductive Step where
  /-- A directory, and the missing ones among those it is in. -/
  | createDirs (path : String)
  /-- An empty file, also when there was a file with content. -/
  | create (path : String)
  /-- More content at the end of a file. -/
  | append (path : String) (content : ByteArray)
  /-- A file elsewhere, instead of a file that is there. -/
  | rename (old new : String)
  /-- A file less. -/
  | remove (path : String)
  /-- Another time of a file's last change. -/
  | touch (path : String) (time : Instant)
  /-- The content of a file in another one. -/
  | copy (old new : String)

/-- What a change leaves that is refused unless it is done. -/
def settle (fs : Files) : Except IoCause Files → Files × Option IoCause
  | .ok fs => (fs, none)
  | .error cause => (fs, some cause)

/-- Does one change; answers what that leaves and the cause, if it was refused. -/
def apply (fs : Files) : Step → Files × Option IoCause
  | .createDirs path => fs.createDirs path
  | .create path => fs.settle (fs.create path)
  | .append path content => fs.settle (fs.append path content)
  | .rename old new => fs.settle (fs.rename old new)
  | .remove path => fs.settle (fs.remove path)
  | .touch path time => fs.settle (fs.touch path time)
  | .copy old new => fs.settle (fs.copy old new)

/-- Does one change after the other up to the first that is refused; answers what that leaves
and the cause, if there was one. -/
def perform (fs : Files) : List Step → Files × Option IoCause
  | [] => (fs, none)
  | step :: steps =>
    match fs.apply step with
    | (fs, some cause) => (fs, some cause)
    | (fs, none) => perform fs steps

/-- The steps that write a file. -/
def writing (path : String) (content : ByteArray) : List Step :=
  [.create path, .append path content]

/-- The steps that write a file in a directory that is created. -/
def placing (path : String) (content : ByteArray) : List Step :=
  .createDirs (Path.parent path) :: writing path content

/-- The steps that write a file by way of its temporary sibling, so that the file never holds a
part of its new content; the directory it is in is created. -/
def publication (path : String) (content : ByteArray) : List Step :=
  [.createDirs (Path.parent path)] ++ writing (Path.temporary path) content ++
    [.rename (Path.temporary path) path]

end Upkeep.Files
