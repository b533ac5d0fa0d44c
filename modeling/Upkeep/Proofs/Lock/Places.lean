import Upkeep.Lock
import Upkeep.Proofs.Files.Keeping

/-!
# The file of the lock

A lock is on the identity of a file, and a path leads to a file only as long as nobody moves
another one there. What opens, empties and fills a file in place leaves its identity alone
(`Files.Spares`), so that a path and an identity name the same file all along.

## Main definitions

* `Files.IsAt`: which file a path leads to.
* `Files.Spares`: the path still leads to the file.
* `Files.fill`: a file filled from its start.

## Main results

* `Files.isAt_openFile`: a path leads to the file that it opened.
* `Files.create_of_isAt`, `Files.fill_of_isAt`, `Files.writing_of_isAt`: emptying and filling a
  file in place, and both.
-/

namespace Upkeep.Files

/-- The path leads to the file of an identity. -/
def IsAt (fs : Files) (path : String) (identity : Nat) : Prop :=
  ∃ place content, fs.lookForWriting path = .ok (place, some (identity, content))

/-- A path that leads to a file leads to the same file afterwards; its content may be another. -/
def Spares (fs : Files) (path : String) (fs' : Files) : Prop :=
  ∀ identity, fs.IsAt path identity → fs'.IsAt path identity

/-- A file with some content from its start on; what the file has beyond that stays. -/
def fill (fs : Files) (path : String) (content : ByteArray) : Except IoCause Files :=
  match fs.lookForWriting path with
  | .error cause => .error cause
  | .ok (place, some (identity, old)) =>
    .ok (fs.put place (.file identity (content ++ old.extract content.size old.size) none))
  | .ok (_, none) => .error .notFound

variable {fs fs' : Files} {path : String} {identity identity' : Nat} {content : ByteArray}

theorem IsAt.unique (h : fs.IsAt path identity) (h' : fs.IsAt path identity') :
    identity = identity' := by
  obtain ⟨place, content, hlook⟩ := h
  obtain ⟨place', content', hlook'⟩ := h'
  cases hlook.symm.trans hlook'
  rfl

theorem held?_of_lookForWriting {place : Place} {there : Option (Nat × ByteArray)}
    (h : fs.lookForWriting path = .ok (place, there)) :
    fs.held? path = there.map Prod.snd := by
  obtain ⟨hnamed, hfile⟩ := lookForWriting_eq_ok h
  rw [held?, hnamed, ← hfile]
  rfl

theorem IsAt.exists_read (h : fs.IsAt path identity) : ∃ content, fs.held? path = some content ∧
    fs.read path = .ok content := by
  obtain ⟨place, content, hlook⟩ := h
  exact ⟨content, held?_of_lookForWriting hlook, read_of_lookForWriting hlook⟩

theorem Spares.refl (fs : Files) (path : String) : fs.Spares path fs := fun _ h => h

/-- What keeps the file that a path leads to leaves it where it is. -/
theorem Keeps.spares {ps : List Place} (h : fs.Keeps ps fs') (hps : Path.place path ∉ ps) :
    fs.Spares path fs' := by
  rintro identity ⟨place, content, hlook⟩
  obtain rfl := place_of_lookForWriting hlook
  exact ⟨_, content, h.lookForWriting hlook hps⟩

theorem Grows.spares (h : fs.Grows fs') : fs.Spares path fs' :=
  (h.keeps []).spares List.not_mem_nil

/-- What is published elsewhere leaves a file where it is. -/
theorem spares_publication (fs : Files) {other : String} (content : ByteArray)
    (hsibling : Path.place path ≠ Path.place (Path.temporary other))
    (hother : Path.place path ≠ Path.place other) :
    fs.Spares path (fs.perform (publication other content)).1 :=
  (keeps_publication fs other content).spares (by simp [hsibling, hother])

/-- A path leads to the file that it opened. -/
theorem isAt_openFile (h : fs.openFile path = .ok (identity, fs')) : fs'.IsAt path identity := by
  rw [openFile] at h
  split at h
  · cases h
  · rename_i place identity' content hlook
    cases h
    exact ⟨place, content, hlook⟩
  · rename_i place hlook
    cases h
    have hne := Path.file?_ne_nil (lookForWriting_eq_ok hlook).1
    exact ⟨place, _, lookForWriting_again hlook (find?_addFile_self hne)
      fun p hp => find?_addFile_of_ne hp⟩

theorem keeps_openFile (h : fs.openFile path = .ok (identity, fs')) :
    fs.Keeps [Path.place path] fs' := by
  rw [openFile] at h
  split at h
  · cases h
  · cases h
    exact .refl _ _
  · rename_i place hlook
    cases h
    obtain rfl := place_of_lookForWriting hlook
    exact keeps_of_ne (find?_ne_directory hlook) fun p hp => find?_addFile_of_ne hp

theorem keeps_fill (h : fs.fill path content = .ok fs') : fs.Keeps [Path.place path] fs' := by
  rw [fill] at h
  split at h
  · cases h
  · rename_i place identity old hlook
    cases h
    obtain rfl := place_of_lookForWriting hlook
    exact keeps_of_ne (find?_ne_directory hlook) fun p hp => find?_put_of_ne hp
  · cases h

/-- Opening a file that is there changes nothing. -/
theorem openFile_of_isAt (h : fs.IsAt path identity) : fs.openFile path = .ok (identity, fs) := by
  obtain ⟨place, content, hlook⟩ := h
  rw [openFile, hlook]

/-- Opening a file that has content changes nothing. -/
theorem eq_of_openFile (h : fs.openFile path = .ok (identity, fs'))
    (hheld : fs.held? path = some content) : fs' = fs := by
  rw [openFile] at h
  split at h
  · cases h
  · cases h
    rfl
  · rename_i place hlook
    rw [held?_of_lookForWriting hlook] at hheld
    cases hheld

theorem spares_openFile (h : fs.openFile path = .ok (identity, fs')) : fs.Spares path fs' := by
  intro identity' hat
  rw [openFile_of_isAt hat] at h
  cases h
  exact hat

/-- Emptying a file. -/
theorem create_of_isAt (h : fs.IsAt path identity) : ∃ fs', fs.create path = .ok fs' ∧
    fs'.IsAt path identity ∧ fs'.held? path = some ByteArray.empty := by
  obtain ⟨place, content, hlook⟩ := h
  have hne := Path.file?_ne_nil (lookForWriting_eq_ok hlook).1
  have hagain : (fs.put place (.file identity ByteArray.empty none)).lookForWriting path =
      .ok (place, some (identity, ByteArray.empty)) :=
    lookForWriting_again hlook (find?_put_self hne) fun p hp => find?_put_of_ne hp
  refine ⟨fs.put place (.file identity ByteArray.empty none), ?_, ⟨place, _, hagain⟩,
    held?_of_lookForWriting hagain⟩
  rw [create, hlook]

/-- Filling a file from its start on. -/
theorem fill_of_isAt (h : fs.IsAt path identity) (content : ByteArray) :
    ∃ fs' old, fs.fill path content = .ok fs' ∧ fs.held? path = some old ∧
      fs'.IsAt path identity ∧
        fs'.held? path = some (content ++ old.extract content.size old.size) := by
  obtain ⟨place, old, hlook⟩ := h
  have hne := Path.file?_ne_nil (lookForWriting_eq_ok hlook).1
  have hagain : (fs.put place (.file identity (content ++ old.extract content.size old.size)
      none)).lookForWriting path =
        .ok (place, some (identity, content ++ old.extract content.size old.size)) :=
    lookForWriting_again hlook (find?_put_self hne) fun p hp => find?_put_of_ne hp
  refine ⟨_, old, ?_, held?_of_lookForWriting hlook, ⟨place, _, hagain⟩,
    held?_of_lookForWriting hagain⟩
  rw [fill, hlook]

theorem extract_empty (n : Nat) :
    ByteArray.empty.extract n ByteArray.empty.size = ByteArray.empty := by
  simp

/-- An empty file is filled as it is appended to. -/
theorem fill_of_empty (h : fs.held? path = some ByteArray.empty) (hat : fs.IsAt path identity)
    (content : ByteArray) : fs.fill path content = fs.append path content := by
  obtain ⟨place, old, hlook⟩ := hat
  obtain rfl : old = ByteArray.empty :=
    Option.some.inj ((held?_of_lookForWriting hlook).symm.trans h)
  rw [fill, append, hlook]
  dsimp only
  rw [extract_empty, ByteArray.append_empty, ByteArray.empty_append]

/-- Writing a file anew: it is emptied and filled, and holds the new content and nothing else. -/
theorem writing_of_isAt (h : fs.IsAt path identity) (content : ByteArray) :
    ∃ fs₁ fs₂, fs.create path = .ok fs₁ ∧ fs₁.fill path content = .ok fs₂ ∧
      fs.perform (writing path content) = (fs₂, none) ∧ fs₂.held? path = some content := by
  obtain ⟨fs₁, hcreate, hat, hempty⟩ := create_of_isAt h
  obtain ⟨fs₂, old, hfill, hold, -, hheld⟩ := fill_of_isAt hat content
  obtain rfl : ByteArray.empty = old := Option.some.inj (hempty.symm.trans hold)
  have happend : fs₁.append path content = .ok fs₂ :=
    (fill_of_empty hempty hat content).symm.trans hfill
  rw [extract_empty, ByteArray.append_empty] at hheld
  refine ⟨fs₁, fs₂, hcreate, hfill, ?_, hheld⟩
  simp [writing, perform, apply, settle, hcreate, happend]

end Upkeep.Files
