import Upkeep.Proofs.Lock.Exclusion
import Upkeep.Proofs.StoredForms

/-!
# What taking the lock leaves alone

To take the lock is to open the lock file, in a directory that is made when it is missing, and to
write into it who holds the lock. No other file changes, none comes and none goes. Who finds the
file locked does not write, so that the file says what it said.

The record of a holder is no marker. So a marker that is read while the lock is held is in another
file than the record is, and it is the one that was there before.

## Main definitions

* `Files.Leaves`: no file changes, comes or goes, except at some places.

## Main results

* `Lock.leaves_acquire`, `Lock.spared_of_taken`: what taking the lock leaves alone.
* `Lock.marker_apart`: the marker that is read is not in the lock file.
-/

namespace Upkeep

namespace Files

/-- No file changes, comes or goes, except at some places. Directories may come. -/
def Leaves (fs : Files) (ps : List Place) (fs' : Files) : Prop :=
  ∀ p, p ∉ ps → fs'.fileAt? p = fs.fileAt? p

variable {fs fs' fs'' : Files} {ps : List Place} {place : Place} {path : String} {identity : Nat}
  {content : ByteArray}

theorem Leaves.refl (fs : Files) (ps : List Place) : fs.Leaves ps fs := fun _ _ => rfl

theorem Leaves.trans (h : fs.Leaves ps fs') (h' : fs'.Leaves ps fs'') : fs.Leaves ps fs'' :=
  fun p hp => (h' p hp).trans (h p hp)

theorem Grows.leaves (h : fs.Grows fs') (ps : List Place) : fs.Leaves ps fs' :=
  fun p _ => h.fileAt? p

theorem leaves_of_ne (hother : ∀ p, p ≠ place → fs'.find? p = fs.find? p) :
    fs.Leaves [place] fs' :=
  fun p hp => fileAt?_congr (hother p (mt List.mem_singleton.mpr hp))

theorem Leaves.held? (h : fs.Leaves ps fs') (hps : Path.place path ∉ ps) :
    fs'.held? path = fs.held? path := by
  rw [Files.held?, Files.held?]
  cases hfile : Path.file? path with
  | none => rfl
  | some p =>
    obtain ⟨-, rfl, -⟩ := Path.file?_eq_some.mp hfile
    exact h _ hps

theorem leaves_openFile (h : fs.openFile path = .ok (identity, fs')) :
    fs.Leaves [Path.place path] fs' := by
  rw [openFile] at h
  split at h
  · cases h
  · cases h
    exact .refl _ _
  · rename_i place hlook
    cases h
    obtain rfl := place_of_lookForWriting hlook
    exact leaves_of_ne fun p hp => find?_addFile_of_ne hp

theorem leaves_create (h : fs.create path = .ok fs') : fs.Leaves [Path.place path] fs' := by
  obtain ⟨place, hplace, -, hother⟩ := create_eq_ok h
  obtain ⟨-, rfl, -⟩ := Path.file?_eq_some.mp hplace
  exact leaves_of_ne hother

theorem leaves_fill (h : fs.fill path content = .ok fs') : fs.Leaves [Path.place path] fs' := by
  rw [fill] at h
  split at h
  · cases h
  · rename_i place identity old hlook
    cases h
    obtain rfl := place_of_lookForWriting hlook
    exact leaves_of_ne fun p hp => find?_put_of_ne hp
  · cases h

/-- Writing a file that is there. -/
theorem leaves_writing (h : fs.IsAt path identity) (content : ByteArray) :
    fs.Leaves [Path.place path] (fs.perform (writing path content)).1 := by
  obtain ⟨fs₁, fs₂, hcreate, hfill, hperform, -⟩ := writing_of_isAt h content
  rw [hperform]
  exact (leaves_create hcreate).trans (leaves_fill hfill)

end Files

namespace Lock

variable {fs fs' : Files} {s : State} {path marker : String} {self : Holder} {identity : Nat}
  {content : ByteArray}

theorem leaves_openLockFile (fs : Files) (path : String) :
    fs.Leaves [Path.place path] (openLockFile fs path).2 := by
  have hgrows := (Files.grows_createDirs fs (Path.parent path)).leaves [Path.place path]
  rw [openLockFile]
  split
  · rename_i fs₁ cause hdirs
    rw [hdirs] at hgrows
    exact hgrows
  · rename_i fs₁ hdirs
    rw [hdirs] at hgrows
    split
    · exact hgrows
    · rename_i found fs₂ hopen
      exact hgrows.trans (Files.leaves_openFile hopen)

/-- A lock file that has content keeps it when it is opened. -/
theorem held?_openLockFile (h : openLockFile fs path = (.ok identity, fs'))
    (hheld : fs.held? path = some content) : fs'.held? path = some content := by
  have hgrows := Files.grows_createDirs fs (Path.parent path)
  rw [openLockFile] at h
  split at h
  · cases h
  · rename_i fs₁ hdirs
    rw [hdirs] at hgrows
    split at h
    · cases h
    · rename_i found fs₂ hopen
      cases h
      have hheld₁ : fs₁.held? path = some content := (hgrows.held? path).trans hheld
      rw [Files.eq_of_openFile hopen hheld₁, hheld₁]

/-- **No file but the lock file changes when the lock is asked for.** -/
theorem leaves_acquire (s : State) (path : String) (self : Holder) :
    s.files.Leaves [Path.place path] (acquire s path self).2.files := by
  have hopen := leaves_openLockFile s.files path
  rw [acquire]
  split
  · rename_i cause fs heq
    rw [heq] at hopen
    exact hopen
  · rename_i identity fs heq
    rw [heq] at hopen
    split
    · exact hopen
    · exact hopen.trans (Files.leaves_writing (isAt_openLockFile heq).1 _)

/-- **Who finds the lock taken leaves it so**, and the lock file says what it said. -/
theorem spared_of_taken {holder : Option Holder}
    (h : (acquire s path self).1 = .error (.alreadyRunning holder)) :
    (acquire s path self).2.held = s.held ∧ ∀ content, s.files.held? path = some content →
      (acquire s path self).2.files.held? path = some content := by
  obtain ⟨identity, fs, hopen, -, -, hleft⟩ := of_alreadyRunning h
  rw [hleft]
  exact ⟨rfl, fun content hheld => held?_openLockFile hopen hheld⟩

/-! ### The lock file is no marker -/

theorem ofJson_holder (h : Holder) : Marker.ofJson h.toJson = none := by
  simp [Marker.ofJson, Holder.toJson, Json.record, Json.asRecord, Json.collect,
    Json.Record.required, Json.Record.find?]

/-- **The marker that is read is not in the lock file**, while it says who holds the lock. -/
theorem marker_apart {m : Instant} (hheld : fs.held? path = some (record self))
    (hread : Marker.read fs marker = some m) : Path.place marker ≠ Path.place path := by
  intro heq
  rw [Marker.read, Files.readText] at hread
  cases hcontent : fs.read marker with
  | error cause =>
    rw [hcontent] at hread
    cases hread
  | ok content =>
    obtain ⟨-, hfile⟩ := Files.read_eq_ok hcontent
    rw [Files.held?] at hheld
    obtain ⟨place, hplace, hrecord⟩ := Option.bind_eq_some_iff.mp hheld
    obtain ⟨-, rfl, -⟩ := Path.file?_eq_some.mp hplace
    obtain rfl : record self = content := by
      rw [heq, hrecord] at hfile
      exact Option.some.inj hfile
    rw [hcontent] at hread
    simp only [record, Text.decode?_toUTF8, Json.parse_compact (Holder.exact_toJson self),
      Option.bind_some, ofJson_holder] at hread
    cases hread

end Lock

end Upkeep
