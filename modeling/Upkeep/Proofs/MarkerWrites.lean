import Upkeep.Proofs.Files.Interruption
import Upkeep.Proofs.Marker

/-!
# The marker as a register

Between its writes the marker is what a register is: a read gives the time that was written last,
and a write that fails is none. That has to be shown of a file that is written in several steps, any
of which can be refused and between any of which the machine can stop. What makes it true is that
the file takes its place in one step, and that nothing before that step concerns its path.

Two kinds of paths are different. The file of a path with the extension of temporary files is
written in place. And a path that goes up from a directory that is missing leads to nothing until
this directory is created, which a write does first: from then on it leads to whatever is at its
place, or the directory that was created is itself at that place. What the file holds is not changed
by that.

## Main definitions

* `Marker.Written`, `Marker.Spared`: what a write leaves when it is done and when it is not.
* `Marker.readings`, `Marker.register`: what reads give, and what they would give of a register.

## Main results

* `Marker.write_atomic`: writes that are done, refused, interrupted, and one after the other.
-/

namespace Upkeep.Marker

open Files (Grounded IsTree Interrupted)

variable {fs fs' : Files} {path : String} {time : Instant}

/-! ### One write -/

/-- The time was written. -/
structure Written (fs : Files) (path : String) (time : Instant) (fs' : Files) : Prop where
  /-- It is read. -/
  read : read fs' path = some time
  /-- No temporary file is left, unless the marker has the path of one. -/
  gone : Path.temporary path ≠ path → fs'.find? (Path.place (Path.temporary path)) = none
  /-- Apart from these files, nothing changed but that directories were created of those that the
  path is in. -/
  others : ∀ p, p ≠ Path.place (Path.temporary path) → p ≠ Path.place path →
    fs'.find? p = fs.find? p ∨ p ∈ (Path.ancestors path).map Path.place ∧
      fs.find? p = none ∧ fs'.find? p = some .directory
  /-- All directories on the way are there. -/
  grounded : fs'.Grounded path

/-- The marker is what it was. -/
structure Spared (fs : Files) (path : String) (fs' : Files) : Prop where
  /-- The file holds what it held. -/
  held? : fs'.held? path = fs.held? path
  /-- The path leads to what it led to. -/
  found? : fs.Grounded path → fs'.found? path = fs.found? path
  /-- What is read is what was read. -/
  read : fs.Grounded path → read fs' path = read fs path
  /-- Directories that are there stay. -/
  grounded : fs.Grounded path → fs'.Grounded path

/-- What is read depends on what the path leads to. -/
theorem read_congr (h : fs'.found? path = fs.found? path) : read fs' path = read fs path := by
  rw [Files.found?, Files.found?] at h
  rw [read, read, Files.readText, Files.readText, Files.read, Files.read]
  cases hlook : fs.look path with
  | error cause =>
    cases hlook' : fs'.look path with
    | error cause' => rfl
    | ok found' =>
      rw [hlook, hlook'] at h
      cases h
  | ok found =>
    cases hlook' : fs'.look path with
    | error cause' =>
      rw [hlook, hlook'] at h
      cases h
    | ok found' =>
      rw [hlook, hlook'] at h
      cases h
      rfl

theorem written_of_replaced (valid : time.Valid)
    (h : Files.Replaced fs path (content time) fs') : Written fs path time fs' where
  read := read_content valid h.read
  gone := h.gone
  others := h.others
  grounded := by
    obtain ⟨dir, name, htarget, -⟩ := Files.read_eq_ok_iff.mp h.read
    exact Files.grounded_of_target htarget

theorem spared_of_prepared (htree : fs.IsTree) (htree' : fs'.IsTree)
    (h : Files.Prepared fs path fs')
    (hself : Path.temporary path = path →
      fs.GrowsAt ((Path.ancestors path).map Path.place) fs') : Spared fs path fs' where
  held? := h.held? hself
  found? := fun hground => h.found? htree htree' hground hself
  read := fun hground => read_congr (h.found? htree htree' hground hself)
  grounded := fun hground => hground.congr h.directories

/-- A write is done, or it leaves the marker as it was. -/
theorem write_cases (htree : fs.IsTree) (valid : time.Valid) :
    (write fs path time).2 = none ∧ Written fs path time (write fs path time).1 ∨
      (write fs path time).2 ≠ none ∧ Spared fs path (write fs path time).1 := by
  have htree' : (write fs path time).1.IsTree := htree.perform _
  have hprogress := Files.perform_piecemeal fs path [content time]
    (Files.piecemeal path [content time]).length
  rw [List.take_length, ← Files.publication_eq, ← write] at hprogress
  have hwhole : Files.assemble [content time] = content time := ByteArray.empty_append
  generalize write fs path time = outcome at htree' hprogress ⊢
  cases hprogress with
  | interrupted hearly hprepared => exact absurd hearly (Nat.lt_irrefl _)
  | refused hprepared hself =>
    exact Or.inr ⟨by simp, spared_of_prepared htree htree' hprepared hself⟩
  | done hreplaced => exact Or.inl ⟨rfl, written_of_replaced valid (hwhole ▸ hreplaced)⟩

/-! ### One write after the other -/

/-- What is done with a marker. -/
inductive Access where
  /-- A time is written. -/
  | write (time : Instant)
  /-- The marker is read. -/
  | read

/-- What is written is a time. -/
def Access.Valid : Access → Prop
  | write time => time.Valid
  | read => True

/-- What the reads give. -/
def readings (fs : Files) (path : String) : List Access → List (Option Instant)
  | [] => []
  | .write time :: accesses => readings (write fs path time).1 path accesses
  | .read :: accesses => read fs path :: readings fs path accesses

/-- What they would give of a register that holds the time that was written last. -/
def register (fs : Files) (path : String) (last : Option Instant) :
    List Access → List (Option Instant)
  | [] => []
  | .write time :: accesses =>
    register (write fs path time).1 path
      (if (write fs path time).2 = none then some time else last) accesses
  | .read :: accesses => last :: register fs path last accesses

/-- A marker is a register. -/
theorem readings_eq_register (htree : fs.IsTree) (hground : fs.Grounded path)
    {accesses : List Access} (valid : ∀ access ∈ accesses, access.Valid) :
    readings fs path accesses = register fs path (read fs path) accesses := by
  induction accesses generalizing fs with
  | nil => rfl
  | cons access accesses ih =>
    obtain ⟨hvalid, hrest⟩ := List.forall_mem_cons.mp valid
    cases access with
    | read => rw [readings, register, ih htree hground hrest]
    | write time =>
      have htree' : (write fs path time).1.IsTree := htree.perform _
      rw [readings, register]
      rcases write_cases htree hvalid with ⟨hdone, hwritten⟩ | ⟨hrefused, hspared⟩
      · rw [if_pos hdone, ih htree' hwritten.grounded hrest, hwritten.read]
      · rw [if_neg hrefused, ih htree' (hspared.grounded hground) hrest, hspared.read hground]

/-- **A marker is written as a whole or not at all.** A write that is done is read, and leaves
nothing else but directories; a write that is refused leaves the marker as it was; and one that is
interrupted does the one or the other, if the marker is not a temporary file itself. So a read gives
the time that was written last, at any time. -/
theorem write_atomic (htree : fs.IsTree) :
    (∀ time : Instant, time.Valid →
      ((write fs path time).2 = none → Written fs path time (write fs path time).1) ∧
      ((write fs path time).2 ≠ none → Spared fs path (write fs path time).1) ∧
      (Path.extension path ≠ some "tmp" → ∀ fs', Interrupted fs path (content time) fs' →
        Spared fs path fs' ∨ Written fs path time fs')) ∧
      (fs.Grounded path → ∀ accesses : List Access, (∀ access ∈ accesses, access.Valid) →
        readings fs path accesses = register fs path (read fs path) accesses) := by
  refine ⟨fun time valid => ⟨fun hdone => ?_, fun hrefused => ?_, fun hother fs' hstop => ?_⟩,
    fun hground accesses valid => readings_eq_register htree hground valid⟩
  · rcases write_cases htree valid with ⟨-, hwritten⟩ | ⟨hrefused, -⟩
    · exact hwritten
    · exact absurd hdone hrefused
  · rcases write_cases htree valid with ⟨hdone, -⟩ | ⟨-, hspared⟩
    · exact absurd hdone hrefused
    · exact hspared
  · rcases hstop.progress with hprepared | hreplaced
    · exact Or.inl (spared_of_prepared htree (htree.interrupted hstop) hprepared
        (hprepared.growsAt hother))
    · exact Or.inr (written_of_replaced valid hreplaced)

/-- The path of a marker in a directory of its own. -/
def markerPath : String := "state/last_run.json"

/-- A marker with a time in it. -/
def stale : Files := (write Files.empty markerPath ⟨0, 0⟩).1

/-- The same, and a directory where the temporary file would be. -/
def blocked : Files := (stale.createDirs "state/last_run.tmp").1

/-- A later time, with nanoseconds. -/
def later : Instant := ⟨1767225600, 5⟩

/-- A marker that is written, one that is blocked, and one whose write stops after the first of two
pieces. -/
theorem write_atomic_stale :
    stale.IsTree ∧ blocked.IsTree ∧ later.Valid ∧ Path.extension markerPath ≠ some "tmp" ∧
      stale.Grounded markerPath ∧ blocked.Grounded markerPath ∧
      Written stale markerPath later (write stale markerPath later).1 ∧
      Spared blocked markerPath (write blocked markerPath later).1 ∧
      (∀ first second, first ++ second = content later →
        ∀ fs', fs' = (stale.perform ((Files.piecemeal markerPath [first, second]).take 3)).1 →
          Spared stale markerPath fs' ∨ Written stale markerPath later fs') ∧
      readings stale markerPath [.read, .write later, .read] = [some ⟨0, 0⟩, some later] ∧
      readings blocked markerPath [.read, .write later, .read] = [some ⟨0, 0⟩, some ⟨0, 0⟩] := by
  have hstale : stale.IsTree := Files.isTree_empty.perform _
  have hblocked : blocked.IsTree := hstale.createDirs _
  have hlater : later.Valid := ⟨by decide +kernel, by decide, by decide⟩
  have hother : Path.extension markerPath ≠ some "tmp" := by decide +kernel
  have hground : ∀ fs : Files, fs.Grounded markerPath := fun fs =>
    Files.grounded_of_not_mem (by decide +kernel)
  obtain ⟨hone, hmany⟩ := @write_atomic _ markerPath hstale
  obtain ⟨hone', hmany'⟩ := @write_atomic _ markerPath hblocked
  obtain ⟨hdone, -, hstop⟩ := hone later hlater
  have hvalid : ∀ access ∈ [Access.read, .write later, .read], access.Valid := by
    simp [Access.Valid, hlater]
  have hwritten : (write stale markerPath later).2 = none := by decide +kernel
  have hrefused : (write blocked markerPath later).2 ≠ none := by decide +kernel
  refine ⟨hstale, hblocked, hlater, hother, hground stale, hground blocked, hdone hwritten,
    (hone' later hlater).2.1 hrefused, ?_, ?_, ?_⟩
  · rintro first second hwhole _ rfl
    refine hstop hother _ (.changing ?_ 3)
    rw [← hwhole]
    exact congrArg (· ++ second) ByteArray.empty_append
  · rw [hmany (hground stale) _ hvalid]
    simp only [register, if_pos hwritten]
    decide +kernel
  · rw [hmany' (hground blocked) _ hvalid]
    simp only [register, if_neg hrefused]
    decide +kernel

/-- A marker with a time in it, and a directory where the temporary file would be. -/
def hidden : Files := (Files.createDirs (write Files.empty "m" later).1 "m.tmp").1

/-- **A refused write can change where a path leads that goes up from a missing directory.** The
directory that is created is at the place of the marker; or the path comes to lead to a marker that
could not be read before. -/
theorem not_spared_ascending :
    ((write Files.empty "x/../x" later).2 = some .isDirectory ∧
      Files.empty.isThere "x/../x" = false ∧
      (write Files.empty "x/../x" later).1.isDirectory "x/../x" = true) ∧
    (write hidden "new/../m" ⟨0, 0⟩).2 = some .isDirectory ∧ read hidden "new/../m" = none ∧
      read (write hidden "new/../m" ⟨0, 0⟩).1 "new/../m" = some later := by
  decide +kernel

end Upkeep.Marker
