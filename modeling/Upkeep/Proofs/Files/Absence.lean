import Upkeep.Emitters.Notice
import Upkeep.Proofs.Files.Keeping

/-!
# What is not there

A path leads to nothing when a directory on the way is missing, or when there is nothing at its
end. That is the cause `notFound`, and it is the only one that counts as nothing being there: a
file on the way, or a name that is too long, is refused with another cause. A file that is removed
is not there, nor is one that is moved away, and where nothing was there is nothing once some other
file is removed.

So a publication leaves no temporary sibling, unless the file is its own.

## Main results

* `Files.read_remove`, `Files.read_drop`: what is not there once a file is removed.
* `Files.read_sibling_publication`: a publication leaves no sibling.
* `Notice.read_publish`, `Notice.read_withdraw`: what is read of a notice.
-/

namespace Upkeep

namespace Files

variable {fs fs' : Files} {path : String} {place : Place}

/-- Where a file could be written, nothing is read once there is nothing. -/
theorem read_of_find?_eq_none {there : Option (Nat × ByteArray)}
    (hlook : fs.lookForWriting path = .ok (place, there))
    (hdirs : ∀ p, fs.find? p = some .directory → fs'.find? p = some .directory)
    (hnone : fs'.find? place = none) : fs'.read path = .error .notFound := by
  obtain ⟨dir, name, htarget, hshort, rfl, -⟩ := lookForWriting_eq_ok_iff.mp hlook
  rw [read, look, target_congr hdirs htarget]
  dsimp only [after]
  rw [if_neg (Nat.not_lt.mpr hshort), hnone]

/-! ### Removing a file -/

theorem directories_drop (hdir : fs.find? place ≠ some .directory) :
    ∀ p, fs.find? p = some .directory → (fs.drop place).find? p = some .directory := by
  intro p hp
  rw [find?_drop_of_ne ?_, hp]
  rintro rfl
  exact hdir hp

/-- A file that was removed is not there. -/
theorem read_remove (h : fs.remove path = .ok fs') : fs'.read path = .error .notFound := by
  obtain ⟨place, identity, content, hlook, rfl⟩ := remove_eq_ok h
  exact read_of_find?_eq_none hlook (directories_drop (find?_ne_directory hlook))
    (find?_drop_self (Path.file?_ne_nil (lookForWriting_eq_ok hlook).1))

/-- What cannot be removed because it is not there is not there. -/
theorem read_of_remove (h : fs.remove path = .error .notFound) :
    fs.read path = .error .notFound := by
  rw [remove] at h
  rw [read, look]
  cases htarget : fs.target path with
  | error cause =>
    rw [htarget] at h
    cases h
    rfl
  | ok t =>
    rw [htarget] at h
    obtain ⟨dir, last, slash⟩ := t
    cases last with
    | stay => cases h
    | up => cases h
    | enter name =>
      dsimp only at h ⊢
      cases hafter : fs.after dir (.enter name) with
      | error cause =>
        rw [hafter] at h
        cases h
        rfl
      | ok found =>
        obtain ⟨place, entry⟩ := found
        rw [hafter] at h
        cases entry with
        | none => rfl
        | some entry =>
          cases entry with
          | directory => cases h
          | file identity content modified =>
            cases slash <;> cases h

/-- One step from a directory, after a file was removed: it leads where it led, unless it led to
the file. -/
theorem after_drop (dir : Place) (step : Path.Step) {identity : Nat} {content : ByteArray}
    {modified : Option Instant} (hfile : fs.find? place = some (.file identity content modified)) :
    (fs.drop place).after dir step = fs.after dir step ∨
      fs.after dir step = .ok (place, some (.file identity content modified)) ∧
        (fs.drop place).after dir step = .ok (place, none) := by
  cases step with
  | stay => exact Or.inl rfl
  | up => exact Or.inl rfl
  | enter name =>
    rw [after, after]
    by_cases hlong : longestName < name.utf8ByteSize
    · rw [if_pos hlong, if_pos hlong]
      exact Or.inl rfl
    · rw [if_neg hlong, if_neg hlong]
      by_cases hplace : dir ++ [name] = place
      · subst hplace
        rw [hfile, find?_drop_self (by simp)]
        exact Or.inr ⟨rfl, rfl⟩
      · rw [find?_drop_of_ne hplace]
        exact Or.inl rfl

/-- Where steps lead once a file was removed. They stop at the file if they came upon it. -/
theorem follow_drop (dir : Place) (steps : List Path.Step) {identity : Nat} {content : ByteArray}
    {modified : Option Instant} (hfile : fs.find? place = some (.file identity content modified)) :
    (fs.drop place).follow dir steps = fs.follow dir steps ∨
      fs.follow dir steps = .error .notDirectory ∧
        (fs.drop place).follow dir steps = .error .notFound := by
  induction steps generalizing dir with
  | nil => exact Or.inl rfl
  | cons step steps ih =>
    rw [follow, follow]
    rcases after_drop dir step hfile with hsame | ⟨hbefore, hafter⟩
    · rw [hsame]
      cases hstep : fs.after dir step with
      | error cause => exact Or.inl rfl
      | ok found =>
        obtain ⟨place', entry⟩ := found
        cases entry with
        | none => exact Or.inl rfl
        | some entry =>
          cases entry with
          | directory => exact ih place'
          | file _ _ _ => exact Or.inl rfl
    · rw [hbefore, hafter]
      exact Or.inr ⟨rfl, rfl⟩

/-- Where nothing was there is nothing once some file was removed. -/
theorem read_drop {identity : Nat} {content : ByteArray} {modified : Option Instant}
    (hfile : fs.find? place = some (.file identity content modified))
    (hnone : fs.read path = .error .notFound) : (fs.drop place).read path = .error .notFound := by
  have htarget : (fs.drop place).target path = fs.target path ∨
      (fs.drop place).target path = .error .notFound := by
    rw [target, target]
    split
    · exact Or.inl rfl
    · split
      · exact Or.inl rfl
      · split
        · exact Or.inl rfl
        · dsimp only
          rcases follow_drop [] (Path.steps path).dropLast hfile with
            hsame | ⟨-, hafter⟩
          · rw [hsame]
            exact Or.inl rfl
          · rw [hafter]
            exact Or.inr rfl
  rw [read, look] at hnone ⊢
  rcases htarget with hsame | hmissing
  · rw [hsame]
    cases ht : fs.target path with
    | error cause =>
      rw [ht] at hnone
      exact hnone
    | ok t =>
      rw [ht] at hnone
      dsimp only at hnone ⊢
      rcases after_drop t.dir t.last hfile with hsame | ⟨hbefore, hafter⟩
      · rw [hsame]
        exact hnone
      · rw [hafter]
  · rw [hmissing]

/-! ### Publishing -/

/-- A publication leaves no temporary sibling, unless the file is its own. -/
theorem read_sibling_publication {content : ByteArray} (hne : Path.temporary path ≠ path)
    (hdone : (fs.perform (publication path content)).2 = none) :
    (fs.perform (publication path content)).1.read (Path.temporary path) = .error .notFound := by
  have hpublished := published fs path content
  rw [hdone] at hpublished
  generalize (fs.perform (publication path content)).1 = fs' at hpublished ⊢
  obtain _ | _ | _ | ⟨hgrows, hcreate, happend, hrename⟩ := hpublished
  rename_i fs₁ fs₂ fs₃
  cases hlook : fs₂.lookForWriting (Path.temporary path) with
  | error cause =>
    rw [append, hlook] at happend
    cases happend
  | ok found =>
    obtain ⟨place, there⟩ := found
    obtain ⟨oldDir, oldName, newDir, newName, identity, moved, modified, hold, hnew, -, -, -,
      rfl⟩ := exists_of_rename hrename
    obtain ⟨sibling, hsibling, hapart⟩ :=
      (Path.temporary_apart (file?_of_target hnew).2).resolve_left hne
    obtain rfl : place = oldDir ++ [oldName] :=
      (place_of_lookForWriting hlook).trans (file?_of_target hold).1
    obtain rfl : oldDir ++ [oldName] = sibling :=
      Option.some.inj ((file?_of_target hold).2.symm.trans hsibling)
    refine read_of_find?_eq_none hlook
      (fun p hp => (keeps_rename hrename).1.directories p ((keeps_append happend).directories p hp))
      ?_
    rw [find?_put_of_ne hapart, find?_drop_self (Path.file?_ne_nil hsibling)]

end Files

/-! ### Notices -/

namespace Notice

variable {fs fs' : Files} {path : String} {report : Report}

theorem outcome_eq_ok {cause : Option IoCause} (h : outcome cause = .ok ()) : cause = none := by
  cases cause with
  | none => rfl
  | some cause => cases h

/-- A notice that was published is read, and no temporary sibling is there. -/
theorem read_publish (h : publish fs path report = (.ok (), fs')) :
    fs'.read path = .ok (content report) ∧
      (Path.temporary path ≠ path → fs'.read (Path.temporary path) = .error .notFound) := by
  rw [publish] at h
  obtain ⟨houtcome, rfl⟩ := Prod.mk.inj h
  have hdone := outcome_eq_ok houtcome
  exact ⟨Files.read_publication hdone, fun hne => Files.read_sibling_publication hne hdone⟩

/-- A notice that was withdrawn is not there, nor is anything that was not there before. -/
theorem read_withdraw (h : withdraw fs path = (.ok (), fs')) :
    fs'.read path = .error .notFound ∧
      ∀ other, fs.read other = .error .notFound → fs'.read other = .error .notFound := by
  rw [withdraw] at h
  split at h
  · rename_i fs'' hremove
    obtain ⟨-, rfl⟩ := Prod.mk.inj h
    refine ⟨Files.read_remove hremove, fun other hother => ?_⟩
    obtain ⟨place, identity, content, hlook, rfl⟩ := Files.remove_eq_ok hremove
    obtain ⟨dir, name, -, -, rfl, ⟨-, hnone⟩ | ⟨i, c, modified, hfile, -⟩⟩ :=
      Files.lookForWriting_eq_ok_iff.mp hlook
    · cases hnone
    · exact Files.read_drop hfile hother
  · rename_i hremove
    obtain ⟨-, rfl⟩ := Prod.mk.inj h
    exact ⟨Files.read_of_remove hremove, fun other hother => hother⟩
  · cases (Prod.mk.inj h).1

end Notice

end Upkeep
