import Upkeep.Proofs.Files.Publication

/-!
# What changes leave alone

A change does something to the files at a few places, and keeps everything else that is there:
every directory, and every file at another place. Whatever is kept is still found by its path,
since the directories on the way are kept as well. So two parties that use files at different
places do not notice each other, though both may create directories.

## Main definitions

* `Files.Keeps`: everything stays, except for files at some places.

## Main results

* `Files.Keeps.lookForWriting`, `Files.Keeps.read`: what is kept is found by its path.
* `Files.keeps_publication`: a publication touches its own file and the temporary sibling.
* `Files.read_publication`: what was published is read.
-/

namespace Upkeep

namespace Files

/-- Everything that is there stays as it is, except for files at some places. -/
def Keeps (fs : Files) (ps : List Place) (fs' : Files) : Prop :=
  ∀ p entry, fs.find? p = some entry → entry = .directory ∨ p ∉ ps → fs'.find? p = some entry

variable {fs fs' fs'' : Files} {ps : List Place} {path : String} {place : Place} {identity : Nat}
  {content : ByteArray}

theorem Keeps.refl (fs : Files) (ps : List Place) : fs.Keeps ps fs := fun _ _ h _ => h

theorem Keeps.trans (h : fs.Keeps ps fs') (h' : fs'.Keeps ps fs'') : fs.Keeps ps fs'' :=
  fun p entry hp hkept => h' p entry (h p entry hp hkept) hkept

theorem Keeps.mono {ps' : List Place} (h : fs.Keeps ps fs') (hps : ps ⊆ ps') : fs.Keeps ps' fs' :=
  fun p entry hp hkept => h p entry hp (hkept.imp_right fun hmem => mt (@hps p) hmem)

theorem Grows.keeps (h : fs.Grows fs') (ps : List Place) : fs.Keeps ps fs' := by
  intro p entry hp _
  rcases h p with hsame | ⟨hnone, -⟩
  · exact hsame.trans hp
  · rw [hnone] at hp
    cases hp

/-- What changes only the file at a place keeps everything else. -/
theorem keeps_of_ne (hdir : fs.find? place ≠ some .directory)
    (hother : ∀ p, p ≠ place → fs'.find? p = fs.find? p) : fs.Keeps [place] fs' := by
  intro p entry hp hkept
  rw [hother p ?_, hp]
  rintro rfl
  rcases hkept with rfl | hmem
  · exact hdir hp
  · exact hmem (List.mem_singleton.mpr rfl)

/-! ### What is kept is found -/

theorem Keeps.directories (h : fs.Keeps ps fs') :
    ∀ p, fs.find? p = some .directory → fs'.find? p = some .directory :=
  fun p hp => h p _ hp (Or.inl rfl)

/-- A file that is kept is found by its path, as it was. -/
theorem Keeps.lookForWriting (h : fs.Keeps ps fs')
    (hlook : fs.lookForWriting path = .ok (place, some (identity, content))) (hps : place ∉ ps) :
    fs'.lookForWriting path = .ok (place, some (identity, content)) := by
  obtain ⟨dir, name, htarget, hshort, rfl, ⟨-, hnone⟩ | ⟨i, c, modified, hfile, heq⟩⟩ :=
    lookForWriting_eq_ok_iff.mp hlook
  · cases hnone
  · exact lookForWriting_eq_ok_iff.mpr ⟨dir, name, target_congr h.directories htarget, hshort, rfl,
      Or.inr ⟨i, c, modified, h _ _ hfile (Or.inr hps), heq⟩⟩

/-- A file that is kept is read as it was. -/
theorem Keeps.read (h : fs.Keeps ps fs') (hread : fs.read path = .ok content)
    (hps : Path.place path ∉ ps) : fs'.read path = .ok content := by
  obtain ⟨identity, hlook⟩ := lookForWriting_of_read hread
  exact read_of_lookForWriting (h.lookForWriting hlook hps)

/-! ### What changes keep -/

theorem keeps_create (h : fs.create path = .ok fs') : fs.Keeps [Path.place path] fs' := by
  rw [create] at h
  split at h
  · cases h
  · rename_i place identity content hlook
    cases h
    obtain rfl := place_of_lookForWriting hlook
    exact keeps_of_ne (find?_ne_directory hlook) fun p hp => find?_put_of_ne hp
  · rename_i place hlook
    cases h
    obtain rfl := place_of_lookForWriting hlook
    exact keeps_of_ne (find?_ne_directory hlook) fun p hp => find?_addFile_of_ne hp

theorem keeps_append (h : fs.append path content = .ok fs') : fs.Keeps [Path.place path] fs' := by
  rw [append] at h
  split at h
  · cases h
  · rename_i place identity start hlook
    cases h
    obtain rfl := place_of_lookForWriting hlook
    exact keeps_of_ne (find?_ne_directory hlook) fun p hp => find?_put_of_ne hp
  · cases h

/-- What `rename` keeps, and what is read then. -/
theorem keeps_rename {old new : String} (h : fs.rename old new = .ok fs') :
    fs.Keeps [Path.place old, Path.place new] fs' ∧
      ∀ content, fs.fileAt? (Path.place old) = some content → fs'.read new = .ok content := by
  obtain ⟨oldDir, oldName, newDir, newName, identity, moved, modified, hold, hnew, hshort, hfile,
    hthere, rfl⟩ := exists_of_rename h
  obtain ⟨holdPlace, -⟩ := file?_of_target hold
  obtain ⟨hnewPlace, hnewFile⟩ := file?_of_target hnew
  rw [holdPlace, hnewPlace]
  have hkeeps : fs.Keeps [oldDir ++ [oldName], newDir ++ [newName]]
      ((fs.drop (oldDir ++ [oldName])).put (newDir ++ [newName])
        (.file identity moved modified)) := by
    intro p entry hp hkept
    have holdNe : p ≠ oldDir ++ [oldName] := by
      rintro rfl
      rcases hkept with rfl | hmem
      · rw [hfile] at hp
        cases hp
      · exact hmem (by simp)
    have hnewNe : p ≠ newDir ++ [newName] := by
      rintro rfl
      rcases hkept with rfl | hmem
      · exact hthere hp
      · exact hmem (by simp)
    rw [find?_put_of_ne hnewNe, find?_drop_of_ne holdNe, hp]
  refine ⟨hkeeps, fun content hcontent => ?_⟩
  obtain ⟨identity', modified', hmoved⟩ := fileAt?_eq_some.mp hcontent
  cases hfile.symm.trans hmoved
  exact read_eq_ok_iff.mpr ⟨newDir, newName, target_congr hkeeps.directories hnew, hshort,
    fileAt?_eq_some.mpr ⟨identity, modified, find?_put_self (Path.file?_ne_nil hnewFile)⟩⟩

/-! ### Publications -/

/-- A publication touches the file and its temporary sibling, and nothing else that is there. -/
theorem keeps_publication (fs : Files) (path : String) (content : ByteArray) :
    fs.Keeps [Path.place (Path.temporary path), Path.place path]
      (fs.perform (publication path content)).1 := by
  have hsibling : [Path.place (Path.temporary path)] ⊆
      [Path.place (Path.temporary path), Path.place path] := by simp
  have hpublished := published fs path content
  generalize fs.perform (publication path content) = outcome at hpublished ⊢
  obtain ⟨fs', cause⟩ := outcome
  cases hpublished with
  | barred hgrows => exact hgrows.keeps _
  | emptied hgrows hcreate hrefused =>
    exact (hgrows.keeps _).trans ((keeps_create hcreate).mono hsibling)
  | written hgrows hcreate happend hrefused =>
    exact ((hgrows.keeps _).trans ((keeps_create hcreate).mono hsibling)).trans
      ((keeps_append happend).mono hsibling)
  | done hgrows hcreate happend hrename =>
    exact (((hgrows.keeps _).trans ((keeps_create hcreate).mono hsibling)).trans
      ((keeps_append happend).mono hsibling)).trans (keeps_rename hrename).1

/-- **What was published is read.** -/
theorem read_publication (hdone : (fs.perform (publication path content)).2 = none) :
    (fs.perform (publication path content)).1.read path = .ok content := by
  have h := published fs path content
  rw [hdone] at h
  obtain _ | _ | _ | ⟨hgrows, hcreate, happend, hrename⟩ := h
  obtain ⟨place, hplace, hempty, -⟩ := create_eq_ok hcreate
  obtain ⟨place', start, hplace', hstart, hwhole, -⟩ := append_eq_ok happend
  obtain rfl : place = place' := Option.some.inj (hplace.symm.trans hplace')
  obtain rfl : ByteArray.empty = start := Option.some.inj (hempty.symm.trans hstart)
  obtain ⟨-, rfl, -⟩ := Path.file?_eq_some.mp hplace
  rw [ByteArray.empty_append] at hwhole
  exact (keeps_rename hrename).2 content hwhole

/-- What could be read before a refused publication is read after it. -/
theorem read_of_refused {old : ByteArray} (hread : fs.read path = .ok old)
    (hrefused : (fs.perform (publication path content)).2 ≠ none) :
    (fs.perform (publication path content)).1.read path = .ok old := by
  obtain ⟨hnamed, hfile⟩ := read_eq_ok hread
  have hheld := held?_publication fs path content
  rw [if_neg hrefused, held?_of_file? hnamed, held?_of_file? hnamed, hfile] at hheld
  exact read_congr (keeps_publication fs path content).directories hread hheld

end Files

end Upkeep
