import Upkeep.Proofs.Files.Places

/-!
# What changes do to files

Each change says what it does at the places that its paths name, and that it does nothing
elsewhere. Creating directories only ever puts directories where nothing was (`Grows`), even when
it is refused halfway, so it changes no file.

Where there can be a file is said once, by `lookForWriting`: every change but one starts from it,
so two paths that it leads to one place are paths of one file for all of them.

## Main definitions

* `Files.Grows`, `Files.GrowsAt`: directories are put where nothing was.

## Main results

* `Files.create_eq_ok`, `Files.append_eq_ok`, `Files.rename_eq_ok`, `Files.remove_eq_ok`,
  `Files.grows_createDirs`: what each change does.
* `Files.lookForWriting_again`: a file that was written is found again.
-/

namespace Upkeep

namespace Files

variable {fs fs' fs'' : Files} {path : String} {content : ByteArray} {ps ps' : List Place}

/-! ### Directories -/

/-- Nothing changes but that directories are put where nothing was. -/
def Grows (fs fs' : Files) : Prop :=
  ∀ p, fs'.find? p = fs.find? p ∨ fs.find? p = none ∧ fs'.find? p = some .directory

theorem Grows.refl (fs : Files) : fs.Grows fs := fun _ => Or.inl rfl

theorem Grows.fileAt? (h : fs.Grows fs') (p : Place) : fs'.fileAt? p = fs.fileAt? p := by
  rcases h p with hp | ⟨hnone, hdir⟩
  · exact fileAt?_congr hp
  · rw [Files.fileAt?, Files.fileAt?, hnone, hdir]

theorem Grows.held? (h : fs.Grows fs') (path : String) : fs'.held? path = fs.held? path := by
  rw [Files.held?, Files.held?]
  cases Path.file? path with
  | none => rfl
  | some p => exact h.fileAt? p

/-- Nothing changes but that directories are put where nothing was, at some places only. -/
def GrowsAt (fs : Files) (ps : List Place) (fs' : Files) : Prop :=
  ∀ p, fs'.find? p = fs.find? p ∨
    p ∈ ps ∧ fs.find? p = none ∧ fs'.find? p = some .directory

namespace GrowsAt

theorem refl (fs : Files) (ps : List Place) : fs.GrowsAt ps fs := fun _ => Or.inl rfl

theorem grows (h : fs.GrowsAt ps fs') : fs.Grows fs' := fun p => (h p).imp_right And.right

theorem mono (h : fs.GrowsAt ps fs') (hps : ps ⊆ ps') : fs.GrowsAt ps' fs' :=
  fun p => (h p).imp_right fun ⟨hp, hnew⟩ => ⟨hps hp, hnew⟩

theorem trans (h : fs.GrowsAt ps fs') (h' : fs'.GrowsAt ps fs'') : fs.GrowsAt ps fs'' := by
  intro p
  rcases h p with hp | ⟨hp, hnone, hdir⟩
  · rcases h' p with hp' | ⟨hmem, hnone', hdir'⟩
    · exact Or.inl (hp'.trans hp)
    · exact Or.inr ⟨hmem, hp ▸ hnone', hdir'⟩
  · rcases h' p with hp' | ⟨-, hnone', -⟩
    · exact Or.inr ⟨hp, hnone, hp'.trans hdir⟩
    · rw [hdir] at hnone'
      cases hnone'

end GrowsAt

theorem growsAt_makeDir (h : fs.makeDir path = .ok fs') : fs.GrowsAt [Path.place path] fs' := by
  rw [makeDir] at h
  split at h
  · cases h
  · split at h
    · cases h
    · cases h
    · rename_i dir name slash htarget _ place hafter
      cases h
      obtain ⟨rfl, hnone⟩ := after_eq_ok hafter
      rw [(file?_of_target htarget).1]
      intro p
      by_cases hp : p = dir ++ [name]
      · subst hp
        refine Or.inr ⟨List.mem_singleton.mpr rfl, ?_, find?_put_self (by simp [Path.Step.from])⟩
        rcases hnone with hnone | hnone
        · exact hnone.symm
        · cases hnone
      · exact Or.inl (find?_put_of_ne hp)
  · cases h

theorem growsAt_createFirst (paths : List String) :
    fs.GrowsAt (paths.map Path.place) (fs.createFirst paths).1 := by
  induction paths with
  | nil => exact .refl fs _
  | cons path above ih =>
    have habove := ih.mono (List.subset_cons_self (Path.place path) (above.map Path.place))
    have hone : [Path.place path] ⊆ (path :: above).map Path.place := by simp
    rw [createFirst]
    split
    · rename_i fs' hmake
      exact (growsAt_makeDir hmake).mono hone
    · split
      · rename_i fs' cause hfirst
        rw [hfirst] at habove
        exact habove
      · rename_i fs' hfirst
        rw [hfirst] at habove
        split
        · rename_i fs'' hmake
          exact GrowsAt.trans habove ((growsAt_makeDir hmake).mono hone)
        · exact habove
    · exact .refl fs _

/-- Creating directories changes no file, even when it is refused halfway. -/
theorem grows_createDirs (fs : Files) (path : String) : fs.Grows (fs.createDirs path).1 := by
  rw [createDirs]
  split
  · exact .refl fs
  · exact (growsAt_createFirst _).grows

/-! ### Files -/

/-- What it takes to write a file. -/
theorem lookForWriting_eq_ok_iff {place : Place} {there : Option (Nat × ByteArray)} :
    fs.lookForWriting path = .ok (place, there) ↔
      ∃ dir name, fs.target path = .ok ⟨dir, .enter name, false⟩ ∧
        name.utf8ByteSize ≤ longestName ∧ place = dir ++ [name] ∧
          (fs.find? place = none ∧ there = none ∨ ∃ identity content modified,
            fs.find? place = some (.file identity content modified) ∧
              there = some (identity, content)) := by
  constructor
  · intro h
    rw [lookForWriting] at h
    split at h
    · cases h
    · rename_i dir name htarget
      dsimp only [after] at h
      by_cases hlong : longestName < name.utf8ByteSize
      · rw [if_pos hlong] at h
        cases h
      · rw [if_neg hlong] at h
        cases hentry : fs.find? (dir ++ [name]) with
        | none =>
          rw [hentry] at h
          cases h
          exact ⟨dir, name, htarget, Nat.le_of_not_lt hlong, rfl, Or.inl ⟨hentry, rfl⟩⟩
        | some entry =>
          rw [hentry] at h
          cases entry with
          | directory => cases h
          | file identity content modified =>
            cases h
            exact ⟨dir, name, htarget, Nat.le_of_not_lt hlong, rfl,
              Or.inr ⟨identity, content, modified, hentry, rfl⟩⟩
    · cases h
  · rintro ⟨dir, name, htarget, hshort, rfl, ⟨hnone, rfl⟩ | ⟨_, content, modified, hfile, rfl⟩⟩
    · rw [lookForWriting, htarget]
      dsimp only [after]
      rw [if_neg (Nat.not_lt.mpr hshort), hnone]
    · rw [lookForWriting, htarget]
      dsimp only [after]
      rw [if_neg (Nat.not_lt.mpr hshort), hfile]

theorem lookForWriting_eq_ok {place : Place} {there : Option (Nat × ByteArray)}
    (h : fs.lookForWriting path = .ok (place, there)) :
    Path.file? path = some place ∧ fs.fileAt? place = there.map Prod.snd := by
  obtain ⟨dir, name, htarget, -, rfl, ⟨hnone, rfl⟩ | ⟨identity, content, modified, hfile, rfl⟩⟩ :=
    lookForWriting_eq_ok_iff.mp h
  · refine ⟨(file?_of_target htarget).2, ?_⟩
    rw [fileAt?, hnone]
    rfl
  · exact ⟨(file?_of_target htarget).2, fileAt?_eq_some.mpr ⟨identity, modified, hfile⟩⟩

/-- A path along which a file can be written names the place of the file. -/
theorem place_of_lookForWriting {place : Place} {there : Option (Nat × ByteArray)}
    (h : fs.lookForWriting path = .ok (place, there)) : place = Path.place path :=
  (Path.file?_eq_some.mp (lookForWriting_eq_ok h).1).2.1

/-- Where a file can be written there is no directory. -/
theorem find?_ne_directory {place : Place} {there : Option (Nat × ByteArray)}
    (h : fs.lookForWriting path = .ok (place, there)) : fs.find? place ≠ some .directory := by
  obtain ⟨dir, name, -, -, -, ⟨hnone, -⟩ | ⟨identity, content, modified, hfile, -⟩⟩ :=
    lookForWriting_eq_ok_iff.mp h
  · simp [hnone]
  · simp [hfile]

/-- A file that can be read can be written. -/
theorem lookForWriting_of_read (h : fs.read path = .ok content) :
    ∃ identity, fs.lookForWriting path = .ok (Path.place path, some (identity, content)) := by
  obtain ⟨dir, name, htarget, hshort, hfile⟩ := read_eq_ok_iff.mp h
  obtain ⟨identity, modified, hentry⟩ := fileAt?_eq_some.mp hfile
  rw [(file?_of_target htarget).1]
  exact ⟨identity, lookForWriting_eq_ok_iff.mpr ⟨dir, name, htarget, hshort, rfl,
    Or.inr ⟨identity, content, modified, hentry, rfl⟩⟩⟩

/-- A file that is there and can be written can be read. -/
theorem read_of_lookForWriting {place : Place} {identity : Nat}
    (h : fs.lookForWriting path = .ok (place, some (identity, content))) :
    fs.read path = .ok content := by
  obtain ⟨dir, name, htarget, hshort, rfl, ⟨-, hnone⟩ | ⟨i, c, modified, hfile, heq⟩⟩ :=
    lookForWriting_eq_ok_iff.mp h
  · cases hnone
  · cases heq
    exact read_eq_ok_iff.mpr ⟨dir, name, htarget, hshort, fileAt?_eq_some.mpr ⟨_, _, hfile⟩⟩

/-- A file that was written can be written again. -/
theorem lookForWriting_again {place : Place} {there : Option (Nat × ByteArray)} {identity : Nat}
    {content : ByteArray} {modified : Option Instant}
    (h : fs.lookForWriting path = .ok (place, there))
    (hfile : fs'.find? place = some (.file identity content modified))
    (hother : ∀ p, p ≠ place → fs'.find? p = fs.find? p) :
    fs'.lookForWriting path = .ok (place, some (identity, content)) := by
  obtain ⟨dir, name, htarget, hshort, rfl, hthere⟩ := lookForWriting_eq_ok_iff.mp h
  have hdirs : ∀ p, fs.find? p = some .directory → fs'.find? p = some .directory := by
    intro p hp
    rw [hother p ?_, hp]
    rintro rfl
    rcases hthere with ⟨hnone, -⟩ | ⟨identity', content', modified', hfile', -⟩
    · rw [hnone] at hp
      cases hp
    · rw [hfile'] at hp
      cases hp
  exact lookForWriting_eq_ok_iff.mpr ⟨dir, name, target_congr hdirs htarget, hshort, rfl,
    Or.inr ⟨identity, content, modified, hfile, rfl⟩⟩

/-- What `create` does. -/
theorem create_eq_ok (h : fs.create path = .ok fs') :
    ∃ place, Path.file? path = some place ∧ fs'.fileAt? place = some ByteArray.empty ∧
      ∀ p, p ≠ place → fs'.find? p = fs.find? p := by
  rw [create] at h
  split at h
  · cases h
  · rename_i place identity content hlook
    cases h
    have hnamed := (lookForWriting_eq_ok hlook).1
    refine ⟨place, hnamed, ?_, fun p hp => find?_put_of_ne hp⟩
    exact fileAt?_eq_some.mpr ⟨_, _, find?_put_self (Path.file?_ne_nil hnamed)⟩
  · rename_i place hlook
    cases h
    have hnamed := (lookForWriting_eq_ok hlook).1
    refine ⟨place, hnamed, ?_, fun p hp => find?_addFile_of_ne hp⟩
    exact fileAt?_eq_some.mpr ⟨_, _, find?_addFile_self (Path.file?_ne_nil hnamed)⟩

/-- What `append` does. -/
theorem append_eq_ok {content : ByteArray} (h : fs.append path content = .ok fs') :
    ∃ place start, Path.file? path = some place ∧ fs.fileAt? place = some start ∧
      fs'.fileAt? place = some (start ++ content) ∧ ∀ p, p ≠ place → fs'.find? p = fs.find? p := by
  rw [append] at h
  split at h
  · cases h
  · rename_i place identity start hlook
    cases h
    obtain ⟨hnamed, hstart⟩ := lookForWriting_eq_ok hlook
    refine ⟨place, start, hnamed, hstart, ?_, fun p hp => find?_put_of_ne hp⟩
    exact fileAt?_eq_some.mpr ⟨_, _, find?_put_self (Path.file?_ne_nil hnamed)⟩
  · cases h

/-- What it takes to move a file, and what that leaves. -/
theorem exists_of_rename {old new : String} (h : fs.rename old new = .ok fs') :
    ∃ oldDir oldName newDir newName identity content modified,
      fs.target old = .ok ⟨oldDir, .enter oldName, false⟩ ∧
      fs.target new = .ok ⟨newDir, .enter newName, false⟩ ∧
      newName.utf8ByteSize ≤ longestName ∧
      fs.find? (oldDir ++ [oldName]) = some (.file identity content modified) ∧
      fs.find? (newDir ++ [newName]) ≠ some .directory ∧
      fs' = (fs.drop (oldDir ++ [oldName])).put (newDir ++ [newName])
        (.file identity content modified) := by
  rw [rename] at h
  split at h
  · cases h
  · cases h
  · rename_i oldDir oldName oldSlash newDir newName newSlash hold hnew
    dsimp only [after] at h
    by_cases hlongOld : longestName < oldName.utf8ByteSize
    · rw [if_pos hlongOld] at h
      cases h
    · rw [if_neg hlongOld] at h
      by_cases hlongNew : longestName < newName.utf8ByteSize
      · rw [if_pos hlongNew] at h
        cases hentry : fs.find? (oldDir ++ [oldName]) <;> simp [hentry] at h
      · rw [if_neg hlongNew] at h
        cases hentry : fs.find? (oldDir ++ [oldName]) with
        | none => simp [hentry] at h
        | some entry =>
          rw [hentry] at h
          dsimp only at h
          split at h
          · cases h
          · rename_i hslash
            obtain ⟨rfl, rfl⟩ : oldSlash = false ∧ newSlash = false := by simpa using hslash
            cases entry with
            | directory => cases h
            | file identity content modified =>
              split at h
              · rename_i hdir
                cases hdir
              · cases h
              · rename_i hthere
                cases h
                exact ⟨oldDir, oldName, newDir, newName, identity, content, modified, hold, hnew,
                  Nat.le_of_not_lt hlongNew, hentry, hthere, rfl⟩
  · cases h

/-- What `rename` does. -/
theorem rename_eq_ok {old new : String} (h : fs.rename old new = .ok fs') :
    ∃ oldPlace newPlace content, Path.file? old = some oldPlace ∧ Path.file? new = some newPlace ∧
      fs.fileAt? oldPlace = some content ∧ fs'.fileAt? newPlace = some content ∧
        ∀ p, p ≠ oldPlace → p ≠ newPlace → fs'.find? p = fs.find? p := by
  obtain ⟨oldDir, oldName, newDir, newName, identity, content, modified, hold, hnew, -, hfile, -,
    rfl⟩ := exists_of_rename h
  refine ⟨_, _, content, (file?_of_target hold).2, (file?_of_target hnew).2,
    fileAt?_eq_some.mpr ⟨identity, modified, hfile⟩,
    fileAt?_eq_some.mpr ⟨identity, modified, find?_put_self (by simp)⟩, fun p hold hnew => ?_⟩
  exact (find?_put_of_ne hnew).trans (find?_drop_of_ne hold)

/-- What `remove` does. -/
theorem remove_eq_ok (h : fs.remove path = .ok fs') :
    ∃ place identity content, fs.lookForWriting path = .ok (place, some (identity, content)) ∧
      fs' = fs.drop place := by
  rw [remove] at h
  split at h
  · cases h
  · rename_i dir name slash htarget
    dsimp only [after] at h
    by_cases hlong : longestName < name.utf8ByteSize
    · rw [if_pos hlong] at h
      cases h
    · rw [if_neg hlong] at h
      cases hentry : fs.find? (dir ++ [name]) with
      | none =>
        rw [hentry] at h
        cases h
      | some entry =>
        rw [hentry] at h
        cases entry with
        | directory => cases h
        | file identity content modified =>
          cases slash with
          | true => cases h
          | false =>
            cases h
            exact ⟨_, identity, content, lookForWriting_eq_ok_iff.mpr ⟨dir, name, htarget,
              Nat.le_of_not_lt hlong, rfl, Or.inr ⟨identity, content, modified, hentry, rfl⟩⟩, rfl⟩
  · cases h

end Files

end Upkeep
