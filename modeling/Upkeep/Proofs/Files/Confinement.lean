import Upkeep.Proofs.Files.Publication

/-!
# What stays in a directory

Two things have to come together for changes to stay in a directory. The changes must do nothing
but at the places that their paths name: no file is created, overwritten or removed elsewhere, and
directories only come where nothing was (`Files.Confined`). And a path that is joined to the
directory must name a place directly in it.

For the second a name is all it takes: a path without slashes names a place in the directory, and
there is no other way to name the place that is called what the path says.

## Main definitions

* `Files.Confined`: nothing changes but at some places.

## Main results

* `Path.place_join_iff`: which paths name a place of theirs in the directory they are joined to.
* `Files.confined_perform`: changes that are confined one by one are confined together.
-/

namespace Upkeep

/-! ### Paths below a directory -/

namespace Path

variable {dir path name : String} {start : Place}

theorem segments_append_slash (dir path : String) :
    segments (dir ++ "/" ++ path) = segments dir ++ segments path := by
  have happend : (dir ++ "/" ++ path).toList = dir.toList ++ '/' :: path.toList := by
    simp [String.toList_append]
  rw [segments, happend, Text.splitOn_eq, List.splitOn_append_cons_self, List.map_append,
    ← Text.splitOn_eq, ← Text.splitOn_eq]
  rfl

theorem steps_append_slash (dir path : String) :
    steps (dir ++ "/" ++ path) = steps dir ++ steps path := by
  rw [steps, segments_append_slash, List.filterMap_append]
  rfl

/-- Joined to a directory, a path that is not absolute goes on from there. -/
theorem steps_join (hrelative : ¬['/'] <+: path.toList) (dir : String) :
    steps (join dir path) = steps dir ++ steps path := by
  have hstart : path.startsWith "/" = false := String.startsWith_string_eq_false_iff.mpr hrelative
  rw [join, if_neg (by simp [hstart])]
  split
  · rename_i hdir
    rcases Bool.or_eq_true_iff.mp hdir with hempty | hslash
    · obtain rfl := eq_of_beq hempty
      rw [String.empty_append]
      rfl
    · have hend : dir.toSlice.endsWith "/" = true := hslash
      rw [String.Slice.endsWith_string_iff, String.copy_toSlice] at hend
      obtain ⟨front, hfront⟩ := hend
      obtain rfl : dir = String.ofList front ++ "/" := by
        rw [← String.toList_inj, String.toList_append, String.toList_ofList]
        exact hfront.symm
      have hdir : steps (String.ofList front ++ "/") = steps (String.ofList front) := by
        have hempty := steps_append_slash (String.ofList front) ""
        rw [String.append_empty] at hempty
        rw [hempty]
        exact List.append_nil _
      rw [steps_append_slash, hdir]
  · exact steps_append_slash dir path

/-- Joined to a directory, a name without slashes is entered from there. -/
theorem steps_join_name (hname : stepOf? name = some (.enter name)) (hslash : '/' ∉ name.toList)
    (dir : String) : steps (join dir name) = steps dir ++ [.enter name] := by
  have hrelative : ¬['/'] <+: name.toList := fun hstart => hslash (hstart.subset (by simp))
  have hsegments : segments name = [name] := by
    rw [segments, Text.splitOn_eq, List.splitOn_eq_singleton hslash, List.map_singleton,
      String.ofList_toList]
  have hsteps : steps name = [.enter name] := by
    rw [steps, hsegments]
    simp [hname]
  rw [steps_join hrelative, hsteps]

/-- A name in the place that steps lead to was there at first, or is one that a step enters. -/
theorem mem_walk {steps : List Step} (h : name ∈ walk start steps) :
    name ∈ start ∨ .enter name ∈ steps := by
  induction steps generalizing start with
  | nil => exact Or.inl h
  | cons step steps ih =>
    rcases ih h with hstart | hlater
    · cases step with
      | stay => exact Or.inl hstart
      | up => exact Or.inl (List.dropLast_subset start hstart)
      | enter entered =>
        rcases List.mem_append.mp hstart with hstart | hentered
        · exact Or.inl hstart
        · obtain rfl := List.mem_singleton.mp hentered
          exact Or.inr List.mem_cons_self
    · exact Or.inr (List.mem_cons_of_mem _ hlater)

/-- No name in a place has a slash in it. -/
theorem slash_not_mem_of_mem_place (h : name ∈ place path) : '/' ∉ name.toList := by
  rcases mem_walk h with hnil | hentered
  · cases hnil
  · obtain ⟨segment, hsegment, hstep⟩ := List.mem_filterMap.mp hentered
    obtain ⟨rfl, -⟩ := stepOf?_eq_enter.mp hstep
    exact slash_not_mem hsegment

/-- **A path names a place of its own name in the directory that it is joined to** just if there is
no slash in it, provided that it is a name at all. -/
theorem place_join_iff (hname : stepOf? name = some (.enter name)) (dir : String) :
    place (join dir name) = place dir ++ [name] ↔ '/' ∉ name.toList := by
  constructor
  · intro hplace
    exact slash_not_mem_of_mem_place (hplace ▸ List.mem_append_right _ List.mem_cons_self)
  · intro hslash
    rw [place, steps_join_name hname hslash, walk_append]
    rfl

end Path

/-! ### Changes at some places -/

namespace Files

/-- Nothing changes but at some places, except that directories are put where nothing was. -/
def Confined (fs : Files) (ps : List Place) (fs' : Files) : Prop :=
  ∀ p, p ∉ ps → fs'.find? p = fs.find? p ∨ fs.find? p = none ∧ fs'.find? p = some .directory

variable {fs fs' fs'' : Files} {ps ps' : List Place} {path : String} {place : Place}
  {content : ByteArray}

theorem Grows.confined (h : fs.Grows fs') (ps : List Place) : fs.Confined ps fs' := fun p _ => h p

theorem Confined.refl (fs : Files) (ps : List Place) : fs.Confined ps fs :=
  (Grows.refl fs).confined ps

theorem Confined.trans (h : fs.Confined ps fs') (h' : fs'.Confined ps fs'') :
    fs.Confined ps fs'' := by
  intro p hp
  rcases h p hp with hsame | ⟨hnone, hdir⟩
  · rcases h' p hp with hsame' | ⟨hnone', hdir'⟩
    · exact Or.inl (hsame'.trans hsame)
    · exact Or.inr ⟨hsame ▸ hnone', hdir'⟩
  · rcases h' p hp with hsame' | ⟨hnone', -⟩
    · exact Or.inr ⟨hnone, hsame'.trans hdir⟩
    · rw [hdir] at hnone'
      cases hnone'

theorem Confined.mono (h : fs.Confined ps fs') (hps : ps ⊆ ps') : fs.Confined ps' fs' :=
  fun p hp => h p fun hmem => hp (hps hmem)

theorem confined_of_ne (hother : ∀ p, p ≠ place → fs'.find? p = fs.find? p) :
    fs.Confined [place] fs' :=
  fun p hp => Or.inl (hother p (mt List.mem_singleton.mpr hp))

theorem confined_create (h : fs.create path = .ok fs') :
    fs.Confined [Path.place path] fs' := by
  obtain ⟨place, hplace, -, hother⟩ := create_eq_ok h
  obtain ⟨-, rfl, -⟩ := Path.file?_eq_some.mp hplace
  exact confined_of_ne hother

theorem confined_append (h : fs.append path content = .ok fs') :
    fs.Confined [Path.place path] fs' := by
  obtain ⟨place, start, hplace, -, -, hother⟩ := append_eq_ok h
  obtain ⟨-, rfl, -⟩ := Path.file?_eq_some.mp hplace
  exact confined_of_ne hother

theorem confined_remove (h : fs.remove path = .ok fs') :
    fs.Confined [Path.place path] fs' := by
  obtain ⟨place, identity, content, hlook, rfl⟩ := remove_eq_ok h
  obtain rfl := place_of_lookForWriting hlook
  exact confined_of_ne fun p hp => find?_drop_of_ne hp

theorem confined_copy {old : String} (h : fs.copy old path = .ok fs') :
    fs.Confined [Path.place path] fs' := by
  rw [copy] at h
  split at h
  · cases h
  · cases h
  · split at h
    · cases h
    · rename_i fs₁ hcreate
      split at h
      · cases h
      · exact (confined_create hcreate).trans (confined_append h)

/-- A change that is refused is none. -/
theorem confined_settle {result : Except IoCause Files}
    (h : ∀ fs', result = .ok fs' → fs.Confined ps fs') : fs.Confined ps (fs.settle result).1 := by
  cases result with
  | error cause => exact .refl fs ps
  | ok fs' => exact h fs' rfl

/-- **Changes that are confined one by one are confined together.** -/
theorem confined_perform {steps : List Step}
    (h : ∀ step ∈ steps, ∀ fs : Files, fs.Confined ps (fs.apply step).1) (fs : Files) :
    fs.Confined ps (fs.perform steps).1 := by
  induction steps generalizing fs with
  | nil => exact .refl fs ps
  | cons step steps ih =>
    obtain ⟨hstep, hsteps⟩ := List.forall_mem_cons.mp h
    have hfirst := hstep fs
    rw [perform]
    split
    · rename_i fs' cause happly
      rw [happly] at hfirst
      exact hfirst
    · rename_i fs' happly
      rw [happly] at hfirst
      exact hfirst.trans (ih hsteps fs')

theorem confined_writing (fs : Files) (path : String) (content : ByteArray) :
    fs.Confined [Path.place path] (fs.perform (writing path content)).1 := by
  refine confined_perform (fun step hstep fs => ?_) fs
  rcases List.mem_cons.mp hstep with rfl | hstep
  · exact confined_settle fun fs' h => confined_create h
  · obtain rfl := List.mem_singleton.mp hstep
    exact confined_settle fun fs' h => confined_append h

end Files

end Upkeep
