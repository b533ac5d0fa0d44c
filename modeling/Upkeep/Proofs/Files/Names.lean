import Upkeep.Proofs.Files.Ancestors
import Upkeep.Proofs.Files.Confinement

/-!
# Names in directories

A name in a directory has no slash in it. Nothing in the definition of a tree says so, but paths are
the only way to put something there, and no step of a path enters a name with a slash. So the root
alone is a state without such names, and every change keeps it one (`Files.Sound.perform`).

In such a state what is in a directory can be listed and then looked at by joining its name to the
path of the directory. A path that does not go up leads to what is at its place and nowhere else, so
two states in which the same is at that place cannot be told apart by looking there, however much
else differs.

## Main definitions

* `Files.Named`, `Files.Sound`: the states that a system can be in.
* `Files.Step.paths`: the paths of what a change can make a difference to.

## Main results

* `Files.find?_apply`: a change makes no difference elsewhere.
* `Files.Sound.perform`: changes keep a state sound.
* `Files.mem_names`: what is listed in a directory.
* `Files.IsTree.look_congr`: what a path leads to that does not go up.
-/

namespace Upkeep

namespace Files

variable {fs fs' : Files} {path : String} {place p : Place} {entry : FileEntry} {name : String}

/-! ### Names without slashes -/

/-- No name has a slash in it. -/
def Named (fs : Files) : Prop := ∀ p, fs.find? p ≠ none → ∀ name ∈ p, '/' ∉ name.toList

/-- A state of the files that a system can be in: whatever is there is in a directory, and no name
has a slash in it. -/
structure Sound (fs : Files) : Prop where
  /-- It is a tree. -/
  tree : fs.IsTree
  /-- Its names are names. -/
  named : fs.Named

theorem named_empty : empty.Named := by
  intro p hp
  by_cases hroot : p = []
  · simp [hroot]
  · exact absurd (by simp [find?, empty, hroot]) hp

/-- The paths of what a change can make a difference to. -/
def Step.paths : Step → List String
  | .createDirs path => path :: Path.ancestors path
  | .create path | .append path _ | .remove path | .touch path _ => [path]
  | .rename old new => [old, new]
  | .copy _ new => [new]

/-- What a change that is refused leaves as it is. -/
theorem find?_settle {result : Except IoCause Files}
    (h : ∀ fs', result = .ok fs' → fs'.find? p = fs.find? p) :
    (fs.settle result).1.find? p = fs.find? p := by
  cases result with
  | error cause => rfl
  | ok fs' => exact h fs' rfl

theorem find?_of_create (h : fs.create path = .ok fs') (hp : p ≠ Path.place path) :
    fs'.find? p = fs.find? p := by
  obtain ⟨place, hplace, -, hother⟩ := create_eq_ok h
  obtain ⟨-, rfl, -⟩ := Path.file?_eq_some.mp hplace
  exact hother p hp

theorem find?_of_append {content : ByteArray} (h : fs.append path content = .ok fs')
    (hp : p ≠ Path.place path) : fs'.find? p = fs.find? p := by
  obtain ⟨place, start, hplace, -, -, hother⟩ := append_eq_ok h
  obtain ⟨-, rfl, -⟩ := Path.file?_eq_some.mp hplace
  exact hother p hp

/-- **A change makes no difference but at the places of its paths.** -/
theorem find?_apply {step : Step} (h : ∀ path ∈ step.paths, p ≠ Path.place path) :
    (fs.apply step).1.find? p = fs.find? p := by
  cases step with
  | createDirs path =>
    rw [apply, createDirs]
    split
    · rfl
    · refine (growsAt_createFirst (path :: Path.ancestors path) p).resolve_right ?_
      rintro ⟨hmem, -⟩
      obtain ⟨a, ha, rfl⟩ := List.mem_map.mp hmem
      exact h a ha rfl
  | create path =>
    exact find?_settle fun fs' hcreate => find?_of_create hcreate (h path List.mem_cons_self)
  | append path content =>
    exact find?_settle fun fs' happend => find?_of_append happend (h path List.mem_cons_self)
  | rename old new =>
    refine find?_settle fun fs' hrename => ?_
    obtain ⟨oldPlace, newPlace, content, hold, hnew, -, -, hother⟩ := rename_eq_ok hrename
    obtain ⟨-, rfl, -⟩ := Path.file?_eq_some.mp hold
    obtain ⟨-, rfl, -⟩ := Path.file?_eq_some.mp hnew
    exact hother p (h old (by simp [Step.paths])) (h new (by simp [Step.paths]))
  | remove path =>
    refine find?_settle fun fs' hremove => ?_
    obtain ⟨place, identity, content, hlook, rfl⟩ := remove_eq_ok hremove
    obtain rfl := place_of_lookForWriting hlook
    exact find?_drop_of_ne (h path List.mem_cons_self)
  | touch path time =>
    refine find?_settle fun fs' htouch => ?_
    rw [touch] at htouch
    split at htouch
    · cases htouch
    · cases htouch
    · rename_i place identity content modified hlook
      cases htouch
      obtain rfl := place_of_look hlook
      exact find?_put_of_ne (h path List.mem_cons_self)
  | copy old new =>
    refine find?_settle fun fs' hcopy => ?_
    have hp := h new List.mem_cons_self
    rw [copy] at hcopy
    split at hcopy
    · cases hcopy
    · cases hcopy
    · split at hcopy
      · cases hcopy
      · rename_i fs₁ hcreate
        split at hcopy
        · cases hcopy
        · exact (find?_of_append hcopy hp).trans (find?_of_create hcreate hp)

/-- **Names stay names**: a path enters nothing with a slash. -/
theorem Named.apply (h : fs.Named) (step : Step) : (fs.apply step).1.Named := by
  intro p hp name hname
  by_cases hplace : ∃ path ∈ step.paths, p = Path.place path
  · obtain ⟨path, -, rfl⟩ := hplace
    exact Path.slash_not_mem_of_mem_place hname
  · push Not at hplace
    exact h p (find?_apply hplace ▸ hp) name hname

theorem sound_empty : empty.Sound := ⟨isTree_empty, named_empty⟩

/-- **Changes keep a state sound.** -/
theorem Sound.perform (h : fs.Sound) (steps : List Step) : (fs.perform steps).1.Sound := by
  induction steps generalizing fs with
  | nil => exact h
  | cons step steps ih =>
    have hstep : (fs.apply step).1.Sound := ⟨h.tree.apply step, h.named.apply step⟩
    rw [Files.perform]
    split
    · rename_i fs' cause happly
      rw [happly] at hstep
      exact hstep
    · rename_i fs' happly
      rw [happly] at hstep
      exact ih hstep

/-! ### Listing directories -/

theorem mem_namesAt : name ∈ fs.namesAt place ↔ fs.find? (place ++ [name]) ≠ none := by
  have hfind : fs.find? (place ++ [name]) ≠ none ↔ ∃ e ∈ fs.entries, e.1 = place ++ [name] := by
    rw [find?, if_neg (by simp), ne_eq, List.lookup_eq_none_iff]
    push Not
    refine exists_congr fun e => and_congr_right fun _ => ?_
    rw [ne_eq, bne_iff_ne, ne_eq, not_not, eq_comm]
  rw [hfind, namesAt, List.mem_eraseDups, List.mem_filterMap]
  refine exists_congr fun there => and_congr_right fun _ => ?_
  obtain ⟨q, e⟩ := there
  dsimp only
  constructor
  · intro h
    split at h
    · rename_i hbelow
      obtain ⟨hlength, rest, rfl⟩ : q.length = place.length + 1 ∧ place <+: q := by
        simpa using hbelow
      rw [List.length_append, Nat.add_left_cancel_iff] at hlength
      obtain ⟨last, rfl⟩ := List.length_eq_one_iff.mp hlength
      rw [List.getLast?_concat] at h
      rw [Option.some.inj h]
    · cases h
  · rintro rfl
    simp

/-- **What is listed in a directory** is what is at the places in it. -/
theorem mem_names : name ∈ fs.names path ↔
    fs.look path = .ok (Path.place path, .directory) ∧
      fs.find? (Path.place path ++ [name]) ≠ none := by
  rw [names]
  split
  · rename_i place hlook
    obtain rfl := place_of_look hlook
    simp [hlook, mem_namesAt]
  · rename_i hlook
    constructor
    · intro h
      cases h
    · rintro ⟨hlook', -⟩
      exact absurd hlook' (hlook _)

/-! ### Looking at two states -/

/-- **What a path leads to that does not go up** is what is at its place: a state in which it leads
to the same is one in which the same is at that place. -/
theorem IsTree.look_congr (htree : fs.IsTree) (hup : .up ∉ Path.steps path)
    (hlook : fs'.look path = .ok (place, entry)) (hentry : fs.find? place = some entry) :
    fs.look path = .ok (place, entry) := by
  obtain ⟨t, ht, hafter, hslash⟩ := look_eq_ok_iff.mp hlook
  have hplace := (after_eq_ok hafter).1
  have hdir : fs.find? t.dir = some .directory := by
    cases hlast : t.last with
    | stay =>
      rw [hlast] at hafter
      cases hafter
      exact hentry
    | up =>
      have hmem : t.last ∈ Path.steps path := by
        have hend := (target_eq_ok ht).2.1
        cases hsteps : Path.steps path with
        | nil =>
          rw [hsteps, hlast] at hend
          cases hend
        | cons step steps =>
          rw [hend, hsteps, List.getLastD_cons]
          exact List.getLastD_mem_cons
      exact absurd (hlast ▸ hmem) hup
    | enter name =>
      rw [hlast] at hplace
      have hparent := htree place (fun hnone => by rw [hnone] at hentry; cases hentry)
      rwa [hplace, Path.Step.from, List.dropLast_concat] at hparent
  have hfollow := follow_of_directories (fun hmem => hup (List.dropLast_subset _ hmem))
    (follow_of_target ht) fun p hp => htree.directory hdir hp
  exact look_eq_ok_iff.mpr ⟨t, target_of_follow ht hfollow, after_congr hafter hentry, hslash⟩

end Files

end Upkeep
