import Upkeep.Files

/-!
# Where paths lead

A path names a place before anything is looked up: each of its steps changes the place, whatever
is there. The tree only decides whether the path leads there or nowhere. So what an operation
does to a file can be said of the place that its path names, and two paths stay out of each
other's way when they name different places.

Reading needs more than the place, for every directory on the way has to be there. What keeps
the directories and the file's content keeps what is read (`read_congr`).

## Main definitions

* `Path.place`: the place that a path names.
* `Path.file?`: the same, for a path that names a file.
* `Files.fileAt?`, `Files.held?`: the content of a file, by its place and by its path.

## Main results

* `Files.read_eq_ok`: what is read is the content of the file that the path names.
* `Files.read_congr`: what keeps the directories and the file keeps what is read.
-/

namespace Upkeep

/-! ### Places of paths -/

namespace Path

/-- Where a step leads. -/
def Step.from (place : Place) : Step → Place
  | .stay => place
  | .up => place.dropLast
  | .enter name => place ++ [name]

/-- Where steps lead, one after the other. -/
def walk (start : Place) (steps : List Step) : Place := steps.foldl Step.from start

@[simp] theorem walk_nil (start : Place) : walk start [] = start := rfl

@[simp] theorem walk_cons (start : Place) (step : Step) (steps : List Step) :
    walk start (step :: steps) = walk (step.from start) steps := rfl

theorem walk_append (start : Place) (steps steps' : List Step) :
    walk start (steps ++ steps') = walk (walk start steps) steps' := by
  simp [walk]

/-- The place that a path names. -/
def place (path : String) : Place := walk [] (steps path)

/-- The place that a path names, if that can be a file's. -/
def file? (path : String) : Option Place :=
  match (steps path).getLast? with
  | some (.enter _) => if endsInSlash path then none else some (place path)
  | _ => none

theorem file?_eq_some {path : String} {p : Place} :
    file? path = some p ↔ endsInSlash path = false ∧ p = place path ∧
      ∃ name, (steps path).getLast? = some (.enter name) := by
  rw [file?]
  split
  · rename_i name hlast
    cases endsInSlash path <;> simp [hlast, eq_comm]
  · rename_i hlast
    constructor
    · intro h
      cases h
    · rintro ⟨-, -, name, hname⟩
      exact absurd hname (hlast name)

/-- A file has a name. -/
theorem place_eq_of_getLast? {path name : String}
    (hlast : (steps path).getLast? = some (.enter name)) :
    place path = walk [] (steps path).dropLast ++ [name] := by
  obtain ⟨start, hsteps⟩ := List.getLast?_eq_some_iff.mp hlast
  rw [place, hsteps, walk_append, List.dropLast_concat]
  rfl

theorem file?_ne_nil {path : String} {p : Place} (h : file? path = some p) : p ≠ [] := by
  obtain ⟨-, rfl, name, hlast⟩ := file?_eq_some.mp h
  rw [place_eq_of_getLast? hlast]
  simp

end Path

/-! ### What is at a place -/

namespace Files

/-- The content of the file at a place. -/
def fileAt? (fs : Files) (place : Place) : Option ByteArray :=
  match fs.find? place with
  | some (.file _ content _) => some content
  | _ => none

/-- The content of the file that a path names. -/
def held? (fs : Files) (path : String) : Option ByteArray := (Path.file? path).bind fs.fileAt?

variable {fs fs' : Files} {place p : Place} {entry : FileEntry}

theorem fileAt?_eq_some {content : ByteArray} :
    fs.fileAt? place = some content ↔
      ∃ identity modified, fs.find? place = some (.file identity content modified) := by
  rw [fileAt?]
  split
  · rename_i identity content' modified h
    simp [h]
  · rename_i h
    constructor
    · intro hnone
      cases hnone
    · rintro ⟨identity, modified, hsome⟩
      exact absurd hsome (h identity content modified)

theorem fileAt?_congr (h : fs'.find? place = fs.find? place) :
    fs'.fileAt? place = fs.fileAt? place := by
  rw [fileAt?, fileAt?, h]

theorem lookup_filter_ne {entries : List (Place × FileEntry)} (h : p ≠ place) :
    (entries.filter fun e => e.1 != place).lookup p = entries.lookup p := by
  induction entries with
  | nil => rfl
  | cons e entries ih =>
    obtain ⟨p', e⟩ := e
    by_cases hp : p' = place
    · subst hp
      have hne : (p == p') = false := by simpa using h
      rw [List.filter_cons_of_neg (by simp), ih, List.lookup_cons, hne]
    · rw [List.filter_cons_of_pos (by simpa using hp), List.lookup_cons, List.lookup_cons, ih]

theorem find?_put_self (h : place ≠ []) : (fs.put place entry).find? place = some entry := by
  simp [find?, put, h]

theorem find?_put_of_ne (h : p ≠ place) : (fs.put place entry).find? p = fs.find? p := by
  rw [find?, find?]
  split
  · rfl
  · have hne : (p == place) = false := by simpa using h
    rw [put, List.lookup_cons, hne]
    exact lookup_filter_ne h

theorem find?_drop_self (h : place ≠ []) : (fs.drop place).find? place = none := by
  rw [find?, if_neg h, drop, List.lookup_eq_none_iff]
  intro e he
  have hne : e.1 ≠ place := by simpa using (List.mem_filter.mp he).2
  simpa using hne.symm

theorem find?_drop_of_ne (h : p ≠ place) : (fs.drop place).find? p = fs.find? p := by
  rw [find?, find?]
  split
  · rfl
  · exact lookup_filter_ne h

theorem find?_addFile_self {content : ByteArray} (h : place ≠ []) :
    (fs.addFile place content).find? place = some (.file fs.nextIdentity content none) :=
  find?_put_self h

theorem find?_addFile_of_ne {content : ByteArray} (h : p ≠ place) :
    (fs.addFile place content).find? p = fs.find? p :=
  find?_put_of_ne h

/-! ### Following a path -/

theorem after_eq_ok {dir place : Place} {step : Path.Step} {e : Option FileEntry}
    (h : fs.after dir step = .ok (place, e)) :
    place = step.from dir ∧ (e = fs.find? place ∨ e = some .directory) := by
  cases step with
  | stay =>
    cases h
    exact ⟨rfl, Or.inr rfl⟩
  | up =>
    cases h
    exact ⟨rfl, Or.inr rfl⟩
  | enter name =>
    rw [after] at h
    split at h
    · cases h
    · cases h
      exact ⟨rfl, Or.inl rfl⟩

/-- Steps that lead somewhere lead where they name. -/
theorem follow_eq_ok {dir dir' : Place} {steps : List Path.Step}
    (h : fs.follow dir steps = .ok dir') : dir' = Path.walk dir steps := by
  induction steps generalizing dir with
  | nil =>
    cases h
    rfl
  | cons step steps ih =>
    rw [follow] at h
    split at h
    · cases h
    · cases h
    · cases h
    · rename_i place hafter
      rw [ih h, (after_eq_ok hafter).1, Path.walk_cons]

/-- Where directories stay, steps lead where they led. -/
theorem follow_congr (hdirs : ∀ p, fs.find? p = some .directory → fs'.find? p = some .directory)
    {dir dir' : Place} {steps : List Path.Step} (h : fs.follow dir steps = .ok dir') :
    fs'.follow dir steps = .ok dir' := by
  induction steps generalizing dir with
  | nil => exact h
  | cons step steps ih =>
    rw [follow] at h ⊢
    cases step with
    | stay => exact ih h
    | up => exact ih h
    | enter name =>
      rw [after] at h ⊢
      split at h
      · cases h
      · cases h
      · cases h
      · rename_i place hafter
        split at hafter
        · cases hafter
        · rename_i hshort
          have hdir : fs.find? (dir ++ [name]) = some .directory := by
            simp only [Except.ok.injEq, Prod.mk.injEq] at hafter
            exact hafter.2
          obtain rfl : place = dir ++ [name] := by
            simp only [Except.ok.injEq, Prod.mk.injEq] at hafter
            exact hafter.1.symm
          rw [if_neg hshort, hdirs _ hdir]
          exact ih h

theorem target_eq_ok {path : String} {t : Target} (h : fs.target path = .ok t) :
    t.dir = Path.walk [] (Path.steps path).dropLast ∧
      t.last = (Path.steps path).getLastD .stay ∧ t.slash = Path.endsInSlash path := by
  rw [target] at h
  split at h
  · cases h
  · split at h
    · cases h
    · split at h
      · cases h
      · dsimp only at h
        split at h
        · cases h
        · rename_i dir hfollow
          cases h
          exact ⟨follow_eq_ok hfollow, rfl, rfl⟩

/-- A path whose end is entered names the place that is entered. -/
theorem file?_of_target {path name : String} {dir : Place} {slash : Bool}
    (h : fs.target path = .ok ⟨dir, .enter name, slash⟩) :
    Path.place path = dir ++ [name] ∧
      Path.file? path = if slash then none else some (dir ++ [name]) := by
  obtain ⟨hdir, hlast, hslash⟩ := target_eq_ok h
  have hlast : (Path.steps path).getLast? = some (.enter name) := by
    rw [List.getLastD_eq_getLast?] at hlast
    cases hsteps : (Path.steps path).getLast? with
    | none =>
      rw [hsteps] at hlast
      cases hlast
    | some step =>
      rw [hsteps] at hlast
      exact congrArg some hlast.symm
  have hplace : Path.place path = dir ++ [name] := by
    rw [Path.place_eq_of_getLast? hlast]
    exact congrArg (· ++ [name]) hdir.symm
  refine ⟨hplace, ?_⟩
  rw [Path.file?, hlast]
  dsimp only at hslash ⊢
  rw [← hslash, hplace]

theorem target_congr (hdirs : ∀ p, fs.find? p = some .directory → fs'.find? p = some .directory)
    {path : String} {t : Target} (h : fs.target path = .ok t) : fs'.target path = .ok t := by
  rw [target] at h ⊢
  split at h
  · cases h
  · rename_i hnul
    split at h
    · cases h
    · rename_i hempty
      split at h
      · cases h
      · rename_i hshort
        rw [if_neg hnul, if_neg hempty, if_neg hshort]
        dsimp only at h ⊢
        split at h
        · cases h
        · rename_i dir hfollow
          rw [follow_congr hdirs hfollow]
          exact h

/-- What it takes to read a file. -/
theorem read_eq_ok_iff {path : String} {content : ByteArray} :
    fs.read path = .ok content ↔ ∃ dir name, fs.target path = .ok ⟨dir, .enter name, false⟩ ∧
      name.utf8ByteSize ≤ longestName ∧ fs.fileAt? (dir ++ [name]) = some content := by
  constructor
  · intro h
    rw [read, look] at h
    cases htarget : fs.target path with
    | error cause =>
      rw [htarget] at h
      cases h
    | ok t =>
      rw [htarget] at h
      obtain ⟨dir, last, slash⟩ := t
      cases last with
      | stay => cases h
      | up => cases h
      | enter name =>
        dsimp only [after] at h
        by_cases hlong : longestName < name.utf8ByteSize
        · rw [if_pos hlong] at h
          cases h
        · rw [if_neg hlong] at h
          cases hentry : fs.find? (dir ++ [name]) with
          | none =>
            rw [hentry] at h
            cases h
          | some entry =>
            rw [hentry] at h
            cases entry with
            | directory => cases h
            | file identity content' modified =>
              cases slash with
              | true => cases h
              | false =>
                cases h
                exact ⟨dir, name, rfl, Nat.le_of_not_lt hlong,
                  fileAt?_eq_some.mpr ⟨identity, modified, hentry⟩⟩
  · rintro ⟨dir, name, htarget, hshort, hfile⟩
    obtain ⟨identity, modified, hentry⟩ := fileAt?_eq_some.mp hfile
    rw [read, look, htarget]
    dsimp only [after]
    rw [if_neg (Nat.not_lt.mpr hshort), hentry]

/-- What is read is the content of the file that the path names. -/
theorem read_eq_ok {path : String} {content : ByteArray} (h : fs.read path = .ok content) :
    Path.file? path = some (Path.place path) ∧ fs.fileAt? (Path.place path) = some content := by
  obtain ⟨dir, name, htarget, -, hfile⟩ := read_eq_ok_iff.mp h
  obtain ⟨hplace, hnamed⟩ := file?_of_target htarget
  rw [hplace]
  exact ⟨hnamed, hfile⟩

/-- **What keeps the directories keeps what can be read**: the content of the file that the path
names. -/
theorem read_congr (hdirs : ∀ p, fs.find? p = some .directory → fs'.find? p = some .directory)
    {path : String} {content content' : ByteArray} (h : fs.read path = .ok content)
    (hfile : fs'.fileAt? (Path.place path) = some content') : fs'.read path = .ok content' := by
  obtain ⟨dir, name, htarget, hshort, -⟩ := read_eq_ok_iff.mp h
  rw [(file?_of_target htarget).1] at hfile
  exact read_eq_ok_iff.mpr ⟨dir, name, target_congr hdirs htarget, hshort, hfile⟩

end Files

end Upkeep
