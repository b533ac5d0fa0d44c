import Mathlib.Data.List.Induction
import Upkeep.Proofs.Files.Absence

/-!
# Trees

In a tree whatever is there is in a directory that is there. The root alone is one, and every change
keeps it one, so it is what there is after any changes.

In a tree the place that a path names decides what the path leads to, with one exception. A path
that goes up has to come to a directory first, and that can be missing although what it would lead
to is there. So a path is *grounded* if it only goes up from directories that are there. Then it
leads to what is at its place, and it goes on doing so whatever directories are created.

## Main definitions

* `Files.IsTree`: whatever is there is in a directory.
* `Files.Grounded`: a path that only goes up from directories that are there.
* `Files.found?`: what a path leads to.

## Main results

* `Files.IsTree.perform`: changes keep a tree.
* `Files.found?_congr`: when a grounded path leads to what it led to.
-/

namespace Upkeep

/-! ### Steps that do not go up -/

namespace Path

variable {start : Place} {steps : List Step}

/-- Steps that do not go up lead further down. -/
theorem prefix_walk (h : .up ∉ steps) : start <+: walk start steps := by
  induction steps generalizing start with
  | nil => exact List.prefix_refl start
  | cons step steps ih =>
    have hstep : start <+: step.from start := by
      cases step with
      | stay => exact List.prefix_refl start
      | up => exact absurd List.mem_cons_self h
      | enter name => exact List.prefix_append start [name]
    exact hstep.trans (ih fun hup => h (List.mem_cons_of_mem _ hup))

/-- They lead to another place if they go anywhere. -/
theorem walk_ne (h : .up ∉ steps) (hgo : ∃ step ∈ steps, step ≠ .stay) :
    walk start steps ≠ start := by
  induction steps generalizing start with
  | nil =>
    obtain ⟨step, hstep, -⟩ := hgo
    cases hstep
  | cons step steps ih =>
    have hrest : .up ∉ steps := fun hup => h (List.mem_cons_of_mem _ hup)
    cases step with
    | stay =>
      obtain ⟨step, hstep, hne⟩ := hgo
      rcases List.mem_cons.mp hstep with rfl | hstep
      · exact absurd rfl hne
      · exact ih hrest ⟨step, hstep, hne⟩
    | up => exact absurd List.mem_cons_self h
    | enter name =>
      have hlength : (start ++ [name]).length ≤ (walk (start ++ [name]) steps).length :=
        (prefix_walk hrest).length_le
      intro heq
      rw [walk_cons, Step.from] at heq
      rw [heq, List.length_append, List.length_singleton] at hlength
      exact Nat.lt_irrefl _ hlength

end Path

namespace Files

variable {fs fs' : Files} {path : String} {place dir dir' p : Place} {entry : FileEntry}
  {steps steps' : List Path.Step} {t : Target} {content : ByteArray}

/-! ### Following steps in two parts -/

theorem follow_append :
    fs.follow dir (steps ++ steps') = .ok dir' ↔
      ∃ mid, fs.follow dir steps = .ok mid ∧ fs.follow mid steps' = .ok dir' := by
  induction steps generalizing dir with
  | nil =>
    constructor
    · intro h
      exact ⟨dir, rfl, h⟩
    · rintro ⟨mid, hmid, h⟩
      cases hmid
      exact h
  | cons step steps ih =>
    rw [List.cons_append, follow, follow]
    cases fs.after dir step with
    | error cause => simp
    | ok found =>
      obtain ⟨place, entry⟩ := found
      cases entry with
      | none => simp
      | some entry =>
        cases entry with
        | directory => exact ih
        | file identity content modified => simp

/-- Steps that lead somewhere elsewhere lead there here too, if they do not go up and the
directories on the way are here. -/
theorem follow_of_directories (hup : .up ∉ steps) (h : fs'.follow dir steps = .ok dir')
    (hdirs : ∀ p, p <+: dir' → fs.find? p = some .directory) : fs.follow dir steps = .ok dir' := by
  induction steps generalizing dir with
  | nil => exact h
  | cons step steps ih =>
    have hrest : .up ∉ steps := fun hmem => hup (List.mem_cons_of_mem _ hmem)
    have hwalk := follow_eq_ok h
    rw [follow] at h ⊢
    cases step with
    | stay => exact ih hrest h
    | up => exact absurd List.mem_cons_self hup
    | enter name =>
      rw [after] at h ⊢
      by_cases hlong : longestName < name.utf8ByteSize
      · rw [if_pos hlong] at h
        cases h
      · rw [if_neg hlong] at h ⊢
        have hdir : fs.find? (dir ++ [name]) = some .directory := by
          refine hdirs _ ?_
          rw [hwalk, Path.walk_cons]
          exact Path.prefix_walk hrest
        rw [hdir]
        dsimp only at h ⊢
        split at h
        · cases h
        · cases h
        · cases h
        · rename_i place hafter
          obtain ⟨rfl, -⟩ := Prod.mk.inj (Except.ok.inj hafter)
          exact ih hrest h

/-! ### What a path leads to -/

/-- What a path leads to, and where that is. -/
def found? (fs : Files) (path : String) : Option (Place × FileEntry) := (fs.look path).toOption

theorem found?_eq_some :
    fs.found? path = some (place, entry) ↔ fs.look path = .ok (place, entry) := by
  rw [found?]
  cases fs.look path <;> simp [Except.toOption]

theorem look_eq_ok_iff : fs.look path = .ok (place, entry) ↔
    ∃ t, fs.target path = .ok t ∧ fs.after t.dir t.last = .ok (place, some entry) ∧
      (t.slash = true → entry = .directory) := by
  rw [look]
  cases fs.target path with
  | error cause => simp
  | ok t =>
    dsimp only
    cases hafter : fs.after t.dir t.last with
    | error cause => simp [hafter]
    | ok found =>
      obtain ⟨place', entry'⟩ := found
      cases entry' with
      | none => simp [hafter]
      | some entry' =>
        cases entry' with
        | directory =>
          simp [hafter]
          rintro rfl rfl
          simp
        | file identity content modified =>
          cases hslash : t.slash <;> simp [hafter, hslash]
          rintro rfl rfl
          simp

/-- A path leads to no file unless it names one. -/
theorem directory_of_look (h : fs.look path = .ok (place, entry))
    (hnamed : Path.file? path = none) : entry = .directory := by
  cases entry with
  | directory => rfl
  | file identity content modified =>
    have hread : fs.read path = .ok content := by rw [read, h]
    rw [(read_eq_ok hread).1] at hnamed
    cases hnamed

theorem follow_of_target (h : fs.target path = .ok t) :
    fs.follow [] (Path.steps path).dropLast = .ok t.dir := by
  rw [target] at h
  split at h
  · cases h
  · split at h
    · cases h
    · split at h
      · cases h
      · dsimp only at h
        split at h
        · cases h
        · rename_i dir hfollow
          cases h
          exact hfollow

/-- A path ends here as it ends elsewhere if the steps up to its end lead here to where they lead
there. -/
theorem target_of_follow (h : fs'.target path = .ok t)
    (hfollow : fs.follow [] (Path.steps path).dropLast = .ok t.dir) : fs.target path = .ok t := by
  rw [target] at h ⊢
  split at h
  · cases h
  · rename_i hnul
    split at h
    · cases h
    · rename_i hempty
      split at h
      · cases h
      · rename_i hshort
        rw [if_neg hnul, if_neg hempty, if_neg hshort]
        dsimp only at h ⊢
        rw [hfollow]
        split at h
        · cases h
        · cases h
          rfl

/-- Something is where a step leads to it elsewhere, if it is at that place. -/
theorem after_congr {step : Path.Step} (h : fs'.after dir step = .ok (place, some entry))
    (hplace : fs.find? place = some entry) : fs.after dir step = .ok (place, some entry) := by
  cases step with
  | stay => exact h
  | up => exact h
  | enter name =>
    rw [after] at h ⊢
    split at h
    · cases h
    · rename_i hshort
      obtain ⟨rfl, -⟩ := Prod.mk.inj (Except.ok.inj h)
      rw [if_neg hshort, hplace]

/-- A path ends at the place that it names. -/
theorem place_of_target (h : fs.target path = .ok t) : t.last.from t.dir = Path.place path := by
  obtain ⟨hdir, hlast, -⟩ := target_eq_ok h
  rw [hdir, hlast, Path.place]
  rcases List.eq_nil_or_concat (Path.steps path) with hnil | ⟨start, step, hsteps⟩
  · rw [hnil]
    rfl
  · rw [hsteps, List.concat_eq_append, List.dropLast_concat, List.getLastD_concat,
      Path.walk_append]
    rfl

/-- What a path leads to is at the place that it names. -/
theorem place_of_look (h : fs.look path = .ok (place, entry)) : place = Path.place path := by
  obtain ⟨t, ht, hafter, -⟩ := look_eq_ok_iff.mp h
  rw [← place_of_target ht]
  exact (after_eq_ok hafter).1

/-! ### Trees -/

/-- Whatever is there is in a directory. -/
def IsTree (fs : Files) : Prop := ∀ p, fs.find? p ≠ none → fs.find? p.dropLast = some .directory

theorem isTree_empty : empty.IsTree := by
  intro p hp
  by_cases hroot : p = []
  · subst hroot
    rfl
  · exact absurd (by simp [find?, empty, hroot]) hp

namespace IsTree

/-- What something is in is a directory. -/
theorem directory (h : fs.IsTree) {q : Place} (hp : fs.find? p = some .directory) (hq : q <+: p) :
    fs.find? q = some .directory := by
  obtain ⟨names, rfl⟩ := hq
  induction names using List.reverseRecOn with
  | nil => simpa using hp
  | append_singleton names name ih =>
    refine ih ?_
    have hdir := h _ (fun hnone => by rw [hp] at hnone; cases hnone)
    rwa [← List.append_assoc, List.dropLast_concat] at hdir

/-- Nothing is in what is no directory. -/
theorem put (h : fs.IsTree) (hne : place ≠ [])
    (hparent : fs.find? place.dropLast = some .directory)
    (hentry : fs.find? place ≠ some .directory ∨ entry = .directory) :
    (fs.put place entry).IsTree := by
  intro p hp
  by_cases hsame : p = place
  · subst hsame
    have hshort : p.dropLast ≠ p := by
      intro heq
      have hlength := congrArg List.length heq
      have hpos := List.length_pos_iff.mpr hne
      rw [List.length_dropLast] at hlength
      omega
    rw [find?_put_of_ne hshort, hparent]
  · rw [find?_put_of_ne hsame] at hp
    have hdir := h p hp
    by_cases hbelow : p.dropLast = place
    · rw [hbelow] at hdir ⊢
      rw [find?_put_self hne, hentry.resolve_left fun hne => hne hdir]
    · rw [find?_put_of_ne hbelow, hdir]

theorem drop (h : fs.IsTree) (hne : place ≠ []) (hentry : fs.find? place ≠ some .directory) :
    (fs.drop place).IsTree := by
  intro p hp
  have hsame : p ≠ place := by
    rintro rfl
    exact hp (find?_drop_self hne)
  rw [find?_drop_of_ne hsame] at hp
  have hdir := h p hp
  rw [find?_drop_of_ne ?_, hdir]
  rintro rfl
  exact hentry hdir

theorem follow (h : fs.IsTree) (hdir : fs.find? dir = some .directory)
    (hfollow : fs.follow dir steps = .ok dir') : fs.find? dir' = some .directory := by
  induction steps generalizing dir with
  | nil =>
    cases hfollow
    exact hdir
  | cons step steps ih =>
    rw [Files.follow] at hfollow
    split at hfollow
    · cases hfollow
    · cases hfollow
    · cases hfollow
    · rename_i place hafter
      refine ih ?_ hfollow
      cases step with
      | stay =>
        cases hafter
        exact hdir
      | up =>
        cases hafter
        exact h.directory hdir (List.dropLast_prefix dir)
      | enter name =>
        rcases (after_eq_ok hafter).2 with heq | heq
        · exact heq.symm
        · rw [after] at hafter
          split at hafter
          · cases hafter
          · obtain ⟨rfl, heq⟩ := Prod.mk.inj (Except.ok.inj hafter)
            exact heq

/-- A path ends in a directory. -/
theorem target (h : fs.IsTree) (ht : fs.target path = .ok t) :
    fs.find? t.dir = some .directory :=
  h.follow rfl (follow_of_target ht)

/-- What a path leads to is there. -/
theorem find?_of_look (h : fs.IsTree) (hlook : fs.look path = .ok (place, entry)) :
    fs.find? place = some entry := by
  obtain ⟨t, ht, hafter, -⟩ := look_eq_ok_iff.mp hlook
  have hdir := h.target ht
  cases hlast : t.last with
  | stay =>
    rw [hlast] at hafter
    cases hafter
    exact hdir
  | up =>
    rw [hlast] at hafter
    cases hafter
    exact h.directory hdir (List.dropLast_prefix t.dir)
  | enter name =>
    rw [hlast, after] at hafter
    split at hafter
    · cases hafter
    · obtain ⟨rfl, heq⟩ := Prod.mk.inj (Except.ok.inj hafter)
      exact heq

/-! ### Changes of trees -/

variable {old new : String} {time : Instant}

theorem lookForWriting {there : Option (Nat × ByteArray)} (h : fs.IsTree)
    (hlook : fs.lookForWriting path = .ok (place, there)) :
    place ≠ [] ∧ fs.find? place.dropLast = some .directory ∧
      fs.find? place ≠ some .directory := by
  refine ⟨Path.file?_ne_nil (lookForWriting_eq_ok hlook).1, ?_, find?_ne_directory hlook⟩
  obtain ⟨dir, name, htarget, -, rfl, -⟩ := lookForWriting_eq_ok_iff.mp hlook
  rw [List.dropLast_concat]
  exact h.target htarget

theorem makeDir (h : fs.IsTree) (hmake : fs.makeDir path = .ok fs') : fs'.IsTree := by
  rw [Files.makeDir] at hmake
  split at hmake
  · cases hmake
  · split at hmake
    · cases hmake
    · cases hmake
    · rename_i dir name slash htarget _ place hafter
      cases hmake
      obtain ⟨rfl, -⟩ := after_eq_ok hafter
      refine h.put (by simp [Path.Step.from]) ?_ (Or.inr rfl)
      rw [Path.Step.from, List.dropLast_concat]
      exact h.target htarget
  · cases hmake

theorem createFirst (h : fs.IsTree) (paths : List String) : (fs.createFirst paths).1.IsTree := by
  induction paths with
  | nil => exact h
  | cons path above ih =>
    rw [Files.createFirst]
    split
    · rename_i fs' hmake
      exact h.makeDir hmake
    · split
      · rename_i fs' cause hfirst
        rw [hfirst] at ih
        exact ih
      · rename_i fs' hfirst
        rw [hfirst] at ih
        split
        · rename_i fs'' hmake
          exact ih.makeDir hmake
        · exact ih
    · exact h

theorem createDirs (h : fs.IsTree) (path : String) : (fs.createDirs path).1.IsTree := by
  rw [Files.createDirs]
  split
  · exact h
  · exact h.createFirst _

theorem create (h : fs.IsTree) (hcreate : fs.create path = .ok fs') : fs'.IsTree := by
  rw [Files.create] at hcreate
  split at hcreate
  · cases hcreate
  · rename_i place identity content hlook
    cases hcreate
    obtain ⟨hne, hparent, hentry⟩ := h.lookForWriting hlook
    exact h.put hne hparent (Or.inl hentry)
  · rename_i place hlook
    cases hcreate
    obtain ⟨hne, hparent, hentry⟩ := h.lookForWriting hlook
    exact h.put hne hparent (Or.inl hentry)

theorem append (h : fs.IsTree) (happend : fs.append path content = .ok fs') : fs'.IsTree := by
  rw [Files.append] at happend
  split at happend
  · cases happend
  · rename_i place identity start hlook
    cases happend
    obtain ⟨hne, hparent, hentry⟩ := h.lookForWriting hlook
    exact h.put hne hparent (Or.inl hentry)
  · cases happend

theorem rename (h : fs.IsTree) (hrename : fs.rename old new = .ok fs') : fs'.IsTree := by
  obtain ⟨oldDir, oldName, newDir, newName, identity, moved, modified, -, hnew, -, hfile, hthere,
    rfl⟩ := exists_of_rename hrename
  have hold : fs.find? (oldDir ++ [oldName]) ≠ some .directory := by simp [hfile]
  have hparent : fs.find? (newDir ++ [newName]).dropLast = some .directory := by
    rw [List.dropLast_concat]
    exact h.target hnew
  refine (h.drop (by simp) hold).put (by simp) (directories_drop hold _ hparent) (Or.inl ?_)
  by_cases hsame : newDir ++ [newName] = oldDir ++ [oldName]
  · rw [hsame, find?_drop_self (by simp)]
    simp
  · rwa [find?_drop_of_ne hsame]

theorem remove (h : fs.IsTree) (hremove : fs.remove path = .ok fs') : fs'.IsTree := by
  obtain ⟨place, identity, content, hlook, rfl⟩ := remove_eq_ok hremove
  obtain ⟨hne, -, hentry⟩ := h.lookForWriting hlook
  exact h.drop hne hentry

theorem copy (h : fs.IsTree) (hcopy : fs.copy old new = .ok fs') : fs'.IsTree := by
  rw [Files.copy] at hcopy
  split at hcopy
  · cases hcopy
  · cases hcopy
  · split at hcopy
    · cases hcopy
    · rename_i fs₁ hcreate
      split at hcopy
      · cases hcopy
      · exact (h.create hcreate).append hcopy

theorem touch (h : fs.IsTree) (htouch : fs.touch path time = .ok fs') : fs'.IsTree := by
  rw [Files.touch] at htouch
  split at htouch
  · cases htouch
  · cases htouch
  · rename_i place identity content modified hlook
    cases htouch
    have hread : fs.read path = .ok content := by rw [Files.read, hlook]
    obtain ⟨identity', hwrite⟩ := lookForWriting_of_read hread
    obtain ⟨hne, hparent, hentry⟩ := h.lookForWriting hwrite
    obtain rfl := place_of_look hlook
    exact h.put hne hparent (Or.inl hentry)

theorem apply (h : fs.IsTree) (step : Step) : (fs.apply step).1.IsTree := by
  have hsettle : ∀ {result : Except IoCause Files}, (∀ fs', result = .ok fs' → fs'.IsTree) →
      (fs.settle result).1.IsTree := by
    intro result hresult
    cases result with
    | error cause => exact h
    | ok fs' => exact hresult fs' rfl
  cases step with
  | createDirs path => exact h.createDirs path
  | create path => exact hsettle fun fs' => h.create
  | append path content => exact hsettle fun fs' => h.append
  | rename old new => exact hsettle fun fs' => h.rename
  | remove path => exact hsettle fun fs' => h.remove
  | touch path time => exact hsettle fun fs' => h.touch
  | copy old new => exact hsettle fun fs' => h.copy

/-- **Changes keep a tree.** -/
theorem perform (h : fs.IsTree) (steps : List Step) : (fs.perform steps).1.IsTree := by
  induction steps generalizing fs with
  | nil => exact h
  | cons step steps ih =>
    have hstep := h.apply step
    rw [Files.perform]
    split
    · rename_i fs' cause happly
      rw [happly] at hstep
      exact hstep
    · rename_i fs' happly
      rw [happly] at hstep
      exact ih hstep

end IsTree

/-! ### Paths that are grounded -/

/-- A path only goes up from directories that are there. -/
def Grounded (fs : Files) (path : String) : Prop :=
  ∃ start rest dir, Path.steps path = start ++ rest ∧ fs.follow [] start = .ok dir ∧ .up ∉ rest

/-- A path that does not go up is grounded. -/
theorem grounded_of_not_mem (h : .up ∉ Path.steps path) : fs.Grounded path :=
  ⟨[], Path.steps path, [], rfl, rfl, h⟩

/-- A path all of whose directories are there is grounded. -/
theorem grounded_of_target (h : fs.target path = .ok t) : fs.Grounded path := by
  have hfollow := follow_of_target h
  rcases List.eq_nil_or_concat (Path.steps path) with hnil | ⟨start, step, hsteps⟩
  · exact ⟨[], [], [], hnil, rfl, List.not_mem_nil⟩
  · rw [List.concat_eq_append] at hsteps
    rw [hsteps, List.dropLast_concat] at hfollow
    by_cases hup : step = .up
    · subst hup
      exact ⟨start ++ [.up], [], t.dir.dropLast, by rw [hsteps, List.append_nil],
        follow_append.mpr ⟨t.dir, hfollow, rfl⟩, List.not_mem_nil⟩
    · exact ⟨start, [step], t.dir, hsteps, hfollow, by simpa using Ne.symm hup⟩

namespace Grounded

/-- A path stays grounded while directories stay. -/
theorem congr (h : fs.Grounded path)
    (hdirs : ∀ p, fs.find? p = some .directory → fs'.find? p = some .directory) :
    fs'.Grounded path := by
  obtain ⟨start, rest, dir, hsteps, hstart, hup⟩ := h
  exact ⟨start, rest, dir, hsteps, follow_congr hdirs hstart, hup⟩

/-- A grounded path ends where it would end if there were more directories, if it ends in a
directory that is there. If its last step goes up, it has to be there. -/
theorem target (h : fs.Grounded path) (htree : fs.IsTree)
    (hdirs : ∀ p, fs.find? p = some .directory → fs'.find? p = some .directory)
    (ht : fs'.target path = .ok t) (hdir : t.last ≠ .up → fs.find? t.dir = some .directory) :
    fs.target path = .ok t := by
  have hfollow := follow_of_target ht
  refine target_of_follow ht ?_
  obtain ⟨start, rest, dir, hsteps, hstart, hup⟩ := h
  rcases List.eq_nil_or_concat rest with rfl | ⟨rest, step, rfl⟩
  · -- all steps lead somewhere, so all but the last do
    rw [List.append_nil] at hsteps
    rw [hsteps] at hfollow ⊢
    rcases List.eq_nil_or_concat start with rfl | ⟨start, step, rfl⟩
    · exact hfollow
    · rw [List.concat_eq_append, List.dropLast_concat] at hfollow ⊢
      rw [List.concat_eq_append] at hstart
      obtain ⟨mid, hmid, -⟩ := follow_append.mp hstart
      rw [hmid, follow_eq_ok hmid, follow_eq_ok hfollow]
  · have hlast : t.last = step := by
      rw [(target_eq_ok ht).2.1, hsteps, List.concat_eq_append, ← List.append_assoc,
        List.getLastD_concat]
    rw [List.concat_eq_append] at hup
    have hstep : t.last ≠ .up := by
      rintro heq
      exact hup (by simp [← hlast, heq])
    rw [hsteps, List.concat_eq_append, ← List.append_assoc, List.dropLast_concat] at hfollow ⊢
    obtain ⟨mid, hmid, hrest⟩ := follow_append.mp hfollow
    obtain rfl : dir = mid := Except.ok.inj ((follow_congr hdirs hstart).symm.trans hmid)
    exact follow_append.mpr ⟨dir, hstart, follow_of_directories
      (fun hmem => hup (List.mem_append_left _ hmem)) hrest
      fun p hp => htree.directory (hdir hstep) hp⟩

end Grounded

/-- **A grounded path leads to what it led to** if that is at its place, and nothing else is. What
is no directory does not count if the path is not one of a file. -/
theorem found?_congr (htree : fs.IsTree) (htree' : fs'.IsTree) (hground : fs.Grounded path)
    (hdirs : ∀ p, fs.find? p = some .directory → fs'.find? p = some .directory)
    (hplace : ∀ entry, (Path.file? path = none → entry = .directory) →
      (fs'.find? (Path.place path) = some entry ↔ fs.find? (Path.place path) = some entry)) :
    fs'.found? path = fs.found? path := by
  refine Option.ext fun found => ?_
  obtain ⟨place, entry⟩ := found
  rw [found?_eq_some, found?_eq_some]
  constructor
  · intro hlook
    have hentry := (hplace entry (directory_of_look hlook)).mp
      (place_of_look hlook ▸ htree'.find?_of_look hlook)
    obtain ⟨t, ht, hafter, hslash⟩ := look_eq_ok_iff.mp hlook
    have hdir : t.last ≠ .up → fs.find? t.dir = some .directory := by
      intro hup
      have hend := place_of_target ht
      cases hlast : t.last with
      | stay =>
        rw [hlast] at hafter hend
        cases hafter
        rw [← hend] at hentry
        exact hentry
      | up => exact absurd hlast hup
      | enter name =>
        rw [hlast] at hend
        rw [← hend] at hentry
        have hparent := htree _ (fun hnone => by rw [hnone] at hentry; cases hentry)
        rwa [Path.Step.from, List.dropLast_concat] at hparent
    exact look_eq_ok_iff.mpr ⟨t, hground.target htree hdirs ht hdir,
      after_congr hafter (place_of_look hlook ▸ hentry), hslash⟩
  · intro hlook
    have hentry := (hplace entry (directory_of_look hlook)).mpr
      (place_of_look hlook ▸ htree.find?_of_look hlook)
    obtain ⟨t, ht, hafter, hslash⟩ := look_eq_ok_iff.mp hlook
    exact look_eq_ok_iff.mpr ⟨t, target_congr hdirs ht,
      after_congr hafter (place_of_look hlook ▸ hentry), hslash⟩

end Files

end Upkeep
