import Upkeep.Proofs.Files.Ancestors

/-!
# Publications that are interrupted

A publication can be refused at any step, and the machine can stop between any two of them: while
directories are created, or after some pieces of the content. Until the file takes its place there
are two things that can have happened (`Prepared`). Directories were created, of those that the path
is in; and the temporary sibling holds something. The first concerns a path only if it goes up from
a directory that was missing, and the second only if the file is its own sibling. That is the case
when the file has the extension of temporary files.

A file that is its own sibling is emptied before it is written. Then nothing can be refused any
more, but an interruption leaves a part of the content.

## Main definitions

* `Path.extension`.
* `Files.Interrupted`: what an interruption leaves.
* `Files.Prepared`, `Files.Replaced`: what was done before and after the file took its place.

## Main results

* `Files.perform_piecemeal`: how far a publication comes.
* `Files.Prepared.found?`: before the file takes its place its path leads to what it led to.
-/

namespace Upkeep

/-! ### Paths -/

namespace Path

variable {path name : String} {place : Place}

/-! ### Extensions -/

/-- The extension of a name: what stands after its last dot, unless only a leading dot is there. -/
def extensionOf (name : String) : Option String :=
  match Text.cutLast '.' name.toList with
  | some ([], _) | none => none
  | some (_, extension) => some (String.ofList extension)

/-- The extension of a path is that of its last name. -/
def extension (path : String) : Option String :=
  match reversed path with
  | [] => none
  | name :: _ => if name == ".." then none else extensionOf name

/-- A name that another extension does not change has it already. -/
theorem extensionOf_of_withExtension {extension : String}
    (h : withExtension extension name = name) : extensionOf name = some extension := by
  have hlonger : name ++ "." ++ extension ≠ name := by
    intro heq
    have hlength := congrArg (fun s => s.toList.length) heq
    simp only [String.toList_append, List.length_append] at hlength
    have hdot : ".".toList.length = 1 := rfl
    omega
  rw [withExtension, stem] at h
  split at h
  · exact absurd h hlonger
  · exact absurd h hlonger
  · rename_i start after hstart hcut
    have hname := Text.eq_append_of_cutLast hcut
    rw [← String.toList_inj, hname] at h
    simp only [String.toList_append, String.toList_ofList, List.append_assoc] at h
    obtain ⟨-, hafter⟩ := List.cons.inj (List.append_cancel_left h)
    have hafter : extension.toList = after := hafter
    rw [extensionOf, hcut, ← hafter]
    cases start with
    | nil => exact absurd rfl hstart
    | cons c start => exact congrArg some String.ofList_toList

/-- **A file with another extension has its temporary sibling at another place.** -/
theorem temporary_of_extension (h : file? path = some place)
    (hother : extension path ≠ some "tmp") : temporary path ≠ path := by
  intro hself
  obtain ⟨start, name, hsegments, hname, rfl⟩ := segments_of_file? h
  obtain ⟨hreversed, htemporary⟩ := segments_temporary hsegments hname
  obtain ⟨-, -, -, hdots⟩ := stepOf?_eq_enter.mp hname
  rw [hself, hsegments] at htemporary
  refine hother ?_
  rw [extension, hreversed]
  dsimp only
  rw [if_neg (by simpa using hdots)]
  exact extensionOf_of_withExtension (by simpa using htemporary.symm)

end Path

namespace Files

variable {fs fs' : Files} {path : String} {place sibling : Place} {content : ByteArray}
  {pieces : List ByteArray}

/-! ### Writing in pieces -/

/-- The steps of a publication whose content is written piece by piece. -/
def piecemeal (path : String) (pieces : List ByteArray) : List Step :=
  .createDirs (Path.parent path) :: .create (Path.temporary path) ::
    (pieces.map (.append (Path.temporary path)) ++ [.rename (Path.temporary path) path])

/-- A publication writes one piece. -/
theorem publication_eq (path : String) (content : ByteArray) :
    publication path content = piecemeal path [content] := rfl

/-- Pieces are put together. -/
def assemble (pieces : List ByteArray) : ByteArray := pieces.foldl (· ++ ·) .empty

/-- What an interruption of a publication leaves: some of the directories that are created, or what
some of the first steps leave, in whichever pieces the content is written. -/
inductive Interrupted (fs : Files) (path : String) (content : ByteArray) : Files → Prop
  /-- Not all directories were created. -/
  | creating {above : List String} (suffix : above <:+ Path.ancestors path) :
      Interrupted fs path content (fs.createFirst above).1
  /-- All of them were, or none yet. -/
  | changing {pieces : List ByteArray} (whole : assemble pieces = content) (n : Nat) :
      Interrupted fs path content (fs.perform ((piecemeal path pieces).take n)).1

/-- What was done before a file takes its place. -/
inductive Prepared (fs : Files) (path : String) (fs' : Files) : Prop
  /-- Directories were created. -/
  | growing (grows : fs.GrowsAt ((Path.ancestors path).map Path.place) fs')
  /-- The temporary sibling was written. -/
  | writing {fs₁ : Files} {sibling : Place} {start : ByteArray}
      (grows : fs.GrowsAt ((Path.ancestors path).map Path.place) fs₁)
      (named : Path.file? (Path.temporary path) = some sibling)
      (free : fs₁.find? sibling ≠ some .directory)
      (written : fs'.fileAt? sibling = some start)
      (others : ∀ p, p ≠ sibling → fs'.find? p = fs₁.find? p)

/-- What was done when a file has taken its place. -/
structure Replaced (fs : Files) (path : String) (content : ByteArray) (fs' : Files) : Prop where
  /-- The file is read. -/
  read : fs'.read path = .ok content
  /-- The temporary sibling is gone, unless the file is its own. -/
  gone : Path.temporary path ≠ path → fs'.find? (Path.place (Path.temporary path)) = none
  /-- Apart from these, directories were created. -/
  others : ∀ p, p ≠ Path.place (Path.temporary path) → p ≠ Path.place path →
    fs'.find? p = fs.find? p ∨ p ∈ (Path.ancestors path).map Path.place ∧
      fs.find? p = none ∧ fs'.find? p = some .directory

theorem perform_append (fs : Files) (steps steps' : List Step) :
    fs.perform (steps ++ steps') =
      if (fs.perform steps).2 = none then (fs.perform steps).1.perform steps'
      else fs.perform steps := by
  induction steps generalizing fs with
  | nil => rfl
  | cons step steps ih =>
    rw [List.cons_append, perform, perform]
    split
    · rfl
    · exact ih _

/-- Nothing is refused while pieces are written. -/
theorem perform_appends {identity : Nat} {start : ByteArray}
    (h : fs.lookForWriting path = .ok (place, some (identity, start))) (pieces : List ByteArray) :
    ∃ fs', fs.perform (pieces.map (.append path)) = (fs', none) ∧
      fs'.lookForWriting path = .ok (place, some (identity, pieces.foldl (· ++ ·) start)) ∧
        ∀ p, p ≠ place → fs'.find? p = fs.find? p := by
  induction pieces generalizing fs start with
  | nil => exact ⟨fs, rfl, h, fun p _ => rfl⟩
  | cons piece pieces ih =>
    obtain ⟨fs₁, happend, hlook⟩ := append_again h piece
    obtain ⟨fs', hperform, hlook', hothers⟩ := ih hlook
    refine ⟨fs', ?_, hlook', fun p hp => ?_⟩
    · rw [List.map_cons, perform, apply, happend]
      exact hperform
    · obtain ⟨place', -, hnamed, -, -, hother⟩ := append_eq_ok happend
      obtain rfl : place = place' :=
        Option.some.inj ((lookForWriting_eq_ok h).1.symm.trans hnamed)
      rw [hothers p hp, hother p hp]

/-- The file takes its place. -/
theorem replaced_of_rename {fs₁ fs₃ : Files} {identity : Nat}
    (grows : fs.GrowsAt ((Path.ancestors path).map Path.place) fs₁)
    (hlook : fs₃.lookForWriting (Path.temporary path) = .ok (place, some (identity, content)))
    (hothers : ∀ p, p ≠ place → fs₃.find? p = fs₁.find? p)
    (hrename : fs₃.rename (Path.temporary path) path = .ok fs') :
    Replaced fs path content fs' := by
  obtain ⟨hnamed, hcontent⟩ := lookForWriting_eq_ok hlook
  obtain rfl := (place_of_lookForWriting hlook).symm
  refine ⟨(keeps_rename hrename).2 content hcontent, fun hne => ?_, fun p hold hnew => ?_⟩
  · obtain ⟨oldDir, oldName, newDir, newName, identity, moved, modified, hold, hnew, -, -, -,
      rfl⟩ := exists_of_rename hrename
    obtain ⟨sibling, hsibling, hapart⟩ :=
      (Path.temporary_apart (file?_of_target hnew).2).resolve_left hne
    obtain rfl := Option.some.inj (hnamed.symm.trans hsibling)
    rw [find?_put_of_ne hapart, ← (file?_of_target hold).1,
      find?_drop_self (Path.file?_ne_nil hnamed)]
  · obtain ⟨oldPlace, newPlace, -, holdNamed, hnewNamed, -, -, hother⟩ := rename_eq_ok hrename
    obtain rfl := Option.some.inj (hnamed.symm.trans holdNamed)
    obtain ⟨-, rfl, -⟩ := Path.file?_eq_some.mp hnewNamed
    rw [hother p hold hnew, hothers p hold]
    exact grows p

/-- How far a publication comes in some of its first steps. -/
inductive Progress (fs : Files) (path : String) (pieces : List ByteArray) (n : Nat) :
    Files × Option IoCause → Prop
  /-- There are more steps to come. -/
  | interrupted {fs' : Files} (early : n < (piecemeal path pieces).length)
      (prepared : Prepared fs path fs') : Progress fs path pieces n (fs', none)
  /-- A step was refused. If the file is its own sibling, that was before it was created. -/
  | refused {fs' : Files} {cause : IoCause} (prepared : Prepared fs path fs')
      (self : Path.temporary path = path →
        fs.GrowsAt ((Path.ancestors path).map Path.place) fs') :
      Progress fs path pieces n (fs', some cause)
  /-- The file has taken its place. -/
  | done {fs' : Files} (replaced : Replaced fs path (assemble pieces) fs') :
      Progress fs path pieces n (fs', none)

/-- How far it comes once the temporary sibling was created. -/
theorem perform_pieces {fs₁ fs₂ : Files}
    (grows : fs.GrowsAt ((Path.ancestors path).map Path.place) fs₁)
    (hcreate : fs₁.create (Path.temporary path) = .ok fs₂) (pieces : List ByteArray) (n : Nat) :
    Progress fs path pieces (n + 2) (fs₂.perform
      ((pieces.map (Step.append (Path.temporary path)) ++
        [Step.rename (Path.temporary path) path]).take n)) := by
  obtain ⟨place, there, hlook⟩ : ∃ place there,
      fs₁.lookForWriting (Path.temporary path) = .ok (place, there) := by
    cases hlook : fs₁.lookForWriting (Path.temporary path) with
    | error cause =>
      rw [create, hlook] at hcreate
      cases hcreate
    | ok found => exact ⟨found.1, found.2, rfl⟩
  obtain ⟨place', hnamed', -, hcreated⟩ := create_eq_ok hcreate
  have hnamed := (lookForWriting_eq_ok hlook).1
  obtain rfl : place = place' := Option.some.inj (hnamed.symm.trans hnamed')
  obtain ⟨identity, hlook₂⟩ := create_again hlook hcreate
  -- whichever pieces are written, nothing happens but to the temporary sibling
  have hwritten : ∀ pieces : List ByteArray, ∃ fs₃,
      fs₂.perform (pieces.map (.append (Path.temporary path))) = (fs₃, none) ∧
        fs₃.lookForWriting (Path.temporary path) =
          .ok (place, some (identity, assemble pieces)) ∧
        ∀ p, p ≠ place → fs₃.find? p = fs₁.find? p := by
    intro pieces
    obtain ⟨fs₃, hperform, hlook₃, hothers⟩ := perform_appends hlook₂ pieces
    exact ⟨fs₃, hperform, hlook₃, fun p hp => (hothers p hp).trans (hcreated p hp)⟩
  have hprepared : ∀ {fs₃ pieces}, fs₃.lookForWriting (Path.temporary path) =
      .ok (place, some (identity, assemble pieces)) →
        (∀ p, p ≠ place → fs₃.find? p = fs₁.find? p) → Prepared fs path fs₃ :=
    fun hlook₃ hothers => .writing grows hnamed (find?_ne_directory hlook)
      (lookForWriting_eq_ok hlook₃).2 hothers
  by_cases hearly : n ≤ pieces.length
  · rw [List.take_append_of_le_length (by simpa using hearly), ← List.map_take]
    obtain ⟨fs₃, hperform, hlook₃, hothers⟩ := hwritten (pieces.take n)
    rw [hperform]
    exact .interrupted (by simp [piecemeal]; omega) (hprepared hlook₃ hothers)
  · rw [List.take_of_length_le (by simp; omega), perform_append]
    obtain ⟨fs₃, hperform, hlook₃, hothers⟩ := hwritten pieces
    rw [hperform, if_pos rfl, perform, apply]
    cases hrename : fs₃.rename (Path.temporary path) path with
    | error cause =>
      refine .refused (hprepared hlook₃ hothers) fun hself => ?_
      rw [hself] at hlook₃ hrename
      obtain ⟨fs₄, hmoved⟩ := rename_self hlook₃
      rw [hmoved] at hrename
      cases hrename
    | ok fs' => exact .done (replaced_of_rename grows hlook₃ hothers hrename)

/-- **How far a publication comes.** -/
theorem perform_piecemeal (fs : Files) (path : String) (pieces : List ByteArray) (n : Nat) :
    Progress fs path pieces n (fs.perform ((piecemeal path pieces).take n)) := by
  have hdirs := growsAt_createDirs fs path
  match n with
  | 0 => exact .interrupted (by simp [piecemeal]) (.growing (.refl fs _))
  | n + 1 =>
    rw [piecemeal, List.take_succ_cons, perform, apply]
    generalize fs.createDirs (Path.parent path) = made at hdirs ⊢
    obtain ⟨fs₁, _ | cause⟩ := made
    · match n with
      | 0 => exact .interrupted (by simp [piecemeal]) (.growing hdirs)
      | n + 1 =>
        dsimp only
        rw [List.take_succ_cons, perform, apply]
        cases hcreate : fs₁.create (Path.temporary path) with
        | error cause => exact .refused (.growing hdirs) fun _ => hdirs
        | ok fs₂ => exact perform_pieces hdirs hcreate pieces n
    · exact .refused (.growing hdirs) fun _ => hdirs

/-! ### Before the file takes its place -/

namespace Prepared

theorem directories (h : Prepared fs path fs') :
    ∀ p, fs.find? p = some .directory → fs'.find? p = some .directory := by
  cases h with
  | growing hgrows => exact (hgrows.grows.keeps []).directories
  | writing hgrows hnamed hfree hwritten hothers =>
    intro p hp
    have hp₁ := (hgrows.grows.keeps []).directories p hp
    rw [hothers p ?_, hp₁]
    rintro rfl
    exact hfree hp₁

/-- **Before a file takes its place its path leads to what it led to**, if it is grounded and the
file is not its own sibling. -/
theorem found? (h : Prepared fs path fs') (htree : fs.IsTree) (htree' : fs'.IsTree)
    (hground : fs.Grounded path)
    (hself : Path.temporary path = path →
      fs.GrowsAt ((Path.ancestors path).map Path.place) fs') :
    fs'.found? path = fs.found? path := by
  refine found?_congr htree htree' hground h.directories fun entry hentry => ?_
  by_cases hsame : Path.temporary path = path
  · rw [(hself hsame).find?_place htree hground]
  cases h with
  | growing hgrows => rw [hgrows.find?_place htree hground]
  | writing hgrows hnamed hfree hwritten hothers =>
    rename_i fs₁ sibling start
    have hplace := hgrows.find?_place htree hground
    by_cases hat : Path.place path = sibling
    · -- the path is not one of a file, so it leads to directories only
      have hnone : Path.file? path = none := by
        cases hfile : Path.file? path with
        | none => rfl
        | some place =>
          obtain ⟨-, rfl, -⟩ := Path.file?_eq_some.mp hfile
          obtain ⟨sibling', hsibling, hne⟩ := (Path.temporary_apart hfile).resolve_left hsame
          exact absurd (hat.trans (Option.some.inj (hnamed.symm.trans hsibling))) hne.symm
      obtain rfl := hentry hnone
      obtain ⟨identity, modified, hfile⟩ := fileAt?_eq_some.mp hwritten
      rw [← hplace, hat, hfile]
      simp [hfree]
    · rw [hothers _ hat, hplace]

/-- The file holds what it held. -/
theorem held? (h : Prepared fs path fs')
    (hself : Path.temporary path = path →
      fs.GrowsAt ((Path.ancestors path).map Path.place) fs') :
    fs'.held? path = fs.held? path := by
  by_cases hsame : Path.temporary path = path
  · exact (hself hsame).grows.held? path
  cases h with
  | growing hgrows => exact hgrows.grows.held? path
  | writing hgrows hnamed hfree hwritten hothers =>
    cases hfile : Path.file? path with
    | none =>
      rw [Files.held?, Files.held?, hfile]
      rfl
    | some place =>
      obtain ⟨sibling, hsibling, hne⟩ := (Path.temporary_apart hfile).resolve_left hsame
      obtain rfl := Option.some.inj (hnamed.symm.trans hsibling)
      rw [held?_of_file? hfile, held?_of_file? hfile, fileAt?_congr (hothers place hne.symm),
        hgrows.grows.fileAt?]

end Prepared

/-! ### Interruptions -/

/-- **What an interruption leaves.** -/
theorem Interrupted.progress (h : Interrupted fs path content fs') :
    Prepared fs path fs' ∨ Replaced fs path content fs' := by
  cases h with
  | creating hsuffix =>
    exact Or.inl (.growing ((growsAt_createFirst _).mono (List.map_subset _ hsuffix.subset)))
  | changing hwhole n =>
    rename_i pieces
    have hprogress := perform_piecemeal fs path pieces n
    generalize fs.perform ((piecemeal path pieces).take n) = outcome at hprogress ⊢
    cases hprogress with
    | interrupted hearly hprepared => exact Or.inl hprepared
    | refused hprepared hself => exact Or.inl hprepared
    | done hreplaced => exact Or.inr (hwhole ▸ hreplaced)

/-- A file with another extension than that of temporary files is not its own sibling. If a path
is, nothing was written. -/
theorem Prepared.growsAt (h : Prepared fs path fs') (hother : Path.extension path ≠ some "tmp")
    (hself : Path.temporary path = path) :
    fs.GrowsAt ((Path.ancestors path).map Path.place) fs' := by
  cases h with
  | growing hgrows => exact hgrows
  | writing hgrows hnamed hfree hwritten hothers =>
    rw [hself] at hnamed
    exact absurd hself (Path.temporary_of_extension hnamed hother)

theorem IsTree.interrupted (htree : fs.IsTree) (h : Interrupted fs path content fs') :
    fs'.IsTree := by
  cases h with
  | creating hsuffix => exact htree.createFirst _
  | changing hwhole n => exact htree.perform _

end Files

end Upkeep
