import Upkeep.Proofs.Files.Changes
import Upkeep.Proofs.Splitting

/-!
# Publications

A publication goes by way of a temporary sibling, and the path of the sibling is made of the text
of the path. Either it is the same path, when the file already has the extension of temporary
files, or it names another place. In the first case nothing can be refused any more once the file
has been emptied; in the second the file is not touched before the rename. So a publication is
done, or it leaves the file as it was.

## Main results

* `Path.temporary_apart`: where the temporary sibling of a file is.
* `Files.held?_publication`: a publication is done or leaves the file as it was.
-/

namespace Upkeep

/-! ### The text of a path -/

namespace Path

variable {path name : String} {place : Place}

theorem stepOf?_eq_enter {segment : String} :
    stepOf? segment = some (.enter name) ↔
      name = segment ∧ segment ≠ "" ∧ segment ≠ "." ∧ segment ≠ ".." := by
  constructor
  · intro h
    unfold stepOf? at h
    split at h
    · cases h
    · cases h
    · cases h
    · rename_i hempty hdot hdots
      cases h
      exact ⟨rfl, hempty, hdot, hdots⟩
  · rintro ⟨rfl, hempty, hdot, hdots⟩
    unfold stepOf?
    split
    · exact absurd rfl hempty
    · exact absurd rfl hdot
    · exact absurd rfl hdots
    · rfl

theorem stepOf?_eq_none {segment : String} (h : stepOf? segment = none) : segment = "" := by
  unfold stepOf? at h
  split at h
  · rfl
  all_goals cases h

theorem segments_ne_nil (path : String) : segments path ≠ [] := by
  simpa [segments] using Text.splitOn_ne_nil '/' path.toList

theorem slash_not_mem {segment : String} (h : segment ∈ segments path) : '/' ∉ segment.toList := by
  obtain ⟨part, hpart, rfl⟩ := List.mem_map.mp h
  rw [String.toList_ofList]
  exact Text.not_mem_of_mem_splitOn hpart

theorem intercalate_segments (path : String) : String.intercalate "/" (segments path) = path := by
  have hmap : (segments path).map String.toList = path.toList.splitOn '/' := by
    rw [segments, List.map_map, Text.splitOn_eq]
    exact List.map_id'' (fun part => String.toList_ofList) _
  rw [← String.toList_inj, String.toList_intercalate, hmap]
  exact List.intercalate_splitOn '/'

theorem segments_intercalate {names : List String} (hslash : ∀ name ∈ names, '/' ∉ name.toList)
    (hne : names ≠ []) : segments (String.intercalate "/" names) = names := by
  have hsplit : (['/'].intercalate (names.map String.toList)).splitOn '/' =
      names.map String.toList := by
    refine List.splitOn_intercalate '/' ?_ (by simpa using hne)
    intro part hpart
    obtain ⟨name, hname, rfl⟩ := List.mem_map.mp hpart
    exact hslash name hname
  rw [segments, Text.splitOn_eq, String.toList_intercalate]
  change List.map String.ofList ((['/'].intercalate (names.map String.toList)).splitOn '/') = names
  rw [hsplit, List.map_map]
  exact List.map_id'' (fun name => String.ofList_toList) _

/-- A path that names a file ends in the name of the file. -/
theorem segments_of_file? (h : file? path = some place) :
    ∃ start name, segments path = start ++ [name] ∧ stepOf? name = some (.enter name) ∧
      place = walk [] (start.filterMap stepOf?) ++ [name] := by
  obtain ⟨hslash, rfl, name, hlast⟩ := file?_eq_some.mp h
  obtain ⟨start, segment, hsegments⟩ :=
    (List.eq_nil_or_concat (segments path)).resolve_left (segments_ne_nil path)
  have hsegment : segment ≠ "" := by
    rintro rfl
    have hempty : (segments path).getLast? = some "" := by
      rw [hsegments, List.concat_eq_append, List.getLast?_concat]
    rw [segments, List.getLast?_map] at hempty
    obtain ⟨part, hpart, heq⟩ := Option.map_eq_some_iff.mp hempty
    obtain rfl : part = [] := by simpa using congrArg String.toList heq
    rcases Text.of_getLast?_splitOn hpart with hnil | hslash'
    · obtain rfl : path = "" := by simpa using hnil
      cases hlast
    · rw [endsInSlash, hslash'] at hslash
      cases hslash
  cases hstep : stepOf? segment with
  | none => exact absurd (stepOf?_eq_none hstep) hsegment
  | some step =>
    have hsteps : steps path = start.filterMap stepOf? ++ [step] := by
      rw [steps, hsegments, List.concat_eq_append, List.filterMap_append]
      simp [hstep]
    rw [hsteps, List.getLast?_concat] at hlast
    cases hlast
    obtain ⟨rfl, -⟩ := stepOf?_eq_enter.mp hstep
    refine ⟨start, name, hsegments.trans List.concat_eq_append, hstep, ?_⟩
    rw [place, hsteps, walk_append]
    rfl

/-- A path that ends in a name names a file. -/
theorem file?_of_segments {start : List String} (hsegments : segments path = start ++ [name])
    (hname : stepOf? name = some (.enter name)) :
    file? path = some (walk [] (start.filterMap stepOf?) ++ [name]) := by
  have hsteps : steps path = start.filterMap stepOf? ++ [.enter name] := by
    rw [steps, hsegments, List.filterMap_append]
    simp [hname]
  refine file?_eq_some.mpr ⟨?_, ?_, name, ?_⟩
  · rw [endsInSlash, beq_eq_false_iff_ne]
    intro hslash
    obtain ⟨front, hfront⟩ := List.getLast?_eq_some_iff.mp hslash
    have hlast : (segments path).getLast? = some "" := by
      rw [segments, hfront, List.getLast?_map, Text.getLast?_splitOn_concat]
      rfl
    rw [hsegments, List.getLast?_concat] at hlast
    cases hlast
    cases hname
  · rw [place, hsteps, walk_append]
    rfl
  · rw [hsteps, List.getLast?_concat]

/-! ### The temporary sibling -/

theorem mem_of_mem_stem {c : Char} (h : c ∈ (stem name).toList) : c ∈ name.toList := by
  rw [stem] at h
  split at h
  · exact h
  · exact h
  · rename_i start extension hcut
    rw [String.toList_ofList] at h
    rw [Text.eq_append_of_cutLast hcut]
    exact List.mem_append_left _ h

theorem slash_not_mem_withExtension (h : '/' ∉ name.toList) :
    '/' ∉ (withExtension "tmp" name).toList := by
  intro hmem
  rw [withExtension, String.toList_append, String.toList_append, List.append_assoc] at hmem
  rcases List.mem_append.mp hmem with hstem | hextension
  · exact h (mem_of_mem_stem hstem)
  · revert hextension
    decide

theorem getLast?_withExtension (name : String) :
    (withExtension "tmp" name).toList.getLast? = some 'p' := by
  rw [withExtension, String.toList_append, String.toList_append, List.append_assoc,
    List.getLast?_append]
  rfl

theorem stepOf?_withExtension (name : String) :
    stepOf? (withExtension "tmp" name) = some (.enter (withExtension "tmp" name)) := by
  have hlast := getLast?_withExtension name
  refine stepOf?_eq_enter.mpr ⟨rfl, ?_, ?_, ?_⟩
  all_goals
    intro heq
    rw [heq] at hlast
    revert hlast
    decide

/-- The temporary sibling differs in the last segment. -/
theorem segments_temporary {start : List String} (hsegments : segments path = start ++ [name])
    (hname : stepOf? name = some (.enter name)) :
    reversed path = name :: start.reverse ∧
      segments (temporary path) = start ++ [withExtension "tmp" name] := by
  obtain ⟨-, hempty, hdot, hdots⟩ := stepOf?_eq_enter.mp hname
  have hreversed : reversed path = name :: start.reverse := by
    rw [reversed, hsegments, List.reverse_append, List.reverse_singleton, List.singleton_append,
      List.dropWhile_cons_of_neg]
    simp [isIdle, hempty, hdot]
  have htemporary : temporary path =
      String.intercalate "/" (start ++ [withExtension "tmp" name]) := by
    rw [temporary, hreversed]
    dsimp only
    rw [if_neg (by simpa using hdots), ofReversed]
    simp
  refine ⟨hreversed, ?_⟩
  rw [htemporary]
  refine segments_intercalate ?_ (by simp)
  intro segment hsegment
  rcases List.mem_append.mp hsegment with hstart | hlast
  · exact slash_not_mem (hsegments ▸ List.mem_append_left _ hstart)
  · obtain rfl := List.mem_singleton.mp hlast
    exact slash_not_mem_withExtension (slash_not_mem (hsegments ▸ List.mem_append_right _
      (List.mem_singleton.mpr rfl)))

/-- **The temporary sibling of a file is at the path itself or at another place.** -/
theorem temporary_apart (h : file? path = some place) :
    temporary path = path ∨
      ∃ sibling, file? (temporary path) = some sibling ∧ sibling ≠ place := by
  obtain ⟨start, name, hsegments, hname, rfl⟩ := segments_of_file? h
  obtain ⟨-, htemporary⟩ := segments_temporary hsegments hname
  by_cases hsame : withExtension "tmp" name = name
  · refine Or.inl ?_
    rw [← intercalate_segments (temporary path), htemporary, hsame, ← hsegments,
      intercalate_segments]
  · refine Or.inr ⟨_, file?_of_segments htemporary (stepOf?_withExtension name), ?_⟩
    simpa using hsame

end Path

/-! ### Publishing -/

namespace Files

variable {fs fs' : Files} {path : String} {place : Place} {content : ByteArray}

theorem held?_of_file? (h : Path.file? path = some place) : fs.held? path = fs.fileAt? place := by
  rw [held?, h]
  rfl

/-- What can be written can be created. -/
theorem create_again {there : Option (Nat × ByteArray)}
    (h : fs.lookForWriting path = .ok (place, there)) (hcreate : fs.create path = .ok fs') :
    ∃ identity, fs'.lookForWriting path = .ok (place, some (identity, ByteArray.empty)) := by
  have hne : place ≠ [] := Path.file?_ne_nil (lookForWriting_eq_ok h).1
  rw [create, h] at hcreate
  cases there with
  | none =>
    cases hcreate
    exact ⟨_, lookForWriting_again h (find?_addFile_self hne) fun p hp => find?_addFile_of_ne hp⟩
  | some there =>
    obtain ⟨identity, start⟩ := there
    cases hcreate
    exact ⟨_, lookForWriting_again h (find?_put_self hne) fun p hp => find?_put_of_ne hp⟩

/-- What is there can be appended to. -/
theorem append_again {identity : Nat} {start : ByteArray}
    (h : fs.lookForWriting path = .ok (place, some (identity, start))) (content : ByteArray) :
    ∃ fs', fs.append path content = .ok fs' ∧
      fs'.lookForWriting path = .ok (place, some (identity, start ++ content)) := by
  have hne : place ≠ [] := Path.file?_ne_nil (lookForWriting_eq_ok h).1
  refine ⟨fs.put place (.file identity (start ++ content) none), ?_,
    lookForWriting_again h (find?_put_self hne) fun p hp => find?_put_of_ne hp⟩
  rw [append, h]

/-- A file can be moved to where it is. -/
theorem rename_self {identity : Nat} {start : ByteArray}
    (h : fs.lookForWriting path = .ok (place, some (identity, start))) :
    ∃ fs', fs.rename path path = .ok fs' := by
  obtain ⟨dir, name, htarget, hshort, rfl, ⟨-, hnone⟩ | ⟨i, c, modified, hfile, -⟩⟩ :=
    lookForWriting_eq_ok_iff.mp h
  · cases hnone
  · refine ⟨(fs.drop (dir ++ [name])).put (dir ++ [name]) (.file i c modified), ?_⟩
    rw [rename, htarget]
    dsimp only [after]
    rw [if_neg (Nat.not_lt.mpr hshort), hfile]
    rfl

/-- How a publication goes. -/
inductive Published (fs : Files) (path : String) (content : ByteArray) :
    Files → Option IoCause → Prop
  /-- It was refused before a file was touched. -/
  | barred {fs' : Files} {cause : IoCause} (grows : fs.Grows fs') :
      Published fs path content fs' (some cause)
  /-- The new content was refused. -/
  | emptied {fs₁ fs₂ : Files} {cause : IoCause} (grows : fs.Grows fs₁)
      (created : fs₁.create (Path.temporary path) = .ok fs₂)
      (refused : fs₂.append (Path.temporary path) content = .error cause) :
      Published fs path content fs₂ (some cause)
  /-- The file was refused its place. -/
  | written {fs₁ fs₂ fs₃ : Files} {cause : IoCause} (grows : fs.Grows fs₁)
      (created : fs₁.create (Path.temporary path) = .ok fs₂)
      (appended : fs₂.append (Path.temporary path) content = .ok fs₃)
      (refused : fs₃.rename (Path.temporary path) path = .error cause) :
      Published fs path content fs₃ (some cause)
  /-- It was done. -/
  | done {fs₁ fs₂ fs₃ fs' : Files} (grows : fs.Grows fs₁)
      (created : fs₁.create (Path.temporary path) = .ok fs₂)
      (appended : fs₂.append (Path.temporary path) content = .ok fs₃)
      (renamed : fs₃.rename (Path.temporary path) path = .ok fs') :
      Published fs path content fs' none

theorem published (fs : Files) (path : String) (content : ByteArray) :
    Published fs path content (fs.perform (publication path content)).1
      (fs.perform (publication path content)).2 := by
  have hgrows := grows_createDirs fs (Path.parent path)
  simp only [publication, writing, List.cons_append, List.nil_append, perform, apply]
  cases hdirs : fs.createDirs (Path.parent path) with
  | mk fs₁ cause =>
    rw [hdirs] at hgrows
    cases cause with
    | some cause => exact .barred hgrows
    | none =>
      dsimp only
      cases hcreate : fs₁.create (Path.temporary path) with
      | error cause => exact .barred hgrows
      | ok fs₂ =>
        dsimp only [settle]
        cases happend : fs₂.append (Path.temporary path) content with
        | error cause => exact .emptied hgrows hcreate happend
        | ok fs₃ =>
          dsimp only
          cases hrename : fs₃.rename (Path.temporary path) path with
          | error cause => exact .written hgrows hcreate happend hrename
          | ok fs' => exact .done hgrows hcreate happend hrename

/-- A file that is its own temporary sibling is refused nothing once it is emptied. -/
theorem publish_self {fs₂ : Files} (hself : Path.temporary path = path)
    (hcreate : fs.create (Path.temporary path) = .ok fs₂) (content : ByteArray) :
    ∃ fs₃ fs₄, fs₂.append (Path.temporary path) content = .ok fs₃ ∧
      fs₃.rename (Path.temporary path) path = .ok fs₄ := by
  rw [hself] at hcreate ⊢
  cases hlook : fs.lookForWriting path with
  | error cause =>
    rw [create, hlook] at hcreate
    cases hcreate
  | ok found =>
    obtain ⟨place, there⟩ := found
    obtain ⟨identity, hlook₂⟩ := create_again hlook hcreate
    obtain ⟨fs₃, happend, hlook₃⟩ := append_again hlook₂ content
    obtain ⟨fs₄, hrename⟩ := rename_self hlook₃
    exact ⟨fs₃, fs₄, happend, hrename⟩

theorem Published.held?_of_done (h : Published fs path content fs' none) :
    fs'.held? path = some content := by
  obtain _ | _ | _ | ⟨hgrows, hcreate, happend, hrename⟩ := h
  obtain ⟨place, hplace, hempty, -⟩ := create_eq_ok hcreate
  obtain ⟨place', start, hplace', hstart, hwhole, -⟩ := append_eq_ok happend
  obtain ⟨old, new, moved, hold, hnew, hmoved, hheld, -⟩ := rename_eq_ok hrename
  obtain rfl : place = place' := Option.some.inj (hplace.symm.trans hplace')
  obtain rfl : place = old := Option.some.inj (hplace.symm.trans hold)
  obtain rfl : ByteArray.empty = start := Option.some.inj (hempty.symm.trans hstart)
  obtain rfl : ByteArray.empty ++ content = moved := Option.some.inj (hwhole.symm.trans hmoved)
  rw [held?_of_file? hnew, hheld, ByteArray.empty_append]

theorem Published.held?_of_refused {cause : IoCause}
    (h : Published fs path content fs' (some cause)) : fs'.held? path = fs.held? path := by
  cases hfile : Path.file? path with
  | none =>
    rw [held?, held?, hfile]
    rfl
  | some place =>
    rcases Path.temporary_apart hfile with hself | ⟨sibling, hsibling, hne⟩
    · cases h with
      | barred hgrows => exact hgrows.held? path
      | emptied hgrows hcreate hrefused =>
        obtain ⟨fs₃, fs₄, happend, -⟩ := publish_self hself hcreate content
        rw [happend] at hrefused
        cases hrefused
      | written hgrows hcreate happend hrefused =>
        obtain ⟨fs₃', fs₄, happend', hrename⟩ := publish_self hself hcreate content
        rw [happend] at happend'
        cases happend'
        rw [hrename] at hrefused
        cases hrefused
    · have hcreated : ∀ {fs₁ fs₂}, fs.Grows fs₁ → fs₁.create (Path.temporary path) = .ok fs₂ →
          fs₂.fileAt? place = fs.fileAt? place := by
        intro fs₁ fs₂ hgrows hcreate
        obtain ⟨place', hplace', -, hother⟩ := create_eq_ok hcreate
        obtain rfl : sibling = place' := Option.some.inj (hsibling.symm.trans hplace')
        rw [fileAt?_congr (hother place hne.symm), hgrows.fileAt?]
      rw [held?_of_file? hfile, held?_of_file? hfile]
      cases h with
      | barred hgrows => exact hgrows.fileAt? place
      | emptied hgrows hcreate hrefused => exact hcreated hgrows hcreate
      | written hgrows hcreate happend hrefused =>
        obtain ⟨place', -, hplace', -, -, hother⟩ := append_eq_ok happend
        obtain rfl : sibling = place' := Option.some.inj (hsibling.symm.trans hplace')
        rw [fileAt?_congr (hother place hne.symm), hcreated hgrows hcreate]

/-- **A publication is done, or it leaves the file as it was.** -/
theorem held?_publication (fs : Files) (path : String) (content : ByteArray) :
    (fs.perform (publication path content)).1.held? path =
      if (fs.perform (publication path content)).2 = none then some content
      else fs.held? path := by
  have h := published fs path content
  split
  · rename_i hdone
    rw [hdone] at h
    exact h.held?_of_done
  · rename_i hrefused
    obtain ⟨cause, hcause⟩ := Option.ne_none_iff_exists'.mp hrefused
    rw [hcause] at h
    exact h.held?_of_refused

end Files

end Upkeep
