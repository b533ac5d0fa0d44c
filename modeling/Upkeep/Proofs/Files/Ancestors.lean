import Upkeep.Proofs.Files.Trees

/-!
# The directories on the way

The directories that a path is in are found in its text, by leaving out the ends of it one after the
other. So the steps to any of them are steps of the path, and some are left that lead on. Those that
are created for a file are among them, all of them, and no other. None is at the place of the file
unless the path goes up again from a directory that has to be created first.

## Main results

* `Path.steps_of_mem_ancestors`: the steps to a directory that a path is in.
* `Path.ancestors_parent`: the directories that the nearest of them is in are the others.
* `Files.growsAt_createDirs`: which directories are created.
* `Files.GrowsAt.find?_place`: they are not where the path leads.
-/

namespace Upkeep

namespace Path

variable {path a : String} {names : List String}

/-! ### Lineage -/

/-- The paths of which segments are the ends, one by one. -/
theorem mem_lineage (h : a ∈ lineage names) :
    ∃ front name rest, names = front ++ name :: rest ∧ isIdle name = false ∧
      a = ofReversed (name :: rest) := by
  induction names with
  | nil => cases h
  | cons name names ih =>
    have hlater : a ∈ lineage names → ∃ front name' rest,
        name :: names = front ++ name' :: rest ∧ isIdle name' = false ∧
          a = ofReversed (name' :: rest) := by
      intro hmem
      obtain ⟨front, name', rest, hnames, hidle, heq⟩ := ih hmem
      exact ⟨name :: front, name', rest, by rw [hnames, List.cons_append], hidle, heq⟩
    rw [lineage] at h
    split at h
    · exact hlater h
    · rename_i hidle
      rcases List.mem_cons.mp h with rfl | hmem
      · exact ⟨[], name, names, rfl, by simpa using hidle, rfl⟩
      · exact hlater hmem

theorem segments_ofReversed {name : String} (hslash : ∀ n ∈ name :: names, '/' ∉ n.toList) :
    segments (ofReversed (name :: names)) = (name :: names).reverse :=
  segments_intercalate (fun n hn => hslash n (List.mem_reverse.mp hn)) (by simp)

theorem reversed_ofReversed {name : String} (hslash : ∀ n ∈ name :: names, '/' ∉ n.toList)
    (hidle : isIdle name = false) : reversed (ofReversed (name :: names)) = name :: names := by
  rw [reversed, segments_ofReversed hslash, List.reverse_reverse,
    List.dropWhile_cons_of_neg (by simp [hidle])]

/-- The directories that the first of a lineage is in are the others. -/
theorem lineage_eq_cons {as : List String} (hslash : ∀ n ∈ names, '/' ∉ n.toList)
    (h : lineage names = a :: as) : ancestors a = as := by
  induction names with
  | nil => cases h
  | cons name names ih =>
    rw [lineage] at h
    split at h
    · exact ih (fun n hn => hslash n (List.mem_cons_of_mem _ hn)) h
    · rename_i hidle
      obtain ⟨rfl, rfl⟩ := List.cons.inj h
      rw [ancestors, reversed_ofReversed hslash (by simpa using hidle), List.tail_cons]

/-! ### The segments of a path -/

/-- What does not count is at the end of a path. -/
theorem segments_eq (path : String) : ∃ idle, segments path = (reversed path).reverse ++ idle := by
  refine ⟨((segments path).reverse.takeWhile isIdle).reverse, ?_⟩
  rw [reversed, ← List.reverse_append, List.takeWhile_append_dropWhile, List.reverse_reverse]

theorem slash_not_mem_reversed {segment : String} (h : segment ∈ reversed path) :
    '/' ∉ segment.toList := by
  obtain ⟨idle, hsegments⟩ := segments_eq path
  exact slash_not_mem (hsegments ▸ List.mem_append_left _ (List.mem_reverse.mpr h))

/-- **The directories that the nearest directory is in are the others.** -/
theorem ancestors_parent (path : String) :
    parent path :: ancestors (parent path) = ancestors path ∨ parent path = "" := by
  rw [parent]
  cases hancestors : ancestors path with
  | nil => exact Or.inr rfl
  | cons a as =>
    refine Or.inl ?_
    rw [List.headD_cons, lineage_eq_cons (fun n hn => ?_) hancestors]
    exact slash_not_mem_reversed (List.mem_of_mem_tail hn)

/-- A segment that counts leads somewhere. -/
theorem stepOf?_of_isIdle {segment : String} (h : isIdle segment = false) :
    ∃ step, stepOf? segment = some step ∧ step ≠ .stay := by
  obtain ⟨hempty, hdot⟩ : segment ≠ "" ∧ segment ≠ "." := by simpa [isIdle] using h
  unfold stepOf?
  split
  · exact absurd rfl hempty
  · exact absurd rfl hdot
  · exact ⟨.up, rfl, by simp⟩
  · exact ⟨.enter segment, rfl, by simp⟩

/-- **The steps to a directory that a path is in** are steps of the path, and the others go on from
there. -/
theorem steps_of_mem_ancestors (h : a ∈ ancestors path) :
    ∃ rest, steps path = steps a ++ rest ∧ ∃ step ∈ rest, step ≠ .stay := by
  obtain ⟨front, name, names, htail, hidle, rfl⟩ := mem_lineage h
  obtain ⟨idle, hsegments⟩ := segments_eq path
  cases hreversed : reversed path with
  | nil =>
    rw [hreversed] at htail
    simp at htail
  | cons last start =>
    rw [hreversed, List.tail_cons] at htail
    have hslash : ∀ n ∈ name :: names, '/' ∉ n.toList := by
      intro n hn
      have hmem : n ∈ reversed path := by
        rw [hreversed, htail]
        exact List.mem_cons_of_mem _ (List.mem_append_right _ hn)
      exact slash_not_mem_reversed hmem
    have hlast : isIdle last = false := by
      have hdrop := List.head?_dropWhile_not isIdle (segments path).reverse
      rw [← reversed, hreversed] at hdrop
      simpa using hdrop
    obtain ⟨step, hstep, hne⟩ := stepOf?_of_isIdle hlast
    refine ⟨(front.reverse ++ last :: idle).filterMap stepOf?, ?_, step, ?_, hne⟩
    · rw [steps, steps, segments_ofReversed hslash, ← List.filterMap_append, hsegments, hreversed,
        htail]
      simp
    · exact List.mem_filterMap.mpr
        ⟨last, List.mem_append_right _ List.mem_cons_self, hstep⟩

end Path

/-! ### Creating directories -/

namespace Files

variable {fs fs' : Files} {path : String}

/-- **Which directories are created for a file**: some of those that its path is in. -/
theorem growsAt_createDirs (fs : Files) (path : String) :
    fs.GrowsAt ((Path.ancestors path).map Path.place) (fs.createDirs (Path.parent path)).1 := by
  rw [createDirs]
  split
  · exact .refl fs _
  · rename_i hparent
    rcases Path.ancestors_parent path with heq | hempty
    · rw [← heq]
      exact growsAt_createFirst _
    · exact absurd (by simpa using hempty) hparent

/-- **No directory is created where a grounded path leads.** -/
theorem GrowsAt.find?_place (h : fs.GrowsAt ((Path.ancestors path).map Path.place) fs')
    (htree : fs.IsTree) (hground : fs.Grounded path) :
    fs'.find? (Path.place path) = fs.find? (Path.place path) := by
  refine (h (Path.place path)).resolve_right ?_
  rintro ⟨hmem, hnone, -⟩
  obtain ⟨a, ha, heq⟩ := List.mem_map.mp hmem
  obtain ⟨more, hmore, hgo⟩ := Path.steps_of_mem_ancestors ha
  obtain ⟨start, rest, dir, hsteps, hstart, hup⟩ := hground
  rcases List.append_eq_append_iff.mp (hmore.symm.trans hsteps) with
    ⟨between, hbetween, -⟩ | ⟨between, -, hbetween⟩
  · -- the directory is on the part of the path that leads to a directory that is there
    rw [hbetween] at hstart
    obtain ⟨mid, hmid, -⟩ := follow_append.mp hstart
    have hdir := htree.follow rfl hmid
    rw [follow_eq_ok hmid] at hdir
    rw [← heq, Path.place, hdir] at hnone
    cases hnone
  · have hplace : Path.place path = Path.walk (Path.place a) more := by
      rw [Path.place, hmore, Path.walk_append]
      rfl
    refine Path.walk_ne (fun hmem => hup ?_) hgo (hplace.symm.trans heq.symm)
    rw [hbetween]
    exact List.mem_append_right _ hmem

end Files

end Upkeep
