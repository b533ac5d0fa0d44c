import Upkeep.Text.Chars

/-!
# Parts, fields and lines

What splitting a text at separators gives back. A text that was joined from parts without
separators is split into these parts; a part that a split gives has no separator in it.

A line feed ends a line and does not stand between two, so the text of some lines has one more part
than lines, an empty one. A carriage return before it belongs to the ending: a line that has one of
its own at the end loses it. Since it is a blank, that makes no difference to who drops the blanks
around fields.

## Main definitions

* `Text.ofLines`: the text of lines.
* `Text.Trimmed`: there are no blanks at either end.

## Main results

* `Text.splitOn_eq`: splitting is that of lists.
* `Text.lines_ofLines`: lines are read as they were written.
* `Text.map_trim_splitOn_dropCarriageReturn`: fields do not depend on the ending of a line.
-/

namespace Upkeep.Text

variable {sep c : Char} {cs : List Char}

theorem splitOn_ne_nil (sep : Char) (cs : List Char) : splitOn sep cs ≠ [] := by
  cases cs with
  | nil => simp [splitOn]
  | cons c cs =>
    rw [splitOn]
    split
    · simp
    · split <;> simp

theorem splitOn_eq (sep : Char) (cs : List Char) : splitOn sep cs = cs.splitOn sep := by
  induction cs with
  | nil => rfl
  | cons c cs ih =>
    rw [splitOn, List.splitOn_cons_eq_if_modifyHead, ← ih]
    split
    · rfl
    · cases hparts : splitOn sep cs with
      | nil => exact absurd hparts (splitOn_ne_nil sep cs)
      | cons part parts => rfl

/-- A part between separators holds none. -/
theorem not_mem_of_mem_splitOn {part : List Char} (h : part ∈ splitOn sep cs) : sep ∉ part := by
  induction cs generalizing part with
  | nil =>
    obtain rfl := List.mem_singleton.mp h
    exact List.not_mem_nil
  | cons c cs ih =>
    rw [splitOn] at h
    split at h
    · rcases List.mem_cons.mp h with rfl | hpart
      · exact List.not_mem_nil
      · exact ih hpart
    · rename_i hc
      have hne : sep ≠ c := by
        rintro rfl
        exact hc (beq_self_eq_true sep)
      cases hparts : splitOn sep cs with
      | nil => exact absurd hparts (splitOn_ne_nil sep cs)
      | cons first parts =>
        rw [hparts] at h ih
        rcases List.mem_cons.mp h with rfl | hpart
        · exact List.not_mem_cons_of_ne_of_not_mem hne (ih List.mem_cons_self)
        · exact ih (List.mem_cons_of_mem first hpart)

/-- The last part is empty only where nothing follows the last separator. -/
theorem of_getLast?_splitOn (h : (splitOn sep cs).getLast? = some []) :
    cs = [] ∨ cs.getLast? = some sep := by
  induction cs with
  | nil => exact Or.inl rfl
  | cons c cs ih =>
    refine Or.inr ?_
    rw [splitOn] at h
    split at h
    · rename_i hc
      obtain rfl : c = sep := by simpa using hc
      rw [List.getLast?_cons_of_ne_nil (splitOn_ne_nil c cs)] at h
      rcases ih h with rfl | hlast
      · rfl
      · rw [List.getLast?_cons, hlast]
        rfl
    · cases hparts : splitOn sep cs with
      | nil => exact absurd hparts (splitOn_ne_nil sep cs)
      | cons part parts =>
        rw [hparts] at h ih
        cases parts with
        | nil => cases h
        | cons part' parts =>
          have hlast : (part :: part' :: parts).getLast? = some [] := h
          rcases ih hlast with rfl | hlast
          · cases hparts
          · rw [List.getLast?_cons, hlast]
            rfl

/-- A character that is no separator belongs to the last part. -/
theorem splitOn_concat (hc : c ≠ sep) (cs : List Char) :
    ∃ parts last, splitOn sep cs = parts ++ [last] ∧
      splitOn sep (cs ++ [c]) = parts ++ [last ++ [c]] := by
  induction cs with
  | nil => exact ⟨[], [], rfl, by simp [splitOn, hc]⟩
  | cons d cs ih =>
    obtain ⟨parts, last, hparts, hparts'⟩ := ih
    rw [List.cons_append, splitOn, splitOn, hparts, hparts']
    split
    · exact ⟨[] :: parts, last, rfl, rfl⟩
    · cases parts with
      | nil => exact ⟨[], d :: last, rfl, rfl⟩
      | cons part parts => exact ⟨(d :: part) :: parts, last, rfl, rfl⟩

theorem getLast?_splitOn_concat (sep : Char) (cs : List Char) :
    (splitOn sep (cs ++ [sep])).getLast? = some [] := by
  induction cs with
  | nil => simp [splitOn]
  | cons c cs ih =>
    rw [List.cons_append, splitOn]
    split
    · rw [List.getLast?_cons_of_ne_nil (splitOn_ne_nil sep _), ih]
    · cases hparts : splitOn sep (cs ++ [sep]) with
      | nil => exact absurd hparts (splitOn_ne_nil sep _)
      | cons part parts =>
        cases parts with
        | nil =>
          -- a single part is the whole text, which is not empty
          rw [hparts] at ih
          cases ih
          have hwhole : [sep].intercalate ((cs ++ [sep]).splitOn sep) = cs ++ [sep] :=
            List.intercalate_splitOn sep
          rw [← splitOn_eq, hparts] at hwhole
          simp at hwhole
        | cons part' parts =>
          rw [hparts] at ih
          exact ih

/-! ### Cutting in two -/

theorem eq_append_of_cut {before after : List Char} (h : cut sep cs = some (before, after)) :
    cs = before ++ sep :: after := by
  induction cs generalizing before with
  | nil => cases h
  | cons c cs ih =>
    rw [cut] at h
    split at h
    · rename_i hc
      obtain rfl : c = sep := by simpa using hc
      cases h
      rfl
    · obtain ⟨⟨before', after'⟩, hcut, heq⟩ := Option.map_eq_some_iff.mp h
      cases heq
      rw [ih hcut]
      rfl

theorem cut_append {sep : Char} {before : List Char} (h : sep ∉ before) (after : List Char) :
    cut sep (before ++ sep :: after) = some (before, after) := by
  induction before with
  | nil => simp [cut]
  | cons c before ih =>
    have hc : c ≠ sep := fun hc => h (hc ▸ List.mem_cons_self)
    have hbefore : sep ∉ before := fun hmem => h (List.mem_cons_of_mem c hmem)
    rw [List.cons_append, cut, if_neg (by simpa using hc), ih hbefore]
    rfl

theorem cut_eq_none (h : sep ∉ cs) : cut sep cs = none := by
  induction cs with
  | nil => rfl
  | cons c cs ih =>
    have hc : c ≠ sep := fun hc => h (hc ▸ List.mem_cons_self)
    have hcs : sep ∉ cs := fun hmem => h (List.mem_cons_of_mem c hmem)
    rw [cut, if_neg (by simpa using hc), ih hcs]
    rfl

theorem eq_append_of_cutLast {before after : List Char}
    (h : cutLast sep cs = some (before, after)) : cs = before ++ sep :: after := by
  obtain ⟨⟨after', before'⟩, hcut, heq⟩ := Option.map_eq_some_iff.mp h
  cases heq
  have hreverse := congrArg List.reverse (eq_append_of_cut hcut)
  simpa using hreverse

theorem cutLast_append {sep : Char} {after : List Char} (h : sep ∉ after) (before : List Char) :
    cutLast sep (before ++ sep :: after) = some (before, after) := by
  have hreverse : (before ++ sep :: after).reverse = after.reverse ++ sep :: before.reverse := by
    simp
  rw [cutLast, hreverse, cut_append (by simpa using h)]
  simp

/-! ### Blanks -/

/-- There are no blanks at either end. -/
def Trimmed (cs : List Char) : Prop :=
  (∀ c ∈ cs.head?, isBlank c = false) ∧ ∀ c ∈ cs.getLast?, isBlank c = false

instance : DecidablePred Trimmed := fun cs =>
  decidable_of_iff (cs.head?.all (!isBlank ·) = true ∧ cs.getLast?.all (!isBlank ·) = true)
    (by simp [Trimmed, Option.all_eq_true])

theorem dropWhile_isBlank (h : ∀ c ∈ cs.head?, isBlank c = false) : cs.dropWhile isBlank = cs := by
  cases cs with
  | nil => rfl
  | cons c cs => rw [List.dropWhile_cons_of_neg (by simp [h c rfl])]

theorem Trimmed.trim_eq (h : Trimmed cs) : trim cs = cs := by
  rw [trim, trimStart, dropWhile_isBlank h.1, trimEnd, dropWhile_isBlank, List.reverse_reverse]
  rw [List.head?_reverse]
  exact h.2

/-- A blank at the end makes no difference. -/
theorem trim_append_blank (h : isBlank c = true) (cs : List Char) :
    trim (cs ++ [c]) = trim cs := by
  have hstart : trimStart (cs ++ [c]) = trimStart cs ++ [c] ∨
      trimStart (cs ++ [c]) = [] ∧ trimStart cs = [] := by
    rw [trimStart, trimStart, List.dropWhile_append]
    cases hrest : cs.dropWhile isBlank with
    | nil => exact Or.inr ⟨by simp [h], rfl⟩
    | cons d ds => exact Or.inl (by simp)
  rcases hstart with heq | ⟨hnil, hnil'⟩
  · rw [trim, trim, heq, trimEnd, trimEnd, List.reverse_append, List.reverse_singleton,
      List.singleton_append, List.dropWhile_cons_of_pos h]
  · rw [trim, trim, hnil, hnil']

/-! ### Lines -/

/-- The text of lines. -/
def ofLines (ls : List (List Char)) : List Char := ls.flatMap (· ++ ['\n'])

theorem dropCarriageReturn_concat (line : List Char) :
    dropCarriageReturn (line ++ ['\r']) = line := by
  simp [dropCarriageReturn]

/-- There is a carriage return to drop, or there is none. -/
theorem dropCarriageReturn_cases (line : List Char) :
    dropCarriageReturn line = line ∨ line = dropCarriageReturn line ++ ['\r'] := by
  rcases List.eq_nil_or_concat line with rfl | ⟨start, c, rfl⟩
  · exact Or.inl rfl
  · rw [List.concat_eq_append]
    by_cases hc : c = '\r'
    · subst hc
      exact Or.inr (by rw [dropCarriageReturn_concat])
    · refine Or.inl ?_
      rw [dropCarriageReturn, List.reverse_append, List.reverse_singleton, List.singleton_append]
      split
      · rename_i heq
        exact absurd (List.cons.inj heq).1 hc
      · rfl

theorem linesOfParts_cons {part : List Char} {parts : List (List Char)} (h : parts ≠ []) :
    linesOfParts (part :: parts) = dropCarriageReturn part :: linesOfParts parts := by
  cases parts with
  | nil => exact absurd rfl h
  | cons next parts => rfl

/-- **Lines are read as they were written**, apart from carriage returns at their ends. -/
theorem lines_ofLines {ls : List (List Char)} (h : ∀ line ∈ ls, '\n' ∉ line) :
    lines (ofLines ls) = ls.map dropCarriageReturn := by
  rw [lines]
  induction ls with
  | nil => rfl
  | cons line ls ih =>
    obtain ⟨hline, hls⟩ := List.forall_mem_cons.mp h
    have hsplit : splitOn '\n' (ofLines (line :: ls)) = line :: splitOn '\n' (ofLines ls) := by
      have hof : ofLines (line :: ls) = line ++ '\n' :: ofLines ls := by simp [ofLines]
      rw [hof, splitOn_eq, splitOn_eq, List.splitOn_append_cons_self,
        List.splitOn_eq_singleton hline, List.singleton_append]
    rw [hsplit, linesOfParts_cons (splitOn_ne_nil _ _), ih hls, List.map_cons]

/-- Fields that lose the blanks around them do not depend on the ending of their line. -/
theorem map_trim_splitOn_dropCarriageReturn (hsep : sep ≠ '\r') (line : List Char) :
    (splitOn sep (dropCarriageReturn line)).map trim = (splitOn sep line).map trim := by
  rcases dropCarriageReturn_cases line with heq | heq
  · rw [heq]
  · obtain ⟨parts, last, hparts, hparts'⟩ := splitOn_concat hsep.symm (dropCarriageReturn line)
    conv => rhs; rw [heq, hparts']
    rw [hparts, List.map_append, List.map_append, List.map_singleton, List.map_singleton,
      trim_append_blank (by decide)]

end Upkeep.Text
