import Mathlib.Data.List.DropRight
import Mathlib.Data.List.Forall2
import Upkeep.Proofs.Json.Literals

/-!
# JSON values written and read

Both written forms of a value are read back as the value. They differ in blanks alone, and the
reader skips those, so what is shown is shown for both: an array is read back from its items,
however many blanks stand before each of them and before the bracket at the end, and so is an
object from its members.

A value is not written by itself but before a comma, a blank, a bracket or the end of the text, so
what there is to show of each is that its reader stops there. The reader is given a number of
levels that it may open, and there are always enough of them, since the number that a value needs
is no larger than the number of characters that are written for it.

Not everything that can be read can be written: of a number with a fraction only the whole part is
kept, and a literal that denotes no text has none that could be written.

## Main definitions

* `Json.Exact`: values of which everything is written.
* `Json.ReadsBack`: a value is read from characters, wherever they stand.

## Main results

* `Json.ReadsBack.array`, `Json.ReadsBack.object`.
* `Json.Exact.pretty`, `Json.Exact.compact`.
* `Json.ReadsBack.parse_append`, `Json.parse_pretty`,
  `Json.parse_compact`.
-/

namespace Upkeep.Json

/-- Everything of the value is written: numbers are whole, and texts are texts. -/
inductive Exact : Json → Prop where
  | null : Exact .null
  | bool (b : Bool) : Exact (.bool b)
  | number (negative : Bool) (whole : Nat) : Exact (.number negative whole true)
  | text (s : String) : Exact (.text s)
  | array {items : List Json} (h : ∀ item ∈ items, Exact item) : Exact (.array items)
  | object {members : List (Option String × Json)}
      (named : ∀ member ∈ members, member.1.isSome = true)
      (h : ∀ member ∈ members, Exact member.2) : Exact (.object members)

/-- There are only blanks. -/
def Blank (cs : Rest) : Prop := ∀ c ∈ cs, isGap c = true

/-- Wherever the characters stand, the value is read from them, with as many levels as there are
characters. They start with neither a blank nor the end of an array. -/
structure ReadsBack (cs : Rest) (j : Json) : Prop where
  /-- What they start with. -/
  starts : ∃ c more, cs = c :: more ∧ isGap c = false ∧ c ≠ ']'
  /-- They are read to their end. -/
  reads : ∀ (levels : Nat) (rest : Rest), cs.length ≤ levels → Closes rest →
    readValue levels (cs ++ rest) = some (j, rest)

/-- An item of an array, with the blanks before it. -/
def ReadsItem (part : Rest) (item : Json) : Prop :=
  ∃ blank cs, part = blank ++ cs ∧ Blank blank ∧ ReadsBack cs item

/-- A member of an object, with the blanks before it and before its value. -/
def ReadsMember (part : Rest) (member : Option String × Json) : Prop :=
  ∃ blank name between cs, part = blank ++ ((quote name).toList ++ ':' :: (between ++ cs)) ∧
    Blank blank ∧ Blank between ∧ member.1 = some name ∧ ReadsBack cs member.2

/-- Parts with commas between them. -/
abbrev joined (parts : List Rest) : Rest := [','].intercalate parts

variable {j : Json} {levels depth : Nat} {c : Char} {cs rest tail blank between closing : Rest}
  {part : Rest} {parts : List Rest} {items : List Json} {members : List (Option String × Json)}

/-! ### Blanks -/

theorem skipGap_cons (h : isGap c = false) : skipGap (c :: cs) = c :: cs := by
  simp [skipGap, h]

theorem skipGap_skipGap (cs : Rest) : skipGap (skipGap cs) = skipGap cs :=
  List.dropWhile_idempotent isGap cs

theorem Blank.skipGap_append (h : Blank blank) (cs : Rest) :
    skipGap (blank ++ cs) = skipGap cs := by
  rw [skipGap, List.dropWhile_append_of_pos h, skipGap]

theorem blank_nil : Blank [] := by
  rintro _ ⟨⟩

theorem blank_space : Blank [' '] := by
  intro c hc
  rw [List.mem_singleton.mp hc]
  rfl

/-- Blanks do not go on with a number. -/
theorem Blank.closes (h : Blank blank) (hcloses : Closes rest) : Closes (blank ++ rest) := by
  cases blank with
  | nil => exact hcloses
  | cons c blank =>
    refine closes_cons ?_
    have hc := h c List.mem_cons_self
    simp only [isGap, Bool.or_eq_true, beq_iff_eq] at hc
    rcases hc with ((rfl | rfl) | rfl) | rfl <;> decide

theorem ReadsBack.skipGap_append (h : ReadsBack cs j) (rest : Rest) :
    skipGap (cs ++ rest) = cs ++ rest := by
  obtain ⟨c, more, rfl, hgap, -⟩ := h.starts
  rw [List.cons_append, skipGap_cons hgap]

/-! ### Items -/

theorem joined_cons (h : parts ≠ []) : joined (part :: parts) = part ++ ',' :: joined parts := by
  rw [joined, List.intercalate_cons_of_ne_nil h, List.append_assoc]
  rfl

/-- Joined parts start as the first one does. -/
theorem exists_joined (blank more : Rest) (c : Char) (parts : List Rest) :
    ∃ others, joined ((blank ++ c :: more) :: parts) = blank ++ c :: others := by
  by_cases hlast : parts = []
  · exact ⟨more, by rw [hlast, joined, List.intercalate_singleton]⟩
  · exact ⟨_, by rw [joined_cons hlast, List.append_assoc, List.cons_append]⟩

theorem readItems_skipGap (levels : Nat) (cs : Rest) :
    readItems levels (skipGap cs) = readItems levels cs := by
  cases levels with
  | zero => rw [readItems, readItems]
  | succ levels => rw [readItems, readItems, skipGap_skipGap]

theorem readValue_array (h : ∀ r, skipGap cs ≠ ']' :: r) : readValue (levels + 1) ('[' :: cs) =
    (readItems levels cs).map fun (items, r) => (.array items, r) := by
  rw [readValue]
  split
  · next r heq => exact absurd heq (h r)
  · rw [readItems_skipGap]

/-- An array that has items does not end before the first one. -/
theorem skipGap_joined_items (h : List.Forall₂ ReadsItem parts items) (hne : parts ≠ [])
    (tail r : Rest) : skipGap (joined parts ++ tail) ≠ ']' :: r := by
  cases h with
  | nil => exact absurd rfl hne
  | @cons part item parts items hpart hparts =>
    obtain ⟨blank, cs, rfl, hblank, hcs⟩ := hpart
    obtain ⟨c, more, rfl, hgap, hc⟩ := hcs.starts
    obtain ⟨others, hothers⟩ := exists_joined blank more c parts
    rw [hothers, List.append_assoc, hblank.skipGap_append, List.cons_append, skipGap_cons hgap]
    rintro ⟨⟩
    exact hc rfl

theorem readItems_joined (h : List.Forall₂ ReadsItem parts items) (hne : parts ≠ [])
    (hlevels : (joined parts).length < levels) (hcloses : Closes tail)
    (hend : skipGap tail = ']' :: rest) :
    readItems levels (joined parts ++ tail) = some (items, rest) := by
  induction h generalizing levels with
  | nil => exact absurd rfl hne
  | @cons part item parts items hpart hparts ih =>
    obtain ⟨blank, cs, rfl, hblank, hcs⟩ := hpart
    obtain ⟨levels, rfl⟩ : ∃ l, levels = l + 1 := ⟨levels - 1, by omega⟩
    by_cases hlast : parts = []
    · subst hlast
      cases hparts
      rw [joined, List.intercalate_singleton, List.length_append] at hlevels
      have hread := hcs.reads levels tail (by omega) hcloses
      rw [joined, List.intercalate_singleton, List.append_assoc, readItems, hblank.skipGap_append,
        hcs.skipGap_append, hread]
      simp only [hend]
    · rw [joined_cons hlast] at hlevels
      simp only [List.length_append, List.length_cons] at hlevels
      have hread := hcs.reads levels (',' :: (joined parts ++ tail)) (by omega)
        (closes_cons (by decide))
      rw [joined_cons hlast, List.append_assoc, List.append_assoc, List.cons_append, readItems,
        hblank.skipGap_append, hcs.skipGap_append, hread]
      simp only [skipGap_cons (show isGap ',' = false by decide)]
      rw [ih hlast (by omega), Option.map_some]

/-- **An array is read back from its items.** -/
theorem ReadsBack.array (h : List.Forall₂ ReadsItem parts items) (hclosing : Blank closing) :
    ReadsBack ('[' :: (joined parts ++ (closing ++ [']']))) (.array items) := by
  refine ⟨⟨_, _, rfl, by decide, by decide⟩, fun levels rest hlevels hcloses => ?_⟩
  simp only [List.length_append, List.length_cons] at hlevels
  obtain ⟨levels, rfl⟩ : ∃ l, levels = l + 1 := ⟨levels - 1, by omega⟩
  have hend : skipGap (closing ++ ']' :: rest) = ']' :: rest := by
    rw [hclosing.skipGap_append, skipGap_cons (by decide)]
  simp only [List.append_assoc, List.cons_append, List.nil_append]
  by_cases hempty : parts = []
  · subst hempty
    cases h
    rw [readValue]
    simp only [joined, List.intercalate_nil, List.nil_append, hend]
  · rw [readValue_array (skipGap_joined_items h hempty _),
      readItems_joined h hempty (by omega) (hclosing.closes (closes_cons (by decide))) hend,
      Option.map_some]

/-! ### Members -/

theorem readMembers_skipGap (levels : Nat) (cs : Rest) :
    readMembers levels (skipGap cs) = readMembers levels cs := by
  cases levels with
  | zero => rw [readMembers, readMembers]
  | succ levels => rw [readMembers, readMembers, skipGap_skipGap]

theorem readValue_object (h : ∀ r, skipGap cs ≠ '}' :: r) : readValue (levels + 1) ('{' :: cs) =
    (readMembers levels cs).map fun (members, r) => (.object members, r) := by
  rw [readValue]
  split
  · next r heq => exact absurd heq (h r)
  · rw [readMembers_skipGap]

theorem toList_quote (name : String) :
    (quote name).toList = '"' :: (name.toList.flatMap escapeChar ++ ['"']) := by
  simp [quote]

/-- A member is read up to its value, and then as an item is. -/
theorem readMembers_quote (hblank : Blank blank) (hbetween : Blank between) (name : String) :
    readMembers (levels + 1) (blank ++ ((quote name).toList ++ ':' :: (between ++ cs))) =
      match readValue levels (skipGap cs) with
      | none => none
      | some (value, rest) =>
        match skipGap rest with
        | ',' :: r =>
          (readMembers levels r).map fun (members, r) => ((some name, value) :: members, r)
        | '}' :: r => some ([(some name, value)], r)
        | _ => none := by
  rw [readMembers, hblank.skipGap_append, toList_quote, List.cons_append, skipGap_cons (by decide)]
  simp only [List.append_assoc, List.cons_append, List.nil_append, readString_quote]
  rw [skipGap_cons (by decide)]
  generalize hrest : skipGap cs = rest
  obtain rfl : skipGap (between ++ cs) = rest := (hbetween.skipGap_append cs).trans hrest
  rfl

/-- An object that has members does not end before the first one. -/
theorem skipGap_joined_members (h : List.Forall₂ ReadsMember parts members) (hne : parts ≠ [])
    (tail r : Rest) : skipGap (joined parts ++ tail) ≠ '}' :: r := by
  cases h with
  | nil => exact absurd rfl hne
  | @cons part member parts members hpart hparts =>
    obtain ⟨blank, name, between, cs, rfl, hblank, -⟩ := hpart
    rw [toList_quote, List.cons_append]
    obtain ⟨others, hothers⟩ := exists_joined blank _ '"' parts
    rw [hothers, List.append_assoc, hblank.skipGap_append, List.cons_append,
      skipGap_cons (by decide)]
    rintro ⟨⟩

theorem readMembers_joined (h : List.Forall₂ ReadsMember parts members) (hne : parts ≠ [])
    (hlevels : (joined parts).length < levels) (hcloses : Closes tail)
    (hend : skipGap tail = '}' :: rest) :
    readMembers levels (joined parts ++ tail) = some (members, rest) := by
  induction h generalizing levels with
  | nil => exact absurd rfl hne
  | @cons part member parts members hpart hparts ih =>
    obtain ⟨blank, name, between, cs, rfl, hblank, hbetween, hname, hcs⟩ := hpart
    obtain ⟨_, value⟩ := member
    cases hname
    replace hcs : ReadsBack cs value := hcs
    obtain ⟨levels, rfl⟩ : ∃ l, levels = l + 1 := ⟨levels - 1, by omega⟩
    by_cases hlast : parts = []
    · subst hlast
      cases hparts
      rw [joined, List.intercalate_singleton] at hlevels ⊢
      simp only [List.length_append, List.length_cons] at hlevels
      have hread := hcs.reads levels tail (by omega) hcloses
      simp only [List.append_assoc, List.cons_append]
      rw [readMembers_quote hblank hbetween, hcs.skipGap_append, hread]
      simp only [hend]
    · rw [joined_cons hlast] at hlevels ⊢
      simp only [List.length_append, List.length_cons] at hlevels
      have hread := hcs.reads levels (',' :: (joined parts ++ tail)) (by omega)
        (closes_cons (by decide))
      simp only [List.append_assoc, List.cons_append]
      rw [readMembers_quote hblank hbetween, hcs.skipGap_append, hread]
      simp only [skipGap_cons (show isGap ',' = false by decide)]
      rw [ih hlast (by omega), Option.map_some]

/-- **An object is read back from its members.** -/
theorem ReadsBack.object (h : List.Forall₂ ReadsMember parts members) (hclosing : Blank closing) :
    ReadsBack ('{' :: (joined parts ++ (closing ++ ['}']))) (.object members) := by
  refine ⟨⟨_, _, rfl, by decide, by decide⟩, fun levels rest hlevels hcloses => ?_⟩
  simp only [List.length_append, List.length_cons] at hlevels
  obtain ⟨levels, rfl⟩ : ∃ l, levels = l + 1 := ⟨levels - 1, by omega⟩
  have hend : skipGap (closing ++ '}' :: rest) = '}' :: rest := by
    rw [hclosing.skipGap_append, skipGap_cons (by decide)]
  simp only [List.append_assoc, List.cons_append, List.nil_append]
  by_cases hempty : parts = []
  · subst hempty
    cases h
    rw [readValue]
    simp only [joined, List.intercalate_nil, List.nil_append, hend]
  · rw [readValue_object (skipGap_joined_members h hempty _),
      readMembers_joined h hempty (by omega) (hclosing.closes (closes_cons (by decide))) hend,
      Option.map_some]

/-! ### Parts -/

theorem ReadsBack.item (h : ReadsBack cs j) (hblank : Blank blank) : ReadsItem (blank ++ cs) j :=
  ⟨blank, cs, rfl, hblank, h⟩

theorem ReadsBack.member {name : Option String} (h : ReadsBack cs j) (named : name.isSome = true)
    (hblank : Blank blank) (hbetween : Blank between) :
    ReadsMember (blank ++ ((quote (name.getD "")).toList ++ ':' :: (between ++ cs))) (name, j) := by
  obtain ⟨name, rfl⟩ := Option.isSome_iff_exists.mp named
  exact ⟨blank, name, between, cs, rfl, hblank, hbetween, rfl, h⟩

/-- The parts of a list are read back when each of them is. -/
theorem forall₂_parts {α : Type} {R : Rest → α → Prop} {part : α → Rest} {l : List α}
    (h : ∀ a ∈ l, R (part a) a) : List.Forall₂ R (l.map part) l :=
  List.forall₂_map_left_iff.mpr (List.forall₂_same.mpr h)

/-! ### Literals -/

theorem ReadsBack.null : ReadsBack "null".toList .null := by
  refine ⟨⟨_, _, rfl, by decide, by decide⟩, fun levels rest hlevels _ => ?_⟩
  obtain ⟨levels, rfl⟩ : ∃ l, levels = l + 1 := ⟨levels - 1, by simp at hlevels; omega⟩
  rfl

theorem ReadsBack.bool (b : Bool) :
    ReadsBack (if b then "true" else "false").toList (.bool b) := by
  cases b <;>
  · refine ⟨⟨_, _, rfl, by decide, by decide⟩, fun levels rest hlevels _ => ?_⟩
    obtain ⟨levels, rfl⟩ : ∃ l, levels = l + 1 := ⟨levels - 1, by simp at hlevels; omega⟩
    rfl

theorem ReadsBack.text (s : String) : ReadsBack (quote s).toList (.text s) := by
  rw [toList_quote]
  refine ⟨⟨_, _, rfl, by decide, by decide⟩, fun levels rest hlevels _ => ?_⟩
  rw [List.length_cons] at hlevels
  obtain ⟨levels, rfl⟩ : ∃ l, levels = l + 1 := ⟨levels - 1, by omega⟩
  simp [readValue, readString_quote]

theorem exists_numberText (negative : Bool) (whole : Nat) : ∃ c cs,
    (numberText negative whole).toList = c :: cs ∧ (c = '-' ∨ c.isDigit = true) := by
  cases negative with
  | true => exact ⟨'-', (toString whole).toList, by simp [numberText], Or.inl rfl⟩
  | false =>
    have hnumeral := Text.numeral_toDigits whole
    obtain ⟨c, cs, hdigits⟩ := List.exists_cons_of_ne_nil hnumeral.ne_nil
    refine ⟨c, cs, ?_, Or.inr (hnumeral.isDigit c (hdigits ▸ List.mem_cons_self))⟩
    rw [← hdigits, ← Text.toList_toString]
    simp [numberText]

theorem ReadsBack.number (negative : Bool) (whole : Nat) :
    ReadsBack (numberText negative whole).toList (.number negative whole true) := by
  obtain ⟨c, cs, hcs, hc⟩ := exists_numberText negative whole
  have hne : ∀ d : Char, d ≠ '-' → d.isDigit = false → c ≠ d := by
    rintro _ hsign hdigit rfl
    rcases hc with hc | hc
    · exact hsign hc
    · exact Bool.false_ne_true (hdigit.symm.trans hc)
  constructor
  · have hgap : isGap c = false := by simp [isGap, hne]
    exact ⟨c, cs, hcs, hgap, hne _ (by decide) (by decide)⟩
  · intro levels rest hlevels hcloses
    rw [hcs, List.length_cons] at hlevels
    obtain ⟨levels, rfl⟩ : ∃ l, levels = l + 1 := ⟨levels - 1, by omega⟩
    rw [← readNumber_numberText negative hcloses, hcs, List.cons_append, readValue]
    all_goals
      intro cs' heq
      obtain ⟨rfl, -⟩ := List.cons.inj heq
      exact hne _ (by decide) (by decide) rfl

/-! ### A line for each member -/

theorem toList_indent (depth : Nat) :
    (indent depth).toList = '\n' :: List.replicate (2 * depth) ' ' := by
  simp [indent]

theorem blank_indent (depth : Nat) : Blank (indent depth).toList := by
  intro c hc
  rw [toList_indent, List.mem_cons, List.mem_replicate] at hc
  rcases hc with rfl | ⟨-, rfl⟩ <;> rfl

theorem toList_prettyItems (depth : Nat) (items : List Json) :
    (prettyItems depth items).toList =
      joined (items.map fun item => (indent depth).toList ++ (prettyAt depth item).toList) := by
  induction items with
  | nil => rfl
  | cons item items ih =>
    by_cases hlast : items = []
    · simp [hlast, prettyItems, joined]
    · rw [prettyItems, List.map_cons, joined_cons (by simpa using hlast), ← ih]
      · simp
      · exact hlast

theorem toList_prettyMembers (depth : Nat) (members : List (Option String × Json)) :
    (prettyMembers depth members).toList = joined (members.map fun member =>
      (indent depth).toList ++ ((quote (member.1.getD "")).toList ++
        ':' :: ([' '] ++ (prettyAt depth member.2).toList))) := by
  induction members with
  | nil => rfl
  | cons member members ih =>
    obtain ⟨name, value⟩ := member
    by_cases hlast : members = []
    · simp [hlast, prettyMembers, joined]
    · rw [prettyMembers, List.map_cons, joined_cons (by simpa using hlast), ← ih]
      · simp
      · exact hlast

/-- **The form with a line for each member is read back.** -/
theorem Exact.pretty (h : Exact j) (depth : Nat) : ReadsBack (prettyAt depth j).toList j := by
  induction h generalizing depth with
  | null =>
    rw [prettyAt]
    exact .null
  | bool b =>
    rw [prettyAt]
    exact .bool b
  | number negative whole =>
    rw [prettyAt]
    exact .number negative whole
  | text s =>
    rw [prettyAt]
    exact .text s
  | @array items _ ih =>
    have hparts := forall₂_parts fun item hitem => (ih item hitem (depth + 1)).item
      (blank_indent (depth + 1))
    by_cases hempty : items = []
    · subst hempty
      rw [prettyAt]
      exact .array .nil blank_nil
    · rw [prettyAt]
      · simpa [toList_prettyItems] using ReadsBack.array hparts (blank_indent depth)
      · exact hempty
  | @object members named _ ih =>
    have hparts := forall₂_parts fun member hmember => (ih member hmember (depth + 1)).member
      (named member hmember) (blank_indent (depth + 1)) blank_space
    by_cases hempty : members = []
    · subst hempty
      rw [prettyAt]
      exact .object .nil blank_nil
    · rw [prettyAt]
      · simpa [toList_prettyMembers] using ReadsBack.object hparts (blank_indent depth)
      · exact hempty

/-! ### No blanks -/

theorem toList_compactItems (items : List Json) :
    (compactItems items).toList = joined (items.map fun item => (compact item).toList) := by
  induction items with
  | nil => rfl
  | cons item items ih =>
    by_cases hlast : items = []
    · simp [hlast, compactItems, joined]
    · rw [compactItems, List.map_cons, joined_cons (by simpa using hlast), ← ih]
      · simp
      · exact hlast

theorem toList_compactMembers (members : List (Option String × Json)) :
    (compactMembers members).toList = joined (members.map fun member =>
      (quote (member.1.getD "")).toList ++ ':' :: (compact member.2).toList) := by
  induction members with
  | nil => rfl
  | cons member members ih =>
    obtain ⟨name, value⟩ := member
    by_cases hlast : members = []
    · simp [hlast, compactMembers, joined]
    · rw [compactMembers, List.map_cons, joined_cons (by simpa using hlast), ← ih]
      · simp
      · exact hlast

/-- **The form without blanks is read back.** -/
theorem Exact.compact (h : Exact j) : ReadsBack j.compact.toList j := by
  induction h with
  | null =>
    rw [Json.compact]
    exact .null
  | bool b =>
    rw [Json.compact]
    exact .bool b
  | number negative whole =>
    rw [Json.compact]
    exact .number negative whole
  | text s =>
    rw [Json.compact]
    exact .text s
  | @array items _ ih =>
    have hparts := forall₂_parts fun item hitem => (ih item hitem).item blank_nil
    rw [Json.compact]
    simpa [toList_compactItems] using ReadsBack.array hparts blank_nil
  | @object members named _ ih =>
    have hparts := forall₂_parts fun member hmember => (ih member hmember).member
      (named member hmember) blank_nil blank_nil
    rw [Json.compact]
    simpa [toList_compactMembers] using ReadsBack.object hparts blank_nil

/-! ### Whole texts -/

/-- Blanks may follow. -/
theorem ReadsBack.parse_append {s blank : String} (h : ReadsBack s.toList j)
    (hblank : Blank blank.toList) : parse (s ++ blank) = some j := by
  have hlevels : s.toList.length ≤ 2 * (s ++ blank).toList.length + 2 := by
    rw [String.toList_append, List.length_append]
    omega
  have hread := h.reads _ blank.toList hlevels (by simpa using hblank.closes closes_nil)
  have hend : skipGap blank.toList = [] := by simpa [skipGap] using hblank.skipGap_append []
  rw [parse, parseChars]
  simp only [String.toList_append] at hread ⊢
  rw [h.skipGap_append, hread]
  simp [hend]

theorem ReadsBack.parse {s : String} (h : ReadsBack s.toList j) : parse s = some j := by
  have hparse : Json.parse (s ++ "") = some j := h.parse_append blank_nil
  rwa [String.append_empty] at hparse

theorem parse_pretty (h : Exact j) : parse j.pretty = some j := (h.pretty 0).parse

/-- A text that ends its line is read back too. -/
theorem parse_pretty_line (h : Exact j) : parse (j.pretty ++ "\n") = some j := by
  have hend : Blank "\n".toList := by
    intro c hc
    rw [List.mem_singleton.mp hc]
    rfl
  exact (h.pretty 0).parse_append hend

theorem parse_compact (h : Exact j) : parse j.compact = some j := h.compact.parse

end Upkeep.Json
