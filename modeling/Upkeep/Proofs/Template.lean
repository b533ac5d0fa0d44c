import Mathlib.Data.List.Forall2
import Upkeep.Proofs.Splitting
import Upkeep.Text.Template

/-!
# How templates are divided

The braces of a template need not match, and what stands between two of them need not be a known
name. The scan takes what comes before the next closing brace for a name, wherever that brace is,
and where it is none the scan goes on right after the opening brace. So it is to be shown that no
placeholder is missed because the scan was busy with something else.

The reason is that names have no braces in them. Two placeholders then have no character in common,
and whatever the scan takes for a name without finding one, it only steps over a brace. A template
can therefore be divided at any placeholder in it, and the parts can be divided by themselves
(`Template.divide_append`).

This tells a division without the scan: its pieces are the template, one after the other, and every
placeholder that occurs in the template is one of them. There is one such division and no other, and
it depends on the names alone. Values come in afterwards, so nothing is ever looked for in them.

## Main definitions

* `Template.placeholder`, `Template.Piece.source`: what slots and pieces are in the template.
* `Template.Divides`: what a division is.
* `Template.First`, `Template.Piece.Becomes`: the value of a name, and what a piece becomes.

## Main results

* `Template.piecesFrom_eq`: the scan comes to its end.
* `Template.divide_append`: a template is divided at any placeholder.
* `Template.divides_iff`: the division of a template is what the scan finds.
* `Template.fill_divided`: what becomes of a template.
-/

namespace Upkeep.Template

/-! ### Placeholders -/

/-- A known name in braces. -/
def placeholder (key : String) : List Char := '{' :: key.toList ++ ['}']

theorem placeholder_inj {key key' : String} : placeholder key = placeholder key' ↔ key = key' := by
  simp [placeholder, String.toList_inj]

theorem valueOf_eq (values : List (String × String)) (key : String) :
    valueOf values key = ((values.find? fun entry => entry.1 == key).map Prod.snd).getD "" := by
  unfold valueOf
  split
  · rename_i key' value h
    have hfind : values.find? (fun entry => entry.1 == key) = some (key', value) := h
    rw [hfind]
    rfl
  · rename_i h
    have hfind : values.find? (fun entry => entry.1 == key) = none := h
    rw [hfind]
    rfl

theorem fill_eq (template : String) (values : List (String × String)) :
    fill template values =
      String.ofList ((piecesFrom (values.map Prod.fst) template.toList.length
        template.toList).flatMap (Piece.text values)) := rfl

/-- A template begins with a placeholder, which is a piece, or with no placeholder, and then its
first character is a piece. -/
theorem piecesFrom_cons {keys : List String} (hkeys : ∀ key ∈ keys, '}' ∉ key.toList) (fuel : Nat)
    (c : Char) (text : List Char) :
    (∃ key ∈ keys, ∃ after, c :: text = placeholder key ++ after ∧
      piecesFrom keys (fuel + 1) (c :: text) = .slot key :: piecesFrom keys fuel after) ∨
    ((∀ key ∈ keys, ¬placeholder key <+: c :: text) ∧
      piecesFrom keys (fuel + 1) (c :: text) = .char c :: piecesFrom keys fuel text) := by
  by_cases hc : c = '{'
  · subst hc
    cases hcut : Text.cut '}' text with
    | none =>
      refine Or.inr ⟨fun key hkey hstart => ?_, ?_⟩
      · obtain ⟨after, hafter⟩ := hstart
        obtain rfl : key.toList ++ '}' :: after = text := by simpa [placeholder] using hafter
        rw [Text.cut_append (hkeys key hkey)] at hcut
        cases hcut
      · simp [piecesFrom, hcut]
    | some parts =>
      obtain ⟨name, after⟩ := parts
      have htext := Text.eq_append_of_cut hcut
      by_cases hname : String.ofList name ∈ keys
      · refine Or.inl ⟨String.ofList name, hname, after, ?_, ?_⟩
        · simp [placeholder, htext]
        · simp [piecesFrom, hcut, hname]
      · refine Or.inr ⟨fun key hkey hstart => ?_, ?_⟩
        · obtain ⟨after', hafter⟩ := hstart
          obtain rfl : key.toList ++ '}' :: after' = text := by simpa [placeholder] using hafter
          rw [Text.cut_append (hkeys key hkey)] at hcut
          cases hcut
          exact hname (by simpa using hkey)
        · simp [piecesFrom, hcut, hname]
  · refine Or.inr ⟨fun key hkey hstart => ?_, ?_⟩
    · obtain ⟨after, hafter⟩ := hstart
      exact hc (List.cons.inj hafter).1.symm
    · rw [piecesFrom]
      exact hc

variable {keys keys' : List String} {key : String} {text before after : List Char}
  {ps : List Piece}

/-- A placeholder that a template begins with is a piece. -/
theorem piecesFrom_placeholder (hend : '}' ∉ key.toList) (hkey : key ∈ keys) (fuel : Nat)
    (after : List Char) :
    piecesFrom keys (fuel + 1) (placeholder key ++ after) =
      .slot key :: piecesFrom keys fuel after := by
  have hplaceholder : placeholder key ++ after = '{' :: (key.toList ++ '}' :: after) := by
    simp [placeholder]
  rw [hplaceholder, piecesFrom, Text.cut_append hend]
  simp [hkey]

/-- **Placeholders have no character in common.** If one stands somewhere after the beginning of a
text that begins with another, then it stands after the whole of that. -/
theorem exists_of_placeholder_append {key' : String} {c : Char} {after' : List Char}
    (hstart : '{' ∉ key'.toList)
    (h : c :: before ++ placeholder key ++ after = placeholder key' ++ after') :
    ∃ between, c :: before = placeholder key' ++ between ∧
      after' = between ++ placeholder key ++ after := by
  rw [List.append_assoc] at h
  rcases List.append_eq_append_iff.mp h with ⟨rest, hwhole, hrest⟩ | ⟨between, hbetween, hafter⟩
  · cases rest with
    | nil => exact ⟨[], by simpa using hwhole.symm, by simpa using hrest.symm⟩
    | cons d rest =>
      -- the opening brace of the second would be within the first
      obtain rfl : '{' = d := (List.cons.inj hrest).1
      have htail : key'.toList ++ ['}'] = before ++ '{' :: rest := (List.cons.inj hwhole).2
      have hmem : '{' ∈ key'.toList ++ ['}'] := by simp [htail]
      rcases List.mem_append.mp hmem with hmem | hmem
      · exact absurd hmem hstart
      · simp at hmem
  · exact ⟨between, hbetween, by rw [hafter, List.append_assoc]⟩

/-! ### The scan -/

/-- **The scan comes to its end**: as many steps as there are characters are enough, and more of
them change nothing. -/
theorem piecesFrom_eq {fuel fuel' : Nat} (hfuel : text.length ≤ fuel)
    (hfuel' : text.length ≤ fuel') : piecesFrom keys fuel text = piecesFrom keys fuel' text := by
  induction fuel generalizing text fuel' with
  | zero =>
    obtain rfl := List.length_eq_zero_iff.mp (Nat.le_zero.mp hfuel)
    cases fuel' <;> rfl
  | succ fuel ih =>
    cases text with
    | nil => cases fuel' <;> rfl
    | cons c rest =>
      cases fuel' with
      | zero => cases hfuel'
      | succ fuel' =>
        have hrest := ih (Nat.le_of_succ_le_succ hfuel) (Nat.le_of_succ_le_succ hfuel')
        by_cases hc : c = '{'
        · subst hc
          rw [piecesFrom, piecesFrom]
          cases hcut : Text.cut '}' rest with
          | none => simp only [hrest]
          | some parts =>
            obtain ⟨name, after⟩ := parts
            have hshorter : after.length ≤ rest.length := by
              rw [Text.eq_append_of_cut hcut]
              simp
              omega
            have hafter := ih
              (Nat.le_trans hshorter (Nat.le_of_succ_le_succ hfuel))
              (Nat.le_trans hshorter (Nat.le_of_succ_le_succ hfuel'))
            simp only [hrest, hafter]
        · have hchar (fuel : Nat) :
              piecesFrom keys (fuel + 1) (c :: rest) = .char c :: piecesFrom keys fuel rest := by
            rw [piecesFrom]
            exact hc
          rw [hchar, hchar, hrest]

/-- The division that the scan finds. -/
def divide (keys : List String) (text : List Char) : List Piece :=
  piecesFrom keys text.length text

theorem divide_placeholder (hend : '}' ∉ key.toList) (hkey : key ∈ keys) (after : List Char) :
    divide keys (placeholder key ++ after) = .slot key :: divide keys after := by
  have hlength : (placeholder key ++ after).length = key.toList.length + 1 + after.length + 1 := by
    simp [placeholder]
    omega
  rw [divide, hlength, piecesFrom_placeholder hend hkey,
    piecesFrom_eq (Nat.le_add_left after.length _) (Nat.le_refl _), divide]

theorem divide_char (hkeys : ∀ key ∈ keys, '}' ∉ key.toList) {c : Char}
    (hnone : ∀ key ∈ keys, ¬placeholder key <+: c :: text) :
    divide keys (c :: text) = .char c :: divide keys text := by
  rcases piecesFrom_cons hkeys text.length c text with
    ⟨key, hkey, after, htext, -⟩ | ⟨-, hpieces⟩
  · exact absurd ⟨after, htext.symm⟩ (hnone key hkey)
  · exact hpieces

/-- **A template is divided at any placeholder in it**, and its parts are divided by themselves. -/
theorem divide_append (hkeys : ∀ key ∈ keys, '{' ∉ key.toList ∧ '}' ∉ key.toList)
    (hkey : key ∈ keys) (before after : List Char) :
    divide keys (before ++ placeholder key ++ after) =
      divide keys before ++ .slot key :: divide keys after := by
  have hends : ∀ key ∈ keys, '}' ∉ key.toList := fun key hkey => (hkeys key hkey).2
  -- the scan may step over a placeholder, so this is about everything shorter
  induction hlength : before.length using Nat.strongRecOn generalizing before with
  | ind n ih =>
    subst hlength
    cases before with
    | nil => exact divide_placeholder (hends key hkey) hkey after
    | cons c before =>
      by_cases hstart : ∃ key' ∈ keys, placeholder key' <+: c :: before ++ placeholder key ++ after
      · obtain ⟨key', hkey', after', hafter'⟩ := hstart
        obtain ⟨between, hbetween, rfl⟩ :=
          exists_of_placeholder_append (hkeys key' hkey').1 hafter'.symm
        have hshorter : between.length < (c :: before).length := by
          rw [hbetween]
          simp [placeholder]
          omega
        rw [← hafter', divide_placeholder (hends key' hkey') hkey', ih _ hshorter between rfl,
          hbetween, divide_placeholder (hends key' hkey') hkey', List.cons_append]
      · have hnone : ∀ key' ∈ keys,
            ¬placeholder key' <+: c :: (before ++ placeholder key ++ after) :=
          fun key' hkey' hbegins => hstart ⟨key', hkey', hbegins⟩
        have hnone' : ∀ key' ∈ keys, ¬placeholder key' <+: c :: before := by
          intro key' hkey' hbegins
          refine hnone key' hkey' (hbegins.trans ?_)
          exact ⟨placeholder key ++ after, by simp⟩
        rw [List.cons_append, List.cons_append, divide_char hends hnone,
          ih _ (Nat.lt_succ_self _) before rfl, divide_char hends hnone', List.cons_append]

/-! ### Divisions -/

/-- What a piece is in the template. -/
def Piece.source : Piece → List Char
  | .char c => [c]
  | .slot key => placeholder key

/-- The template that pieces are the division of. -/
def sources (ps : List Piece) : List Char := ps.flatMap Piece.source

/-- A division of a template: its pieces are the template, one after the other, only names are
slots, and every placeholder that occurs in the template is one of them. -/
structure Divides (keys : List String) (text : List Char) (ps : List Piece) : Prop where
  /-- The pieces are the template. -/
  whole : sources ps = text
  /-- Only names are slots. -/
  known : ∀ key, .slot key ∈ ps → key ∈ keys
  /-- Wherever a placeholder stands in the template, there is a slot. -/
  occurring : ∀ key ∈ keys, ∀ before after, text = before ++ placeholder key ++ after →
    ∃ qs rs, ps = qs ++ .slot key :: rs ∧ sources qs = before ∧ sources rs = after

theorem Piece.source_ne_nil (p : Piece) : p.source ≠ [] := by
  cases p <;> simp [source, placeholder]

theorem sources_cons (p : Piece) (ps : List Piece) : sources (p :: ps) = p.source ++ sources ps :=
  rfl

/-- The first piece of a division is the placeholder that the template begins with, or its first
character. -/
theorem exists_divide_cons (hkeys : ∀ key ∈ keys, '}' ∉ key.toList) (c : Char)
    (text : List Char) : ∃ p after, c :: text = p.source ++ after ∧
      divide keys (c :: text) = p :: divide keys after ∧
      ∀ key, p = .slot key → key ∈ keys := by
  by_cases hstart : ∃ key ∈ keys, placeholder key <+: c :: text
  · obtain ⟨key, hkey, after, hafter⟩ := hstart
    refine ⟨.slot key, after, hafter.symm, ?_, ?_⟩
    · rw [← hafter]
      exact divide_placeholder (hkeys key hkey) hkey after
    · rintro _ ⟨⟩
      exact hkey
  · have hnone : ∀ key ∈ keys, ¬placeholder key <+: c :: text :=
      fun key hkey hbegins => hstart ⟨key, hkey, hbegins⟩
    exact ⟨.char c, text, rfl, divide_char hkeys hnone, by simp⟩

/-- What the scan finds is the template, and only names are slots in it. -/
theorem sources_divide (hkeys : ∀ key ∈ keys, '}' ∉ key.toList) (text : List Char) :
    sources (divide keys text) = text ∧ ∀ key, .slot key ∈ divide keys text → key ∈ keys := by
  induction hlength : text.length using Nat.strongRecOn generalizing text with
  | ind n ih =>
    subst hlength
    cases text with
    | nil => exact ⟨rfl, by simp [divide, piecesFrom]⟩
    | cons c text =>
      obtain ⟨p, after, hsource, hdivide, hp⟩ := exists_divide_cons hkeys c text
      have hshorter : after.length < (c :: text).length := by
        have hpositive := List.length_pos_iff.mpr p.source_ne_nil
        rw [hsource, List.length_append]
        omega
      obtain ⟨hwhole, hknown⟩ := ih _ hshorter after rfl
      rw [hdivide]
      refine ⟨by rw [sources_cons, hwhole, hsource], fun key hkey => ?_⟩
      rcases List.mem_cons.mp hkey with heq | hmem
      · exact hp key heq.symm
      · exact hknown key hmem

theorem divides_divide (hkeys : ∀ key ∈ keys, '{' ∉ key.toList ∧ '}' ∉ key.toList)
    (text : List Char) : Divides keys text (divide keys text) := by
  have hends : ∀ key ∈ keys, '}' ∉ key.toList := fun key hkey => (hkeys key hkey).2
  obtain ⟨hwhole, hknown⟩ := sources_divide hends text
  refine ⟨hwhole, hknown, fun key hkey before after htext => ?_⟩
  refine ⟨divide keys before, divide keys after, ?_, (sources_divide hends before).1,
    (sources_divide hends after).1⟩
  rw [htext, divide_append hkeys hkey]

/-- Without its first piece a division is one of what is left of the template. -/
theorem Divides.tail {p : Piece} (h : Divides keys text (p :: ps)) :
    Divides keys (sources ps) ps := by
  refine ⟨rfl, fun key hkey => h.known key (List.mem_cons_of_mem p hkey), ?_⟩
  intro key hkey before after htext
  have hwhole : text = p.source ++ before ++ placeholder key ++ after := by
    rw [← h.whole, sources_cons, htext]
    simp
  obtain ⟨qs, rs, hps, hqs, hrs⟩ := h.occurring key hkey _ after hwhole
  cases qs with
  | nil => exact absurd (List.append_eq_nil_iff.mp hqs.symm).1 p.source_ne_nil
  | cons q qs =>
    obtain ⟨rfl, htail⟩ := List.cons.inj hps
    exact ⟨qs, rs, htail, List.append_cancel_left hqs, hrs⟩

/-- **There is no other division** than what the scan finds. -/
theorem Divides.eq_divide (hkeys : ∀ key ∈ keys, '}' ∉ key.toList) (h : Divides keys text ps) :
    ps = divide keys text := by
  induction ps generalizing text with
  | nil =>
    obtain rfl : [] = text := h.whole
    rfl
  | cons p ps ih =>
    have hrest := ih h.tail
    cases p with
    | slot key =>
      have hkey := h.known key List.mem_cons_self
      rw [← h.whole, sources_cons, Piece.source, divide_placeholder (hkeys key hkey) hkey, ← hrest]
    | char c =>
      have hwhole : c :: sources ps = text := h.whole
      have hnone : ∀ key ∈ keys, ¬placeholder key <+: c :: sources ps := by
        -- a placeholder at the beginning would have to be the first piece
        rintro key hkey ⟨after, hafter⟩
        obtain ⟨qs, rs, hps, hqs, -⟩ :=
          h.occurring key hkey [] after (hwhole.symm.trans hafter.symm)
        cases qs with
        | nil => cases hps
        | cons q qs => exact absurd (List.append_eq_nil_iff.mp hqs).1 q.source_ne_nil
      rw [← hwhole, divide_char hkeys hnone, ← hrest]

/-- **The division of a template** is what the scan finds. -/
theorem divides_iff (hkeys : ∀ key ∈ keys, '{' ∉ key.toList ∧ '}' ∉ key.toList) :
    Divides keys text ps ↔ ps = divide keys text := by
  constructor
  · exact fun h => h.eq_divide fun key hkey => (hkeys key hkey).2
  · rintro rfl
    exact divides_divide hkeys text

/-- It depends on the names, and neither on their order nor on how often they are listed. -/
theorem Divides.congr (hsame : ∀ key, key ∈ keys' ↔ key ∈ keys) (h : Divides keys text ps) :
    Divides keys' text ps where
  whole := h.whole
  known key hkey := (hsame key).mpr (h.known key hkey)
  occurring key hkey := h.occurring key ((hsame key).mp hkey)

/-! ### Values -/

/-- A value is the first one that is listed for a name. -/
def First (values : List (String × String)) (key value : String) : Prop :=
  ∃ before after, values = before ++ (key, value) :: after ∧ key ∉ before.map Prod.fst

/-- What a piece becomes: a character stays, and a slot gives way to the first value that is listed
for its name. -/
inductive Piece.Becomes (values : List (String × String)) : Piece → List Char → Prop where
  /-- A character. -/
  | char (c : Char) : Becomes values (.char c) [c]
  /-- A slot. -/
  | slot {key value : String} (first : First values key value) :
    Becomes values (.slot key) value.toList

variable {values : List (String × String)} {value : String}

theorem exists_first (h : key ∈ values.map Prod.fst) : ∃ value, First values key value := by
  induction values with
  | nil => cases h
  | cons entry values ih =>
    obtain ⟨key', value'⟩ := entry
    by_cases hkey : key = key'
    · subst hkey
      exact ⟨value', [], values, rfl, List.not_mem_nil⟩
    · rcases List.mem_cons.mp h with heq | hmem
      · exact absurd heq hkey
      · obtain ⟨value, before, after, rfl, hbefore⟩ := ih hmem
        refine ⟨value, (key', value') :: before, after, rfl, ?_⟩
        rw [List.map_cons, List.mem_cons, not_or]
        exact ⟨hkey, hbefore⟩

theorem First.valueOf_eq (h : First values key value) : valueOf values key = value := by
  obtain ⟨before, after, rfl, hbefore⟩ := h
  have hnone : before.find? (fun entry => entry.1 == key) = none := by
    rw [List.find?_eq_none]
    intro entry hentry heq
    exact hbefore (List.mem_map.mpr ⟨entry, hentry, eq_of_beq heq⟩)
  rw [Template.valueOf_eq, List.find?_append, hnone]
  simp

theorem becomes_text (hknown : ∀ key, .slot key ∈ ps → key ∈ values.map Prod.fst) :
    List.Forall₂ (Piece.Becomes values) ps (ps.map (Piece.text values)) := by
  rw [List.forall₂_map_right_iff, List.forall₂_same]
  intro p hp
  cases p with
  | char c => exact .char c
  | slot key =>
    obtain ⟨value, hvalue⟩ := exists_first (hknown key hp)
    rw [Piece.text, hvalue.valueOf_eq]
    exact .slot hvalue

theorem fill_eq_divide (template : String) (values : List (String × String)) :
    fill template values = String.ofList
      ((divide (values.map Prod.fst) template.toList).flatMap (Piece.text values)) := rfl

/-- A template is filled on both sides of a placeholder by itself, and the value of the placeholder
stands between. -/
theorem fill_append (hkeys : ∀ key ∈ values.map Prod.fst, '{' ∉ key.toList ∧ '}' ∉ key.toList)
    (hvalue : First values key value) (before after : String) :
    fill (before ++ String.ofList (placeholder key) ++ after) values =
      fill before values ++ value ++ fill after values := by
  have hkey : key ∈ values.map Prod.fst := by
    obtain ⟨front, back, rfl, -⟩ := hvalue
    simp
  rw [fill_eq_divide, fill_eq_divide, fill_eq_divide, ← String.toList_inj]
  simp only [String.toList_append, String.toList_ofList]
  rw [divide_append hkeys hkey, List.flatMap_append, List.flatMap_cons, Piece.text,
    hvalue.valueOf_eq, List.append_assoc]

/-- **What becomes of a template.** If the names have no braces in them, there is one division of
the template, and all values that are listed for these names come into it: every piece becomes what
it does, and the result is what the pieces have become. The scan finds this division in as many
steps as the template has characters, or in more. And wherever a placeholder stands, its value is
taken as it is, and what is before and after it is filled as if it were a template of its own. -/
theorem fill_divided (template : String) (keys : List String)
    (hkeys : ∀ key ∈ keys, '{' ∉ key.toList ∧ '}' ∉ key.toList) :
    ∃ ps : List Piece,
      Divides keys template.toList ps ∧
      (∀ qs, Divides keys template.toList qs → qs = ps) ∧
      (∀ steps, template.length ≤ steps → piecesFrom keys steps template.toList = ps) ∧
      ∀ values : List (String × String), (∀ key, key ∈ values.map Prod.fst ↔ key ∈ keys) →
        (∃ texts, List.Forall₂ (Piece.Becomes values) ps texts ∧
          fill template values = String.ofList texts.flatten) ∧
        ∀ (key value before after : String), First values key value →
          template = before ++ String.ofList (placeholder key) ++ after →
            fill template values = fill before values ++ value ++ fill after values := by
  have hdivides : Divides keys template.toList (divide keys template.toList) :=
    (divides_iff hkeys).mpr rfl
  refine ⟨divide keys template.toList, hdivides, fun qs => (divides_iff hkeys).mp, ?_, ?_⟩
  · intro steps hsteps
    exact piecesFrom_eq hsteps (Nat.le_refl _)
  · intro values hnames
    have hnamed : ∀ key ∈ values.map Prod.fst, '{' ∉ key.toList ∧ '}' ∉ key.toList :=
      fun key hkey => hkeys key ((hnames key).mp hkey)
    have hsame : divide keys template.toList = divide (values.map Prod.fst) template.toList :=
      (divides_iff hnamed).mp (hdivides.congr hnames)
    refine ⟨⟨_, becomes_text fun key hkey => (hnames key).mpr (hdivides.known key hkey), ?_⟩, ?_⟩
    · rw [fill_eq_divide, ← hsame, List.flatMap_def]
    · rintro key value before after hvalue rfl
      exact fill_append hnamed hvalue before after

/-- A placeholder after an opening brace that nothing closes, and another one. -/
def nested : String := "\x7b\x7btitle\x7d: \x7bbody\x7d"

/-- Values for both, the first of which has the other placeholder in it. -/
def told : List (String × String) := [("title", "T \x7bbody\x7d"), ("body", "B"), ("title", "U")]

/-- The brace that nothing closes stays, and so does the placeholder in the value. -/
theorem fill_divided_nested :
    (∀ key ∈ ["title", "body"], '{' ∉ key.toList ∧ '}' ∉ key.toList) ∧
    Divides ["title", "body"] nested.toList
      [.char '{', .slot "title", .char ':', .char ' ', .slot "body"] ∧
    First told "title" "T \x7bbody\x7d" ∧
    fill nested told =
      fill "\x7b" told ++ "T \x7bbody\x7d" ++ fill ": \x7bbody\x7d" told := by
  have hkeys : ∀ key ∈ ["title", "body"], '{' ∉ key.toList ∧ '}' ∉ key.toList := by decide
  have hfirst : First told "title" "T \x7bbody\x7d" :=
    ⟨[], [("body", "B"), ("title", "U")], rfl, List.not_mem_nil⟩
  obtain ⟨ps, hdivides, -, hscan, hfilled⟩ := fill_divided nested ["title", "body"] hkeys
  refine ⟨hkeys, ?_, hfirst, ?_⟩
  · have hpieces : piecesFrom ["title", "body"] 17 nested.toList =
        [.char '{', .slot "title", .char ':', .char ' ', .slot "body"] := by decide +kernel
    rw [← hpieces, hscan 17 (by decide)]
    exact hdivides
  · have hnames : ∀ key, key ∈ told.map Prod.fst ↔ key ∈ ["title", "body"] := by
      intro key
      simp [told]
      tauto
    exact (hfilled told hnames).2 "title" _ "\x7b" ": \x7bbody\x7d" hfirst (by decide +kernel)

end Upkeep.Template
