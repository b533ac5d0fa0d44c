import Upkeep.Proofs.Numerals
import Upkeep.Text.Utf8

/-!
# JSON literals written and read

A string literal is read back as the text it was written for, whatever characters are in it: each
of them is written as a piece that the reader takes back as the character. A number literal is read
back as the number, unless what comes after it goes on with the number.

## Main definitions

* `Json.Closes`: what does not go on with a number.

## Main results

* `Json.readString_quote`, `Json.readNumber_numberText`.
-/

namespace Upkeep

namespace Text

/-- Texts are UTF-8. -/
theorem decode?_toUTF8 (s : String) : decode? s.toUTF8 = some s := by
  rw [decode?, String.fromUTF8?, String.toUTF8_eq_toByteArray, dif_pos s.isValidUTF8]
  rfl

/-- Nothing in a text is replaced. -/
theorem decodeLossy_toUTF8 (s : String) : decodeLossy s.toUTF8 = s := by
  have hdecode := decode?_toUTF8 s
  rw [decode?] at hdecode
  rw [decodeLossy, hdecode]

end Text

namespace Json

open Text

variable {c : Char} {cs rest : Rest} {n : Nat}

/-! ### Strings -/

/-- The characters that have an escape of their own. -/
def shortEscaped : List Char := ['"', '\\', '\n', '\r', '\t', Char.ofNat 8, Char.ofNat 12]

/-- A hexadecimal digit of a code unit. -/
def unitDigit (k : Nat) : Char := if k < 10 then Char.ofNat (48 + k) else Char.ofNat (87 + k)

theorem escapeChar_of_not_mem (h : c ∉ shortEscaped) : escapeChar c = if c.toNat < 32 then
    ['\\', 'u', '0', '0', unitDigit (c.toNat / 16), unitDigit (c.toNat % 16)] else [c] := by
  have hback : c.toNat = 8 ↔ c = Char.ofNat 8 := by rw [← Char.toNat_inj]; rfl
  have hform : c.toNat = 12 ↔ c = Char.ofNat 12 := by rw [← Char.toNat_inj]; rfl
  simp only [shortEscaped, List.mem_cons, List.not_mem_nil, or_false, not_or] at h
  simp only [escapeChar, beq_iff_eq, hback, hform, h, if_false]
  rfl

theorem hexDigit?_unitDigit {k : Nat} (hk : k < 16) : hexDigit? (unitDigit k) = some k := by
  revert k
  decide

theorem pieceOfUnit_of_lt (h : n < 32) : pieceOfUnit n = .char (Char.ofNat n) := by
  rw [pieceOfUnit, if_neg, if_neg] <;> simp only [Bool.and_eq_true, decide_eq_true_eq] <;> omega

/-- **A character is read back**, escaped or not. -/
theorem readPieces_escapeChar (c : Char) (rest : Rest) :
    readPieces (escapeChar c ++ rest) =
      (readPieces rest).map fun (ps, r) => (Piece.char c :: ps, r) := by
  by_cases hshort : c ∈ shortEscaped
  · simp only [shortEscaped, List.mem_cons, List.not_mem_nil, or_false] at hshort
    rcases hshort with rfl | rfl | rfl | rfl | rfl | rfl | rfl <;> rfl
  · rw [escapeChar_of_not_mem hshort]
    split
    · next hlow =>
      have hhigh := hexDigit?_unitDigit (show c.toNat / 16 < 16 by omega)
      have hdigit := hexDigit?_unitDigit (show c.toNat % 16 < 16 by omega)
      have hzero : hexDigit? '0' = some 0 := by decide
      have hunit : ((0 * 16 + 0) * 16 + c.toNat / 16) * 16 + c.toNat % 16 = c.toNat := by omega
      simp only [List.cons_append, List.nil_append]
      rw [readPieces]
      simp only [hzero, hhigh, hdigit]
      rw [hunit, pieceOfUnit_of_lt hlow, Char.ofNat_toNat]
    · next hplain =>
      simp only [shortEscaped, List.mem_cons, List.not_mem_nil, or_false, not_or] at hshort
      simp only [List.cons_append, List.nil_append]
      rw [readPieces, if_neg hplain]
      all_goals grind

theorem readPieces_quoted (cs rest : Rest) :
    readPieces (cs.flatMap escapeChar ++ '"' :: rest) = some (cs.map Piece.char, rest) := by
  induction cs with
  | nil => rfl
  | cons c cs ih =>
    rw [List.flatMap_cons, List.append_assoc, readPieces_escapeChar, ih]
    rfl

theorem joinPieces_chars (cs : List Char) : joinPieces (cs.map Piece.char) = some cs := by
  induction cs with
  | nil => rfl
  | cons c cs ih => rw [List.map_cons, joinPieces, ih, Option.map_some]

/-- **A text is read back.** -/
theorem readString_quote (s : String) (rest : Rest) :
    readString (s.toList.flatMap escapeChar ++ '"' :: rest) = some (some s, rest) := by
  simp only [readString, readPieces_quoted, Option.map_some, joinPieces_chars, String.ofList_toList]

/-! ### Numbers -/

/-- The characters do not go on with a number. -/
def Closes (cs : Rest) : Prop :=
  ∀ c ∈ cs.head?, c.isDigit = false ∧ c ≠ '.' ∧ c ≠ 'e' ∧ c ≠ 'E'

theorem Closes.breaks (h : Closes rest) : Breaks rest := fun c hc => (h c hc).1

theorem closes_nil : Closes [] := by
  rintro _ ⟨⟩

theorem closes_cons (h : c.isDigit = false ∧ c ≠ '.' ∧ c ≠ 'e' ∧ c ≠ 'E') : Closes (c :: rest) := by
  rintro _ ⟨⟩
  exact h

/-- No number but zero starts with a zero. -/
theorem exists_toDigits (h : 0 < n) : ∃ c cs, Nat.toDigits 10 n = c :: cs ∧ c ≠ '0' := by
  induction n using Nat.strongRecOn with
  | ind n ih =>
    by_cases hlt : n < 10
    · refine ⟨n.digitChar, [], Nat.toDigits_of_lt_base hlt, fun hzero => ?_⟩
      have hvalue := Nat.toNat_digitChar_of_lt_ten hlt
      rw [hzero] at hvalue
      have hcode : '0'.toNat = 48 := rfl
      omega
    · obtain ⟨c, cs, hdigits, hc⟩ := ih (n / 10) (by omega) (by omega)
      refine ⟨c, cs ++ [(n % 10).digitChar], ?_, hc⟩
      rw [Nat.toDigits_of_base_le (by decide) (by omega), hdigits, List.cons_append]

theorem readWhole_toString (hbreaks : Breaks rest) :
    readWhole ((toString n).toList ++ rest) = some (n, rest) := by
  rw [toList_toString]
  rcases Nat.eq_zero_or_pos n with rfl | hpos
  · rw [Nat.toDigits_zero]
    cases rest with
    | nil => rfl
    | cons c rest =>
      simp [readWhole, hbreaks c rfl]
  · obtain ⟨c, cs, hdigits, hc⟩ := exists_toDigits hpos
    have hread := readDigits_numeral (numeral_toDigits n) hbreaks
    rw [hdigits] at hread ⊢
    rw [List.cons_append, readWhole]
    · exact hread
    all_goals grind

theorem readFraction_closes (h : Closes rest) : readFraction rest = some (false, rest) := by
  cases rest with
  | nil => rfl
  | cons c rest =>
    obtain ⟨-, hpoint, -⟩ := h c rfl
    rw [readFraction]
    grind

theorem readExponent_closes (h : Closes rest) : readExponent rest = some (false, rest) := by
  cases rest with
  | nil => rfl
  | cons c rest =>
    obtain ⟨-, -, hsmall, hlarge⟩ := h c rfl
    simp [readExponent, hsmall, hlarge]

/-- A number without a sign starts with a digit. -/
theorem toString_ne_cons (hc : c.isDigit = false) (n : Nat) (rest cs : Rest) :
    (toString n).toList ++ rest ≠ c :: cs := by
  obtain ⟨c', cs', hdigits⟩ := List.exists_cons_of_ne_nil (numeral_toDigits n).ne_nil
  have hdigit := (numeral_toDigits n).isDigit c' (hdigits ▸ List.mem_cons_self)
  rw [toList_toString, hdigits]
  rintro ⟨⟩
  exact Bool.false_ne_true (hc.symm.trans hdigit)

/-- **A number is read back.** -/
theorem readNumber_numberText (negative : Bool) (hcloses : Closes rest) :
    readNumber ((numberText negative n).toList ++ rest) = some (.number negative n true, rest) := by
  have hwhole := readWhole_toString (n := n) hcloses.breaks
  have hfraction := readFraction_closes hcloses
  have hexponent := readExponent_closes hcloses
  rw [numberText, String.toList_append, List.append_assoc]
  cases negative with
  | true =>
    simp only [if_true, String.reduceToList, List.singleton_append, readNumber,
      Option.bind_eq_bind, hwhole, Option.bind_some, hfraction, hexponent]
    rfl
  | false =>
    simp only [Bool.false_eq_true, if_false, String.reduceToList, List.nil_append]
    rw [readNumber]
    · simp only [Option.bind_eq_bind, hwhole, Option.bind_some, hfraction, hexponent]
      rfl
    · exact toString_ne_cons (by decide) n rest

end Json

end Upkeep
