import Mathlib.Algebra.Group.Nat.Defs
import Upkeep.Json.Reader
import Upkeep.Time.Instant

/-!
# Numbers written and read

A number is written as a run of digits, and filled up with zeros where there is a width. Both
readers of numbers, that of JSON texts and that of instants, take a run of digits back as the
number, whatever comes after it, if that cannot be taken for more digits.

## Main definitions

* `Text.Numeral`: a run of digits and its number.
* `Text.Breaks`: what does not go on with a digit.

## Main results

* `Text.numeral_toString`, `Text.numeral_padded`: what is written.
* `Json.readDigits_numeral`, `Instant.readDigits_numeral`: what is read.
-/

namespace Upkeep

namespace Text

/-- The characters are a run of digits and stand for the number. -/
structure Numeral (n : Nat) (cs : List Char) : Prop where
  /-- There is a digit. -/
  ne_nil : cs ≠ []
  /-- There is nothing else. -/
  isDigit : ∀ c ∈ cs, c.isDigit = true
  /-- They stand for the number. -/
  value : cs.foldl (fun n c => n * 10 + (c.toNat - 48)) 0 = n

/-- The characters do not go on with a digit. -/
def Breaks (cs : List Char) : Prop := ∀ c ∈ cs.head?, c.isDigit = false

variable {n w : Nat} {cs rest : List Char}

theorem breaks_cons {c : Char} (h : c.isDigit = false) : Breaks (c :: rest) := by
  rintro _ ⟨⟩
  exact h

theorem foldl_digits (cs : List Char) (init : Nat) :
    cs.foldl (fun n c => n * 10 + (c.toNat - 48)) init = Nat.ofDigitChars 10 cs init := by
  simp only [Nat.ofDigitChars_eq_foldl, Nat.mul_comm 10]
  rfl

/-! ### What is written -/

theorem numeral_toDigits (n : Nat) : Numeral n (Nat.toDigits 10 n) where
  ne_nil := Nat.toDigits_ne_nil
  isDigit _ hc := Nat.isDigit_of_mem_toDigits (by decide) (by decide) hc
  value := by rw [foldl_digits, Nat.ofDigitChars_ten_toDigits]

/-- Zeros in front change nothing. -/
theorem Numeral.zeros (h : Numeral n cs) (k : Nat) : Numeral n (List.replicate k '0' ++ cs) where
  ne_nil := List.append_ne_nil_of_right_ne_nil _ h.ne_nil
  isDigit c hc := by
    rcases List.mem_append.mp hc with hzero | hc
    · rw [List.eq_of_mem_replicate hzero]
      rfl
    · exact h.isDigit c hc
  value := by
    rw [foldl_digits, Nat.ofDigitChars_append, Nat.ofDigitChars_replicate_zero, Nat.mul_zero,
      ← foldl_digits]
    exact h.value

theorem toList_toString (n : Nat) : (toString n).toList = Nat.toDigits 10 n := by
  rw [Nat.toString_eq_ofList_toDigits, String.toList_ofList]

theorem toList_padded (w n : Nat) : (padded w n).toList =
    List.replicate (w - (Nat.toDigits 10 n).length) '0' ++ Nat.toDigits 10 n := by
  rw [padded, String.toList_append, String.toList_ofList, ← String.length_toList, toList_toString]

theorem numeral_padded (w n : Nat) : Numeral n (padded w n).toList :=
  toList_padded w n ▸ (numeral_toDigits n).zeros _

/-- A width is kept by the numbers that fit. -/
theorem length_padded (hw : 0 < w) (h : n < 10 ^ w) : (padded w n).toList.length = w := by
  have hlength := (Nat.length_toDigits_le_iff (by decide) hw).mpr h
  rw [toList_padded, List.length_append, List.length_replicate]
  omega

/-! ### What is read -/

/-- A run of digits ends where something else comes. -/
theorem Numeral.takeWhile_append (h : Numeral n cs) (hbreaks : Breaks rest) :
    (cs ++ rest).takeWhile Char.isDigit = cs := by
  rw [List.takeWhile_append_of_pos h.isDigit]
  cases rest with
  | nil => simp
  | cons c rest => simp [hbreaks c rfl]

end Text

open Text

variable {n most : Nat} {cs rest : List Char}

theorem Json.readDigits_numeral (h : Numeral n cs) (hbreaks : Breaks rest) :
    Json.readDigits (cs ++ rest) = some (n, rest) := by
  rw [Json.readDigits, h.takeWhile_append hbreaks, List.isEmpty_eq_false_iff.mpr h.ne_nil,
    if_neg Bool.false_ne_true, h.value, List.drop_left]

/-- It may also end because no more digits are asked for. -/
theorem Instant.readDigits_numeral (h : Numeral n cs) (hmost : cs.length ≤ most)
    (hbreaks : cs.length = most ∨ Breaks rest) :
    Instant.readDigits most (cs ++ rest) = some (n, rest) := by
  have hrest : Breaks (rest.take (most - cs.length)) := by
    rcases hbreaks with hall | hbreaks
    · simp [hall, Breaks]
    · intro c hc
      rw [List.head?_take] at hc
      split at hc
      · cases hc
      · exact hbreaks c hc
  rw [Instant.readDigits, List.take_append, List.take_of_length_le hmost, h.takeWhile_append hrest,
    List.isEmpty_eq_false_iff.mpr h.ne_nil, if_neg Bool.false_ne_true, h.value, List.drop_left]

end Upkeep
