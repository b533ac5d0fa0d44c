import Upkeep.Proofs.Calendar
import Upkeep.Proofs.Numerals

/-!
# Instants written and read

The stored form of an instant is read back as the instant. Every field is read by a reader that
would also take other forms, so what there is to show is that it stops where the field was written
to its end: fields have as many digits as their readers take at most, or end where a separator
comes. A leap second is written as second 60, and read back as one.

## Main definitions

* `Instant.Valid`: instants that have a written form.

## Main results

* `Instant.parse_storedText`.
-/

namespace Upkeep.Instant

open Text

/-- The instant has a date and a time of day. -/
structure Valid (a : Instant) : Prop where
  /-- Its year is one that a date can have. -/
  year : yearInRange (dateOfDay a.day).1 = true
  /-- Its fraction is less than a second, that of a leap second aside. -/
  fraction : a.fraction < 2000000000
  /-- Leap seconds come at the end of a minute. -/
  leap : 1000000000 ≤ a.fraction → a.second % 60 = 59

variable {a : Instant} {y : Int} {n w : Nat} {c : Char} {cs rest : List Char}

/-! ### Fields -/

theorem isBlank_of_isDigit (h : c.isDigit = true) : isBlank c = false := by
  obtain ⟨hlow, hhigh⟩ := Char.isDigit_iff_toNat.mp h
  simp only [Char.reduceToNat] at hlow hhigh
  simp only [isBlank, Bool.or_eq_false_iff, Bool.and_eq_false_iff, decide_eq_false_iff_not,
    beq_eq_false_iff_ne]
  omega

theorem trimStart_cons (h : isBlank c = false) : trimStart (c :: rest) = c :: rest := by
  simp [trimStart, h]

/-- Digits are no blanks. -/
theorem trimStart_numeral (h : Numeral n cs) : trimStart (cs ++ rest) = cs ++ rest := by
  obtain ⟨c, cs', rfl⟩ := List.exists_cons_of_ne_nil h.ne_nil
  exact trimStart_cons (isBlank_of_isDigit (h.isDigit c List.mem_cons_self))

theorem readField_padded (h : n < 100) :
    readField ((padded 2 n).toList ++ rest) = some (n, rest) := by
  have hnumeral := numeral_padded 2 n
  have hlength : (padded 2 n).toList.length = 2 := length_padded (by decide) h
  rw [readField, trimStart_numeral hnumeral,
    readDigits_numeral hnumeral (Nat.le_of_eq hlength) (Or.inl hlength)]

theorem readSeparator_cons (h : isBlank c = false) : readSeparator c (c :: rest) = some rest := by
  rw [readSeparator, trimStart_cons h]
  simp

/-! ### The year -/

/-- A year that starts with a digit has no sign. -/
theorem readYear_numeral (h : Numeral n cs) (hlength : cs.length = 4) :
    readYear (cs ++ rest) = some ((n : Int), rest) := by
  have hread : readDigits 4 (cs ++ rest) = some (n, rest) :=
    readDigits_numeral h (Nat.le_of_eq hlength) (Or.inl hlength)
  rw [readYear, trimStart_numeral h]
  split
  case h_3 => rw [hread, Option.map_some]
  all_goals
    next heq =>
      obtain ⟨c, cs', rfl⟩ := List.exists_cons_of_ne_nil h.ne_nil
      have hdigit := h.isDigit c List.mem_cons_self
      obtain ⟨rfl, -⟩ := List.cons.inj heq
      exact absurd hdigit (by decide)

theorem readYear_plus (h : Numeral n cs) (hbreaks : Breaks rest) :
    readYear ('+' :: (cs ++ rest)) = some ((n : Int), rest) := by
  change (readDigits (cs ++ rest).length (cs ++ rest)).map _ = _
  rw [readDigits_numeral h (by simp) (Or.inr hbreaks), Option.map_some]

theorem readYear_minus (h : Numeral n cs) (hbreaks : Breaks rest) :
    readYear ('-' :: (cs ++ rest)) = some (-(n : Int), rest) := by
  change (readDigits (cs ++ rest).length (cs ++ rest)).map _ = _
  rw [readDigits_numeral h (by simp) (Or.inr hbreaks), Option.map_some]

/-- **The year is read back**, with its sign if it has one. -/
theorem readYear_yearText (hbreaks : Breaks rest) :
    readYear ((yearText y).toList ++ rest) = some (y, rest) := by
  have hsigned := numeral_padded 4 y.natAbs
  rw [yearText]
  split
  · next h =>
    simp only [Bool.and_eq_true, decide_eq_true_eq] at h
    rw [readYear_numeral (numeral_padded 4 _) (length_padded (by decide) (by omega)),
      Int.toNat_of_nonneg h.1]
  · rw [String.toList_append, List.append_assoc]
    split
    · next hneg =>
      simp only [String.reduceToList, List.singleton_append]
      rw [readYear_minus hsigned hbreaks, Int.ofNat_natAbs_of_nonpos (Int.le_of_lt hneg),
        Int.neg_neg]
    · next hpos =>
      simp only [String.reduceToList, List.singleton_append]
      rw [readYear_plus hsigned hbreaks, Int.natAbs_of_nonneg (Int.not_lt.mp hpos)]

/-! ### The fraction -/

/-- Zeros at the end need not be written. -/
theorem readFraction_padded (hw : 0 < w) (hmost : w ≤ 9) (h : n / 10 ^ (9 - w) < 10 ^ w)
    (hzeros : n % 10 ^ (9 - w) = 0) (hbreaks : Breaks rest) :
    readFraction (("." ++ padded w (n / 10 ^ (9 - w))).toList ++ rest) = some (n, rest) := by
  have hlength := length_padded hw h
  have hvalue : n / 10 ^ (9 - w) * 10 ^ (9 - w) = n :=
    Nat.div_mul_cancel (Nat.dvd_of_mod_eq_zero hzeros)
  have hrest : rest.dropWhile Char.isDigit = rest := by
    cases rest with
    | nil => rfl
    | cons c rest => simp [hbreaks c rfl]
  simp only [String.toList_append, String.reduceToList, List.cons_append, List.nil_append]
  rw [readFraction, readDigits_numeral (numeral_padded _ _) (by omega) (Or.inr hbreaks),
    Option.map_some]
  simp [hrest, hlength, hvalue]

/-- **The fraction is read back.** -/
theorem readFraction_fractionText (h : n < 1000000000) :
    readFraction ((fractionText n).toList ++ 'Z' :: rest) = some (n, 'Z' :: rest) := by
  have hbreaks : Breaks ('Z' :: rest) := breaks_cons (by decide)
  rw [fractionText]
  split
  · next hzero =>
    rw [beq_iff_eq.mp hzero]
    rfl
  split
  · next hmilli =>
    exact readFraction_padded (w := 3) (by decide) (by decide) (by omega) (beq_iff_eq.mp hmilli)
      hbreaks
  split
  · next hmicro =>
    exact readFraction_padded (w := 6) (by decide) (by decide) (by omega) (beq_iff_eq.mp hmicro)
      hbreaks
  · have hread := readFraction_padded (n := n) (w := 9) (by decide) (by decide) (by omega)
      (Nat.mod_one n) hbreaks
    rwa [Nat.sub_self, Nat.pow_zero, Nat.div_one] at hread

/-! ### The whole -/

/-- The stored form, by its fields. -/
def stamp (y : Int) (m d hour minute sec nanos : Nat) : List Char :=
  (yearText y).toList ++ '-' :: ((padded 2 m).toList ++ '-' :: ((padded 2 d).toList ++ 'T' ::
    ((padded 2 hour).toList ++ ':' :: ((padded 2 minute).toList ++ ':' :: ((padded 2 sec).toList ++
      ((fractionText nanos).toList ++ ['Z']))))))

/-- The second of the minute that a clock shows, which is 60 inside a leap second. -/
def shownSecond (a : Instant) : Nat :=
  a.secondOfDay.toNat % 60 + (if 1000000000 ≤ a.fraction then 1 else 0)

/-- The nanoseconds of that second. -/
def shownNanos (a : Instant) : Nat :=
  if 1000000000 ≤ a.fraction then a.fraction - 1000000000 else a.fraction

theorem toList_storedText (a : Instant) : a.storedText.toList =
    stamp (dateOfDay a.day).1 (dateOfDay a.day).2.1 (dateOfDay a.day).2.2
      (a.secondOfDay.toNat / 3600) (a.secondOfDay.toNat / 60 % 60) a.shownSecond a.shownNanos := by
  rw [storedText, clockText]
  simp only [String.toList_append, String.reduceToList, List.append_assoc, List.cons_append,
    List.nil_append]
  rfl

/-- **The fields are read one after the other**, and then put together. -/
theorem parseChars_stamp {m d hour minute sec nanos : Nat} (hm : m < 100) (hd : d < 100)
    (hhour : hour < 100) (hminute : minute < 100) (hsec : sec < 100) (hnanos : nanos < 1000000000) :
    parseChars (stamp y m d hour minute sec nanos) =
      (ofFields y m d hour minute sec nanos).bind fun here =>
        if yearInRange (dateOfDay here.day).1 then some here else none := by
  have hdash : isBlank '-' = false := by decide
  have hcolon : isBlank ':' = false := by decide
  have hzone : readOffset (trimStart ['Z']) = some (0, []) := by decide
  rw [parseChars, stamp]
  dsimp only [Option.bind_eq_bind]
  rw [readYear_yearText (breaks_cons (by decide)), Option.bind_some,
    readSeparator_cons hdash, Option.bind_some, readField_padded hm, Option.bind_some,
    readSeparator_cons hdash, Option.bind_some, readField_padded hd, Option.bind_some,
    readDateEnd, Option.bind_some, readField_padded hhour, Option.bind_some,
    readSeparator_cons hcolon, Option.bind_some, readField_padded hminute, Option.bind_some,
    readSeparator_cons hcolon, Option.bind_some, readField_padded hsec, Option.bind_some,
    readFraction_fractionText hnanos, Option.bind_some, hzone, Option.bind_some]
  simp only [minusSeconds, Int.sub_zero]
  rfl

theorem ofFields_of_isDate {m d hour minute sec nanos : Nat} (hyear : yearInRange y = true)
    (hdate : IsDate y m d) (hhour : hour < 24) (hminute : minute < 60) (hsec : sec ≤ 60) :
    ofFields y m d hour minute sec nanos = some
      ⟨dayOfDate y m d * daySeconds +
        (hour * 3600 + minute * 60 + (if sec == 60 then 59 else sec) : Nat),
        if sec == 60 then nanos + 1000000000 else nanos⟩ := by
  obtain ⟨⟨hm, hm'⟩, ⟨hd, hd'⟩⟩ := hdate
  rw [ofFields, if_neg]
  simp only [hyear, Bool.not_true, Bool.false_or, Bool.or_eq_true, decide_eq_true_eq]
  omega

theorem IsDate.lt {m d : Nat} (h : IsDate y m d) : m < 100 ∧ d < 100 := by
  obtain ⟨⟨-, hm⟩, -, hd⟩ := h
  have hlength : monthDays y m ≤ 31 := by
    simp only [monthDays]
    split <;> try split
    all_goals decide
  omega

theorem secondOfDay_mem (a : Instant) : 0 ≤ a.secondOfDay ∧ a.secondOfDay < 86400 :=
  ⟨Int.emod_nonneg _ (by decide), Int.emod_lt_of_pos _ (by decide)⟩

theorem second_eq (a : Instant) : a.second = a.day * daySeconds + a.secondOfDay :=
  (Int.ediv_mul_add_emod _ _).symm

/-- Leap seconds come at the end of a minute of the day. -/
theorem Valid.leap_of_day (h : a.Valid) (hleap : 1000000000 ≤ a.fraction) :
    a.secondOfDay.toNat % 60 = 59 := by
  have hsecond := h.leap hleap
  have hsplit := a.second_eq
  obtain ⟨hnonneg, -⟩ := a.secondOfDay_mem
  rw [daySeconds] at hsplit
  omega

theorem shownSecond_le (a : Instant) : a.shownSecond ≤ 60 := by
  rw [shownSecond]
  split <;> omega

theorem Valid.shownNanos_lt (h : a.Valid) : a.shownNanos < 1000000000 := by
  have hfraction := h.fraction
  rw [shownNanos]
  split <;> omega

/-- Second 60 is the last one of its minute once more. -/
theorem Valid.second_shown (h : a.Valid) :
    (if a.shownSecond == 60 then 59 else a.shownSecond) = a.secondOfDay.toNat % 60 := by
  by_cases hleap : 1000000000 ≤ a.fraction
  · simp [shownSecond, hleap, h.leap_of_day hleap]
  · have hlt := Nat.mod_lt a.secondOfDay.toNat (show 60 > 0 by decide)
    simp [shownSecond, hleap, Nat.ne_of_lt hlt]

theorem Valid.fraction_shown (h : a.Valid) :
    (if a.shownSecond == 60 then a.shownNanos + 1000000000 else a.shownNanos) = a.fraction := by
  by_cases hleap : 1000000000 ≤ a.fraction
  · simp [shownSecond, shownNanos, hleap, h.leap_of_day hleap]
  · have hlt := Nat.mod_lt a.secondOfDay.toNat (show 60 > 0 by decide)
    simp [shownSecond, shownNanos, hleap, Nat.ne_of_lt hlt]

/-- **The fields of an instant amount to it.** -/
theorem Valid.ofFields_shown (h : a.Valid) :
    ofFields (dateOfDay a.day).1 (dateOfDay a.day).2.1 (dateOfDay a.day).2.2
      (a.secondOfDay.toNat / 3600) (a.secondOfDay.toNat / 60 % 60) a.shownSecond a.shownNanos =
        some a := by
  obtain ⟨hnonneg, hlt⟩ := a.secondOfDay_mem
  have hclock : ((a.secondOfDay.toNat / 3600 * 3600 + a.secondOfDay.toNat / 60 % 60 * 60 +
      a.secondOfDay.toNat % 60 : Nat) : Int) = a.secondOfDay := by omega
  rw [ofFields_of_isDate h.year (isDate_dateOfDay _) (by omega) (by omega) a.shownSecond_le,
    dayOfDate_dateOfDay, h.second_shown, h.fraction_shown, hclock, ← second_eq]

/-- **What is written is read back.** -/
theorem parse_storedText (h : a.Valid) : parse a.storedText = some a := by
  obtain ⟨hm, hd⟩ := (isDate_dateOfDay a.day).lt
  obtain ⟨hnonneg, hlt⟩ := a.secondOfDay_mem
  have hsec := a.shownSecond_le
  rw [parse, toList_storedText, parseChars_stamp hm hd (by omega) (by omega) (by omega)
    h.shownNanos_lt, h.ofFields_shown, Option.bind_some, if_pos h.year]

end Upkeep.Instant
