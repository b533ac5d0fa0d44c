import Upkeep.Time.Instant

/-!
# Days and dates

Every day has a date, and the day of that date is the day again. The calendar repeats after an era
of 400 years, and years start in March in it, so that a leap day is the last day of its year. What
there is to show is about a single era: the year of a day, which is found by one division after a
correction for the leap days that lie before it, begins no later than the day and ends no sooner.

## Main definitions

* `Instant.yearOfEra`, `Instant.yearStart`: the year of an era that a day of it is in, and the day
  on which a year begins.
* `Instant.InYear`, `Instant.IsDate`: the days that a year has, and a month.

## Main results

* `Instant.isDate_dateOfDay`, `Instant.dayOfDate_dateOfDay`.
-/

namespace Upkeep.Instant

/-- Days in an era. -/
def eraDays : Int := 146097

/-- The day that years in eras are counted from, which is the first of March of the year 0. -/
def dayZero : Int := -719468

/-- The year of its era that a day of it is in. -/
def yearOfEra (d : Int) : Int := (d - d / 1460 + d / 36524 - d / 146096) / 365

/-- The day of its era on which a year begins. -/
def yearStart (y : Int) : Int := 365 * y + y / 4 - y / 100

/-- The year ends with a leap day. -/
def EndsLeap (y : Int) : Prop := y % 4 = 3 ∧ (y % 100 ≠ 99 ∨ y = 399)

/-- The year of an era has the day. -/
structure InYear (y d : Int) : Prop where
  /-- The year is one of the era. -/
  year : 0 ≤ y ∧ y < 400
  /-- Days count from zero. -/
  nonneg : 0 ≤ d
  /-- The last one is a leap day if the year has 366. -/
  day : d < 365 ∨ EndsLeap y ∧ d = 365

/-- The date of a day of a year of an era. -/
def dateIn (era y d : Int) : Int × Nat × Nat :=
  let monthFromMarch := (5 * d + 2) / 153
  let m := if monthFromMarch < 10 then monthFromMarch + 3 else monthFromMarch - 9
  (y + era * 400 + (if m ≤ 2 then 1 else 0), m.toNat,
    (d - (153 * monthFromMarch + 2) / 5 + 1).toNat)

/-- The month of the year has the day. -/
structure IsDate (y : Int) (m d : Nat) : Prop where
  /-- There are twelve months. -/
  month : 1 ≤ m ∧ m ≤ 12
  /-- Days count from one. -/
  day : 1 ≤ d ∧ d ≤ monthDays y m

/-! ### The years of an era -/

/-- **A day is in its year.** -/
theorem inYear_yearOfEra {d : Int} (hd : 0 ≤ d) (hlt : d < eraDays) :
    InYear (yearOfEra d) (d - yearStart (yearOfEra d)) := by
  rw [eraDays] at hlt
  obtain ⟨y, hy⟩ : ∃ y, yearOfEra d = y := ⟨_, rfl⟩
  have hyear : 0 ≤ y ∧ y < 400 := by
    rw [← hy, yearOfEra]
    omega
  suffices hday : 0 ≤ d - yearStart y ∧ (d - yearStart y < 365 ∨
      EndsLeap y ∧ d - yearStart y = 365) by
    rw [hy]
    exact ⟨hyear, hday.1, hday.2⟩
  rw [yearOfEra] at hy
  rw [yearStart, EndsLeap]
  -- The last day of an era would start a fifth century if centuries were of the same length.
  by_cases hlast : d = 146096
  · subst hlast
    omega
  · have hera : d / 146096 = 0 := by omega
    rw [hera] at hy
    have hcentury : d / 36524 = 0 ∨ d / 36524 = 1 ∨ d / 36524 = 2 ∨ d / 36524 = 3 := by omega
    have hsame : d / 36524 = y / 100 := by
      rcases hcentury with h | h | h | h <;> omega
    -- Counted in steps of 1460 days, a day may seem to be in the four years before or after.
    have hleaps : d / 1460 = y / 4 - 1 ∨ d / 1460 = y / 4 ∨ d / 1460 = y / 4 + 1 := by
      rcases hcentury with h | h | h | h <;> omega
    rcases hleaps with h | h | h <;> omega

/-- The leap day is in February of the year after. -/
theorem isLeapYear_of_endsLeap {y : Int} (h : EndsLeap y) (era : Int) :
    isLeapYear (y + era * 400 + 1) = true := by
  rw [EndsLeap] at h
  simp only [isLeapYear, Bool.and_eq_true, Bool.or_eq_true, beq_iff_eq, bne_iff_ne]
  omega

/-! ### The days of a year -/

variable {era y d : Int}

theorem InYear.month_mem (h : InYear y d) : 0 ≤ (5 * d + 2) / 153 ∧ (5 * d + 2) / 153 ≤ 11 := by
  have hnonneg := h.nonneg
  have hday := h.day
  omega

theorem InYear.isDate (h : InYear y d) :
    IsDate (dateIn era y d).1 (dateIn era y d).2.1 (dateIn era y d).2.2 := by
  obtain ⟨month, hmonth⟩ : ∃ month, (5 * d + 2) / 153 = month := ⟨_, rfl⟩
  have hmem := h.month_mem
  have hd := h.nonneg
  rw [hmonth] at hmem
  simp only [dateIn, hmonth]
  -- February is the last month, and has the leap day.
  by_cases hfebruary : month = 11
  · subst hfebruary
    refine ⟨by decide, by omega, ?_⟩
    change _ ≤ if isLeapYear (y + era * 400 + 1) then 29 else 28
    rcases h.day with hday | ⟨hleap, rfl⟩
    · split <;> omega
    · rw [if_pos (isLeapYear_of_endsLeap hleap era)]
      decide
  · have hcases : month = 0 ∨ month = 1 ∨ month = 2 ∨ month = 3 ∨ month = 4 ∨ month = 5 ∨
        month = 6 ∨ month = 7 ∨ month = 8 ∨ month = 9 ∨ month = 10 := by omega
    rcases hcases with rfl | rfl | rfl | rfl | rfl | rfl | rfl | rfl | rfl | rfl | rfl
    all_goals
      refine ⟨by decide, by omega, ?_⟩
      simp only [monthDays, Int.reduceLT, Int.reduceAdd, Int.reduceSub, Int.reduceToNat, if_true,
        if_false]
      omega

/-- The day of a date, by the month counted from March. -/
theorem dayOfDate_eq (era month : Int) {year : Int} {m dayOfMonth : Nat} (hy : 0 ≤ y ∧ y < 400)
    (hyear : (if m ≤ 2 then year - 1 else year) = y + era * 400)
    (hmonth : (((m + 9) % 12 : Nat) : Int) = month) : dayOfDate year m dayOfMonth =
      dayZero + era * eraDays + yearStart y + ((153 * month + 2) / 5 + dayOfMonth - 1) := by
  have hera : (y + era * 400) / 400 = era := by omega
  have hof : (y + era * 400) % 400 = y := by omega
  rw [dayOfDate, hyear, hmonth, hera, hof, dayZero, eraDays, yearStart]
  omega

theorem InYear.dayOfDate_dateIn (h : InYear y d) :
    dayOfDate (dateIn era y d).1 (dateIn era y d).2.1 (dateIn era y d).2.2 =
      dayZero + era * eraDays + yearStart y + d := by
  obtain ⟨month, hmonth⟩ : ∃ month, (5 * d + 2) / 153 = month := ⟨_, rfl⟩
  have hmem := h.month_mem
  have hd := h.nonneg
  rw [hmonth] at hmem
  simp only [dateIn, hmonth]
  rw [dayOfDate_eq era month h.year]
  · omega
  · split <;> split <;> split <;> omega
  · split <;> omega

/-! ### Days and dates -/

theorem dateOfDay_eq (n : Int) : dateOfDay n =
    dateIn ((n - dayZero) / eraDays) (yearOfEra ((n - dayZero) % eraDays))
      ((n - dayZero) % eraDays - yearStart (yearOfEra ((n - dayZero) % eraDays))) := by
  rw [dayZero, eraDays, Int.sub_neg]
  rfl

theorem inYear_of_day (n : Int) : InYear (yearOfEra ((n - dayZero) % eraDays))
    ((n - dayZero) % eraDays - yearStart (yearOfEra ((n - dayZero) % eraDays))) :=
  inYear_yearOfEra (Int.emod_nonneg _ (by decide)) (Int.emod_lt_of_pos _ (by decide))

/-- **The date of a day exists.** -/
theorem isDate_dateOfDay (n : Int) :
    IsDate (dateOfDay n).1 (dateOfDay n).2.1 (dateOfDay n).2.2 := by
  rw [dateOfDay_eq]
  exact (inYear_of_day n).isDate

/-- **The day of the date of a day is the day.** -/
theorem dayOfDate_dateOfDay (n : Int) :
    dayOfDate (dateOfDay n).1 (dateOfDay n).2.1 (dateOfDay n).2.2 = n := by
  have hsplit := Int.mul_ediv_add_emod (n - dayZero) eraDays
  rw [Int.mul_comm] at hsplit
  rw [dateOfDay_eq, (inYear_of_day n).dayOfDate_dateIn]
  omega

end Upkeep.Instant
