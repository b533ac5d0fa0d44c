import Upkeep.Marker
import Upkeep.Proofs.Timestamps

/-!
# The distance of instants

A clock shows no leap seconds, and outside them an instant is a number of nanoseconds: instants come
one before the other as their numbers do, and the length of time between them is the difference. So
whether a run is due is a matter of arithmetic.

## Main definitions

* `Instant.Plain`, `Instant.count`: the instants that a clock shows, and their numbers.

## Main results

* `Instant.before_iff`, `Instant.nanosSince_eq`: order and distance.
* `Marker.isDue_iff`, `Marker.not_due_iff`: when a run is due, and when not.
-/

namespace Upkeep

namespace Instant

/-- The instant is one that a clock shows. -/
structure Plain (a : Instant) : Prop where
  /-- It is outside leap seconds. -/
  fraction : a.fraction < 1000000000
  /-- Its year is one that a date can have. -/
  year : yearInRange (dateOfDay a.day).1 = true

/-- Nanoseconds since the start of 1970. -/
def count (a : Instant) : Int := a.second * 1000000000 + a.fraction

variable {a b : Instant}

theorem Plain.valid (ha : a.Plain) : a.Valid where
  year := ha.year
  fraction := Nat.lt_trans ha.fraction (by decide)
  leap hleap := absurd ha.fraction (Nat.not_lt.mpr hleap)

theorem before_iff_of_fraction (ha : a.fraction < 1000000000) (hb : b.fraction < 1000000000) :
    a.before b = true ↔ a.count < b.count := by
  simp only [before, count, Bool.or_eq_true, Bool.and_eq_true, decide_eq_true_eq, beq_iff_eq]
  omega

theorem before_iff (ha : a.Plain) (hb : b.Plain) : a.before b = true ↔ a.count < b.count :=
  before_iff_of_fraction ha.fraction hb.fraction

theorem not_before_iff (ha : a.Plain) (hb : b.Plain) :
    a.before b = false ↔ b.count ≤ a.count := by
  rw [← Bool.not_eq_true, before_iff ha hb, Int.not_lt]

/-- No leap second is on the way. -/
theorem nanosSince_of_fraction (ha : a.fraction < 1000000000) (hb : b.fraction < 1000000000) :
    a.nanosSince b = a.count - b.count := by
  rw [nanosSince, if_neg (Nat.not_le.mpr hb), if_neg (Nat.not_le.mpr ha)]
  simp only [ite_self, count]
  omega

theorem nanosSince_eq (ha : a.Plain) (hb : b.Plain) : a.nanosSince b = a.count - b.count :=
  nanosSince_of_fraction ha.fraction hb.fraction

end Instant

/-- **When a run is due**: the last one lies in the future, or is at least so long ago. -/
theorem Marker.isDue_iff {last now : Instant} {interval : Span} (hlast : last.Plain)
    (hnow : now.Plain) (positive : 0 < interval.nanos) :
    isDue (some last) now interval = true ↔
      now.before last = true ∨ (interval.nanos : Int) ≤ now.nanosSince last := by
  have hnonzero : (interval.nanos == 0) = false := by simpa using Nat.ne_of_gt positive
  rw [isDue, hnonzero, Bool.false_or]
  cases hbefore : now.before last with
  | true => simp
  | false =>
    have hdistance : 0 ≤ now.nanosSince last := by
      rw [Instant.nanosSince_eq hnow hlast]
      have hcount := (Instant.not_before_iff hnow hlast).mp hbefore
      omega
    rw [if_neg Bool.false_ne_true, Instant.since?, if_neg (Int.not_lt.mpr hdistance)]
    simp only [decide_eq_true_eq, Bool.false_eq_true, false_or]
    omega

/-- **When a run is not due**: there was one, a time is required to pass between runs, and of that
time some is left, as of a run that does not lie in the future. -/
theorem Marker.not_due_iff {last : Option Instant} {now : Instant} {interval : Span}
    (hnow : now.fraction < 1000000000) (hlast : ∀ m ∈ last, m.fraction < 1000000000) :
    isDue last now interval = false ↔ ∃ m, last = some m ∧ 0 < interval.nanos ∧
      m.count ≤ now.count ∧ now.count - m.count < interval.nanos := by
  cases last with
  | none => simp [isDue]
  | some m =>
    have hbefore := Instant.before_iff_of_fraction hnow (hlast m rfl)
    have hdistance := Instant.nanosSince_of_fraction hnow (hlast m rfl)
    rw [isDue]
    by_cases hopen : interval.nanos = 0 ∨ now.count < m.count
    · have hpasses : (interval.nanos == 0 || now.before m) = true := by simpa [hbefore] using hopen
      rw [if_pos hpasses]
      simp only [Bool.true_eq_false, false_iff, not_exists, not_and, Option.some.injEq]
      rintro m rfl hpositive hpast
      omega
    · have hshut : ¬(interval.nanos == 0 || now.before m) = true := by simpa [hbefore] using hopen
      rw [if_neg hshut, Instant.since?, if_neg (by omega)]
      simp only [decide_eq_false_iff_not, Option.some.injEq, exists_eq_left']
      omega

end Upkeep
