import Mathlib.Algebra.Group.Nat.Defs
import Upkeep.Download.Backoff

/-!
# How long is waited between attempts

The time to wait is given for the first attempt and should double with every attempt, up to a
maximum. Chance may add up to half of it again.

The powers of two that this takes are soon too large for numbers of 64 bits, and there are two
guards against them, which are not alike. A product that is too large is replaced by the largest
number. The maximum is not larger than that, so nothing is lost (`delay_eq`, `toNat_delay64`). But
the time is doubled 32 times at most, however many attempts there have been. That goes unnoticed
where the maximum is reached by then. Elsewhere the time stays below the maximum for good, and from
the 34th attempt on it is too short (`delay_of_not_suffices`).

## Main definitions

* `Backoff.mul64`, `Backoff.delay64`: the time as it is computed in numbers of 32 and 64 bits.
* `Backoff.Suffices`: 32 doublings are enough.

## Main results

* `Backoff.toNat_delay64`: nothing wraps around.
* `Backoff.delay_eq_iff`, `Backoff.delay_succ_eq_iff`: when the time doubles as it should.
* `Backoff.exists_rest_iff`: what chance makes of a time.
* `Backoff.paced`: all of it, for every attempt and all settings.
-/

namespace Upkeep.Backoff

variable {attempt later base most : Nat}

/-! ### Numbers of 64 bits -/

/-- The product, or the largest number if the product does not fit. -/
def mul64 (a b : UInt64) : UInt64 :=
  if 0 < b ∧ .ofNat largest / b < a then .ofNat largest else a * b

/-- The time to wait after an attempt, computed in numbers that have a width. -/
def delay64 (attempt : UInt32) (base most : UInt64) : UInt64 :=
  let doublings : UInt32 := min (if 0 < attempt then attempt - 1 else 0) 32
  min (mul64 base (1 <<< doublings.toUInt64)) most

theorem toNat_min32 (a b : UInt32) : (min a b).toNat = min a.toNat b.toNat := by
  change (if a ≤ b then a else b).toNat = min a.toNat b.toNat
  rw [Nat.min_def, apply_ite UInt32.toNat]
  rfl

theorem toNat_min64 (a b : UInt64) : (min a b).toNat = min a.toNat b.toNat := by
  change (if a ≤ b then a else b).toNat = min a.toNat b.toNat
  rw [Nat.min_def, apply_ite UInt64.toNat]
  rfl

theorem toNat_mul64 (a b : UInt64) : (mul64 a b).toNat = min (a.toNat * b.toNat) largest := by
  have hoverflow : (0 < b ∧ .ofNat largest / b < a) ↔ largest < a.toNat * b.toNat := by
    rw [UInt64.lt_iff_toNat_lt, UInt64.lt_iff_toNat_lt, UInt64.toNat_div]
    constructor
    · rintro ⟨hpos, hlt⟩
      exact (Nat.div_lt_iff_lt_mul hpos).mp hlt
    · intro hlt
      have hpos : 0 < b.toNat := Nat.pos_of_mul_pos_left (Nat.zero_lt_of_lt hlt)
      exact ⟨hpos, (Nat.div_lt_iff_lt_mul hpos).mpr hlt⟩
  rw [mul64]
  split
  · rename_i hlarge
    exact (Nat.min_eq_right (Nat.le_of_lt (hoverflow.mp hlarge))).symm
  · rename_i hfits
    have hle : a.toNat * b.toNat ≤ largest := Nat.le_of_not_lt (mt hoverflow.mpr hfits)
    rw [UInt64.toNat_mul, Nat.min_eq_left hle]
    exact Nat.mod_eq_of_lt (Nat.lt_succ_of_le hle)

/-- A power of two within the width. -/
theorem toNat_one_shiftLeft {n : UInt64} (hn : n.toNat < 64) : (1 <<< n).toNat = 2 ^ n.toNat := by
  rw [UInt64.toNat_shiftLeft, Nat.mod_eq_of_lt hn, UInt64.toNat_one, Nat.one_shiftLeft]
  exact Nat.mod_eq_of_lt (Nat.pow_lt_pow_right (by decide) hn)

/-- **Nothing wraps around**: there is an attempt to subtract, the power of two fits, and a product
that does not fit is replaced. -/
theorem toNat_delay64 (attempt : UInt32) (base most : UInt64) :
    (delay64 attempt base most).toNat = delay attempt.toNat base.toNat most.toNat := by
  have hbefore : (if 0 < attempt then attempt - 1 else 0 : UInt32).toNat = attempt.toNat - 1 := by
    split
    · rename_i hpos
      exact UInt32.toNat_sub_of_le _ _ (UInt32.le_iff_toNat_le.mpr (UInt32.lt_iff_toNat_lt.mp hpos))
    · rename_i hzero
      rw [UInt32.lt_iff_toNat_lt, Nat.not_lt, UInt32.toNat_zero] at hzero
      rw [UInt32.toNat_zero, Nat.sub_eq_zero_of_le (Nat.le_succ_of_le hzero)]
  have hdoublings : (min (if 0 < attempt then attempt - 1 else 0) 32 : UInt32).toUInt64.toNat =
      min (attempt.toNat - 1) 32 := by
    rw [UInt32.toNat_toUInt64, toNat_min32, hbefore]
    rfl
  have hwithin : min (attempt.toNat - 1) 32 < 64 :=
    Nat.lt_of_le_of_lt (Nat.min_le_right _ _) (by decide)
  rw [delay64, delay, toNat_min64, toNat_mul64, toNat_one_shiftLeft (hdoublings ▸ hwithin),
    hdoublings]
  rfl

/-! ### How often the time doubles -/

/-- The doublings that are made at most are enough, for the attempt or to get to the maximum. -/
def Suffices (attempt base most : Nat) : Prop := attempt ≤ 33 ∨ base = 0 ∨ most ≤ base * 2 ^ 32

instance : Decidable (Suffices attempt base most) := inferInstanceAs (Decidable (_ ∨ _ ∨ _))

/-- What the largest number replaces, the maximum replaces anyway. -/
theorem delay_eq (hmost : most ≤ largest) :
    delay attempt base most = min (base * 2 ^ min (attempt - 1) 32) most := by
  rw [delay, Nat.min_assoc, Nat.min_eq_right hmost]
  rfl

/-- The time does not become shorter. -/
theorem delay_mono (hlater : attempt ≤ later) :
    delay attempt base most ≤ delay later base most := by
  have hdoublings : min (attempt - 1) 32 ≤ min (later - 1) 32 := by omega
  have hproduct : base * Nat.pow 2 (min (attempt - 1) 32) ≤ base * Nat.pow 2 (min (later - 1) 32) :=
    Nat.mul_le_mul_left base (Nat.pow_le_pow_right (by decide) hdoublings)
  rw [delay, delay]
  omega

/-- While 32 doublings are enough, the time is as long as it should be. -/
theorem delay_of_suffices (hmost : most ≤ largest) (hs : Suffices attempt base most) :
    delay attempt base most = min (base * 2 ^ (attempt - 1)) most := by
  rw [delay_eq hmost]
  by_cases hearly : attempt ≤ 33
  · rw [Nat.min_eq_left (by omega : attempt - 1 ≤ 32)]
  · have hpow : base * 2 ^ 32 ≤ base * 2 ^ (attempt - 1) :=
      Nat.mul_le_mul_left base (Nat.pow_le_pow_right (by decide) (by omega))
    rw [Nat.min_eq_right (by omega : 32 ≤ attempt - 1)]
    rcases hs with hearly' | rfl | hreached
    · exact absurd hearly' hearly
    · rw [Nat.zero_mul, Nat.zero_mul]
    · rw [Nat.min_eq_right hreached, Nat.min_eq_right (Nat.le_trans hreached hpow)]

/-- Where they are not, the time is that of the 33rd attempt, which is too short. -/
theorem delay_of_not_suffices (hmost : most ≤ largest) (hs : ¬Suffices attempt base most) :
    delay attempt base most = base * 2 ^ 32 ∧
      base * 2 ^ 32 < min (base * 2 ^ (attempt - 1)) most := by
  obtain ⟨hlate, hbase, hbelow⟩ : 33 < attempt ∧ base ≠ 0 ∧ base * 2 ^ 32 < most := by
    simpa [Suffices] using hs
  have hpow : base * 2 ^ 32 < base * 2 ^ (attempt - 1) :=
    Nat.mul_lt_mul_of_pos_left (Nat.pow_lt_pow_right (by decide) (by omega))
      (Nat.pos_of_ne_zero hbase)
  rw [delay_eq hmost, Nat.min_eq_right (by omega : 32 ≤ attempt - 1)]
  exact ⟨Nat.min_eq_left (Nat.le_of_lt hbelow), Nat.lt_min.mpr ⟨hpow, hbelow⟩⟩

/-- **When the time is as long as it should be**. -/
theorem delay_eq_iff (hmost : most ≤ largest) :
    delay attempt base most = min (base * 2 ^ (attempt - 1)) most ↔ Suffices attempt base most := by
  by_cases hs : Suffices attempt base most
  · exact iff_of_true (delay_of_suffices hmost hs) hs
  · obtain ⟨hdelay, hshort⟩ := delay_of_not_suffices hmost hs
    rw [hdelay]
    exact iff_of_false (Nat.ne_of_lt hshort) hs

/-- **When the next time is twice as long**, or as long as may be: as long as another doubling
counts. -/
theorem delay_succ_eq_iff (hfirst : 1 ≤ attempt) (hmost : most ≤ largest) :
    delay (attempt + 1) base most = min (2 * delay attempt base most) most ↔
      Suffices (attempt + 1) base most := by
  by_cases hs : Suffices (attempt + 1) base most
  · have hs' : Suffices attempt base most := hs.imp_left Nat.le_of_succ_le
    have hdouble : base * 2 ^ (attempt + 1 - 1) = 2 * (base * 2 ^ (attempt - 1)) := by
      obtain ⟨n, rfl⟩ := Nat.exists_eq_add_of_le' hfirst
      rw [Nat.add_sub_cancel, Nat.add_sub_cancel, Nat.pow_succ, Nat.mul_comm 2, Nat.mul_assoc]
    refine iff_of_true ?_ hs
    rw [delay_of_suffices hmost hs, delay_of_suffices hmost hs', hdouble]
    omega
  · obtain ⟨hdelay, hshort⟩ := delay_of_not_suffices hmost hs
    have hlate : 33 ≤ attempt :=
      Nat.le_of_lt_succ (Nat.lt_of_not_le fun hearly => hs (.inl hearly))
    -- the attempt before has had all its doublings, too
    have hdelay' : delay attempt base most = base * 2 ^ 32 := by
      rw [← hdelay, delay_eq hmost, delay_eq hmost, Nat.min_eq_right (Nat.le_sub_of_add_le hlate),
        Nat.min_eq_right (Nat.le_sub_of_add_le (Nat.le_succ_of_le hlate))]
    have hbase : base ≠ 0 := fun hzero => hs (.inr (.inl hzero))
    refine iff_of_false ?_ hs
    rw [hdelay, hdelay']
    omega

/-! ### Chance -/

/-- **What chance makes of a time**: any that is at least as long and at most half as long again. -/
theorem exists_rest_iff {delay wait : Nat} :
    (∃ chance, rest delay chance = wait) ↔ delay ≤ wait ∧ 2 * wait ≤ 3 * delay := by
  constructor
  · rintro ⟨chance, rfl⟩
    have hadded : chance % (delay / 2 + 1) < delay / 2 + 1 := Nat.mod_lt _ (Nat.succ_pos _)
    rw [rest]
    omega
  · rintro ⟨hle, hhalf⟩
    refine ⟨wait - delay, ?_⟩
    rw [rest, Nat.mod_eq_of_lt (by omega)]
    exact Nat.add_sub_cancel' hle

/-- A time to wait can be told in seconds, whatever chance adds. -/
theorem seconds_rest_lt {delay : Nat} (hdelay : delay ≤ largest) (chance : Nat) :
    (Span.ofMillis (rest delay chance)).seconds < 2 ^ 64 := by
  have hhalf : 2 * rest delay chance ≤ 3 * delay := (exists_rest_iff.mp ⟨chance, rfl⟩).2
  change rest delay chance * 1000000 / 1000000000 < 2 ^ 64
  rw [largest] at hdelay
  omega

/-! ### All attempts and settings -/

/-- **How long is waited between attempts.** The time is computed without wrapping around. It is the
time of the first attempt, doubled with every attempt and at most the maximum, just if 32 doublings
are enough for that. Otherwise it has been doubled so often, and is too short. It never becomes
shorter, and the next one is twice as long, or the maximum, just if 32 doublings are enough for the
next attempt. By chance the wait is as long or longer, by half of the time at most, and never has
more seconds than can be counted. -/
theorem paced (attempt : UInt32) (base most : UInt64) (hfirst : 1 ≤ attempt) :
    let delayed := delay attempt.toNat base.toNat most.toNat
    let doubled := min (base.toNat * 2 ^ (attempt.toNat - 1)) most.toNat
    (delay64 attempt base most).toNat = delayed ∧
      (delayed = doubled ↔ Suffices attempt.toNat base.toNat most.toNat) ∧
      (¬Suffices attempt.toNat base.toNat most.toNat →
        delayed = base.toNat * 2 ^ 32 ∧ delayed < doubled) ∧
      (∀ later, attempt.toNat ≤ later → delayed ≤ delay later base.toNat most.toNat) ∧
      (delay (attempt.toNat + 1) base.toNat most.toNat = min (2 * delayed) most.toNat ↔
        Suffices (attempt.toNat + 1) base.toNat most.toNat) ∧
      (∀ wait, (∃ chance, rest delayed chance = wait) ↔ delayed ≤ wait ∧ 2 * wait ≤ 3 * delayed) ∧
      ∀ chance, (Span.ofMillis (rest delayed chance)).seconds < 2 ^ 64 := by
  intro delayed doubled
  have hmost : most.toNat ≤ largest := Nat.le_of_lt_succ most.toNat_lt
  have hcapped : delayed ≤ largest := by
    refine Nat.le_trans ?_ hmost
    exact Nat.min_le_right _ _
  refine ⟨toNat_delay64 attempt base most, delay_eq_iff hmost, fun hs => ?_,
    fun later => delay_mono, delay_succ_eq_iff (UInt32.le_iff_toNat_le.mp hfirst) hmost,
    fun wait => exists_rest_iff, fun chance => seconds_rest_lt hcapped chance⟩
  obtain ⟨hdelay, hshort⟩ := delay_of_not_suffices hmost hs
  exact ⟨hdelay, Nat.lt_of_le_of_lt (Nat.le_of_eq hdelay) hshort⟩

/-- The last attempt whose time is as it should be at any settings, and the longest wait that may
come of it. -/
theorem paced_late :
    (1 : UInt32) ≤ 33 ∧ (delay64 33 3 18446744073709551615).toNat = 3 * 2 ^ 32 ∧
      delay 34 3 18446744073709551615 ≠ 2 * delay 33 3 18446744073709551615 ∧
      ∃ chance, rest (delay 33 3 18446744073709551615) chance = 19327352832 := by
  have hfirst : (1 : UInt32) ≤ 33 := by decide
  obtain ⟨hwidth, hexact, -, -, hdouble, hrest, -⟩ := paced 33 3 18446744073709551615 hfirst
  have hdelay := hexact.mpr (by decide)
  refine ⟨hfirst, hwidth.trans (hdelay.trans (by decide)), fun hnext => ?_, ?_⟩
  · exact absurd (hdouble.mp (hnext.trans (by decide))) (by decide)
  · exact (hrest 19327352832).mpr (by decide)

/-- **The time may stop doubling before it is the maximum.** After the 34th attempt it should be
8589934592 milliseconds at these settings, and it is half of that. -/
theorem delay_stalls :
    ¬∀ (attempt : UInt32) (base most : UInt64), 1 ≤ attempt →
      delay attempt.toNat base.toNat most.toNat =
        min (base.toNat * 2 ^ (attempt.toNat - 1)) most.toNat := by
  intro hall
  have hshort : delay 34 1 10000000000 = 4294967296 := by decide
  have hlong : delay 34 1 10000000000 = 8589934592 := hall 34 1 10000000000 (by decide)
  rw [hshort] at hlong
  exact absurd hlong (by decide)

end Upkeep.Backoff
