import Mathlib.Algebra.Order.Ring.Int
import Mathlib.Tactic.Linarith
import Libtcr.SleepTimes
import Libtcr.TimerListInvariant

/-! The deadline of a call of `tc_sleep`, and the values for `timerfd_settime`. -/

set_option autoImplicit false

namespace Libtcr

open Binary64 hiding round

private theorem toLong_of_long {x : Int} (low : -2 ^ 63 ≤ x) (high : x < 2 ^ 63) : toLong x = x :=
  Int.bmod_eq_of_le (by omega) (by omega)

/-! ## The carry loop -/

/-- The numbers of nanoseconds with which the loop calculates exactly: multiples of `2 ^ k` with a
significand of at most 53 bits, where `2 ^ k` divides `10 ^ 9`. -/
structure ExactNsec (k : Nat) (x : Int) : Prop where
  small : k ≤ 9
  nonneg : 0 ≤ x
  dvd : (2 ^ k : Int) ∣ x
  bound : x ≤ 2 ^ (53 + k)

namespace ExactNsec

variable {k : Nat} {x : Int}

private theorem round_eq (exact_ : ExactNsec k x) : Binary64.round x = x := by
  obtain ⟨n, rfl⟩ := Int.eq_ofNat_of_zero_le exact_.nonneg
  have dvd : 2 ^ k ∣ n := by exact_mod_cast exact_.dvd
  have bound : n ≤ 2 ^ (53 + k) := by exact_mod_cast exact_.bound
  rw [round_natCast, roundNat_exact dvd bound]

private theorem lt_long (exact_ : ExactNsec k x) : x < 2 ^ 63 := by
  have power : (2 : Int) ^ (53 + k) ≤ 2 ^ 62 :=
    pow_le_pow_right₀ (by decide) (by have := exact_.small; omega)
  have bound := exact_.bound
  omega

theorem sub (exact_ : ExactNsec k x) (above : 10 ^ 9 < x) : ExactNsec k (x - 10 ^ 9) := by
  refine ⟨exact_.small, by omega, ?_, by have := exact_.bound; omega⟩
  have second : (2 ^ k : Int) ∣ 10 ^ 9 :=
    (pow_dvd_pow 2 exact_.small).trans ⟨1953125, by norm_num⟩
  exact Int.dvd_sub exact_.dvd second

end ExactNsec

private theorem carryLoop_exact {k fuel : Nat} {sec x : Int} (exact_ : ExactNsec k x)
    (enough : x < fuel * 10 ^ 9) (positive : 0 ≤ sec) (fits : sec + x / 10 ^ 9 < 2 ^ 63) :
    ∃ i : Int, 0 ≤ i ∧ carryLoop fuel ⟨sec, x⟩ = some ⟨sec + i, x - i * 10 ^ 9⟩ ∧
      0 ≤ x - i * 10 ^ 9 ∧ x - i * 10 ^ 9 ≤ 10 ^ 9 := by
  induction fuel generalizing sec x with
  | zero => have := exact_.nonneg; omega
  | succ fuel ih =>
      have rounded := exact_.round_eq
      by_cases above : 10 ^ 9 < x
      · have less := exact_.sub above
        have below := less.lt_long
        have quotient : x / 10 ^ 9 = (x - 10 ^ 9) / 10 ^ 9 + 1 := by omega
        obtain ⟨i, many, looped, low, high⟩ := @ih (sec + 1) _ less (by push_cast at enough; omega)
          (by omega) (by omega)
        have nonneg := less.nonneg
        have longSec : toLong (sec + 1) = sec + 1 := toLong_of_long (by omega) (by omega)
        have longNsec : toLong (x - 10 ^ 9) = x - 10 ^ 9 := toLong_of_long (by omega) below
        refine ⟨i + 1, by omega, ?_, by linarith, by linarith⟩
        simp only [carryLoop, rounded, if_pos above, less.round_eq, longSec, longNsec]
        rw [looped]
        congr 2
        · ring
        · ring
      · refine ⟨0, le_rfl, ?_, by have := exact_.nonneg; omega, by omega⟩
        simp only [carryLoop, rounded, if_neg above]
        simp

private theorem round_exactNsec {n : Nat} (bound : n < 2 ^ 62) :
    ExactNsec (n.log2 - 52) (Binary64.round n) := by
  have small : n.log2 - 52 ≤ 9 := by
    rcases Nat.eq_zero_or_pos n with rfl | positive
    · decide
    · have log : n.log2 < 62 := (Nat.log2_lt (by omega)).mpr bound
      omega
  rw [round_natCast]
  refine ⟨small, Int.natCast_nonneg _, ?_, ?_⟩
  · exact_mod_cast ulp_dvd_roundNat n
  · exact_mod_cast roundNat_le n

private theorem carryLoop_round {fuel n : Nat} {sec : Int} (bound : n < 2 ^ 62) :
    carryLoop (fuel + 1) ⟨sec, n⟩ = carryLoop (fuel + 1) ⟨sec, Binary64.round n⟩ := by
  by_cases large : 2 ^ 53 ≤ n
  · have above : 10 ^ 9 < Binary64.round n := by
      rw [round_natCast]
      have := le_roundNat large
      omega
    simp only [carryLoop, (round_exactNsec bound).round_eq, if_pos above]
  · rw [round_natCast, roundNat_exact (k := 0) (one_dvd n) (by omega)]

/-! ## The deadline -/

/-- Nothing overflows in the calculation of the deadline, and the subtraction of a second in type
`double` is exact. -/
def deadlineFits (now : Timespec) (sec nsec : Int) : Bool :=
  now.nsec + nsec < 2 ^ 62 && now.sec + sec + Binary64.round (now.nsec + nsec) / 10 ^ 9 < 2 ^ 63

/-- The deadline is the sum as a `double`, in whole seconds and at most one second in
nanoseconds. -/
theorem sleepDeadline_eq {now : Timespec} {sec nsec : Int} (valid : now.valid = true)
    (secs : 0 ≤ sec) (nsecs : 0 ≤ nsec) (fits : deadlineFits now sec nsec = true) :
    ∃ i : Int, 0 ≤ i ∧ sleepDeadline now sec nsec =
      some ⟨now.sec + sec + i, Binary64.round (now.nsec + nsec) - i * 10 ^ 9⟩ ∧
      0 ≤ Binary64.round (now.nsec + nsec) - i * 10 ^ 9 ∧
      Binary64.round (now.nsec + nsec) - i * 10 ^ 9 ≤ 10 ^ 9 := by
  simp only [Timespec.valid, deadlineFits, Bool.and_eq_true, decide_eq_true_eq] at valid fits
  obtain ⟨n, sum⟩ := Int.eq_ofNat_of_zero_le (show 0 ≤ now.nsec + nsec by omega)
  rw [sum] at fits ⊢
  have bound : n < 2 ^ 62 := by omega
  have exact_ := round_exactNsec bound
  have below := exact_.lt_long
  have nonneg := exact_.nonneg
  have longSec : toLong (now.sec + sec) = now.sec + sec := toLong_of_long (by omega) (by omega)
  have longNsec : toLong (n : Int) = n := toLong_of_long (by omega) (by omega)
  rw [sleepDeadline, sum, longSec, longNsec]
  rw [show 2 ^ 34 = (2 ^ 34 - 1) + 1 from rfl, carryLoop_round bound]
  exact carryLoop_exact exact_ (by omega) (by omega) fits.2

/-! ## The comparison of times -/

section Times

variable {ts absEnd value : Timespec}

theorem Timespec.valid_iff : ts.valid = true ↔ 0 ≤ ts.sec ∧ 0 ≤ ts.nsec ∧ ts.nsec < 10 ^ 9 := by
  simp [Timespec.valid, and_assoc]

/-- A deadline of at most one second in nanoseconds that has passed for `compare_ts_times` has
passed. -/
theorem total_le_of_compareTsTimes (valid : ts.valid = true) (bound : absEnd.nsec ≤ 10 ^ 9)
    (after : 0 ≤ compareTsTimes ts absEnd) : absEnd.total ≤ ts.total := by
  rw [compareTsTimes_nonneg, compareTsTimes_neg] at after
  rw [Timespec.valid_iff] at valid
  unfold Timespec.total
  omega

private theorem timerDeltaDest_eq (valid : ts.valid = true) (deadline : absEnd.valid = true) :
    0 ≤ (timerDeltaDest absEnd ts).nsec ∧ (timerDeltaDest absEnd ts).nsec < 10 ^ 9 ∧
      (timerDeltaDest absEnd ts).total = absEnd.total - ts.total := by
  rw [Timespec.valid_iff] at valid deadline
  unfold timerDeltaDest Timespec.total
  dsimp only
  split_ifs <;> dsimp only <;> omega

theorem timerDelta_iff : timerDelta absEnd ts = true ↔ (timerDeltaDest absEnd ts).sec < 0 ∨
    (timerDeltaDest absEnd ts).sec = 0 ∧ (timerDeltaDest absEnd ts).nsec ≤ 0 := by
  simp [timerDelta, timerDeltaDest]

theorem itValue_valid (valid : ts.valid = true) (deadline : absEnd.valid = true)
    (programmed : itValue absEnd ts = some value) : value.valid = true ∧ 0 < value.total := by
  obtain ⟨low, high, difference⟩ := timerDeltaDest_eq valid deadline
  unfold itValue at programmed
  rw [Timespec.valid_iff] at valid deadline ⊢
  unfold Timespec.total at difference ⊢
  split_ifs at programmed with early far
  · cases programmed
    omega
  · have positive := timerDelta_iff.not.mp early
    cases programmed
    omega

end Times

end Libtcr
