import Mathlib.Data.Nat.Log
import Mathlib.Tactic.Ring

/-! Integers as values of type `double`: the conversion of an integer to binary64, which rounds to
the nearest value and between two of them to the one whose significand is even. -/

set_option autoImplicit false

namespace Libtcr.Binary64

/-- The distance of the values around `n`, which have a significand of 53 bits. -/
def ulp (n : Nat) : Nat := 2 ^ (n.log2 - 52)

def roundNat (n : Nat) : Nat :=
  if 2 * (n % ulp n) < ulp n ∨ 2 * (n % ulp n) = ulp n ∧ n / ulp n % 2 = 0 then n / ulp n * ulp n
  else (n / ulp n + 1) * ulp n

/-- The conversion of an integer to `double`, and of the exact result of an operation. -/
def round (x : Int) : Int :=
  if 0 ≤ x then roundNat x.toNat else -roundNat (-x).toNat

variable {n k : Nat}

theorem ulp_pos (n : Nat) : 0 < ulp n := Nat.two_pow_pos _

theorem ulp_dvd_roundNat (n : Nat) : ulp n ∣ roundNat n := by
  unfold roundNat
  split
  · exact Nat.dvd_mul_left _ _
  · exact Nat.dvd_mul_left _ _

theorem roundNat_of_dvd (dvd : ulp n ∣ n) : roundNat n = n := by
  have exact_ : n % ulp n = 0 := Nat.mod_eq_zero_of_dvd dvd
  unfold roundNat
  rw [if_pos (.inl (by rw [exact_]; exact ulp_pos n))]
  exact Nat.div_mul_cancel dvd

theorem ulp_dvd (dvd : 2 ^ k ∣ n) (bound : n ≤ 2 ^ (53 + k)) : ulp n ∣ n := by
  rcases Nat.lt_or_eq_of_le bound with below | rfl
  · rcases Nat.eq_zero_or_pos n with rfl | positive
    · exact Nat.dvd_zero _
    · have log : n.log2 < 53 + k := (Nat.log2_lt (Nat.pos_iff_ne_zero.mp positive)).mpr below
      exact (Nat.pow_dvd_pow 2 (by omega)).trans dvd
  · unfold ulp
    rw [Nat.log2_two_pow]
    exact Nat.pow_dvd_pow 2 (by omega)

theorem roundNat_exact (dvd : 2 ^ k ∣ n) (bound : n ≤ 2 ^ (53 + k)) : roundNat n = n :=
  roundNat_of_dvd (ulp_dvd dvd bound)

theorem roundNat_le (n : Nat) : roundNat n ≤ 2 ^ (53 + (n.log2 - 52)) := by
  have below : n / ulp n < 2 ^ 53 := by
    apply (Nat.div_lt_iff_lt_mul (ulp_pos n)).mpr
    calc n < 2 ^ (n.log2 + 1) := Nat.lt_log2_self
      _ ≤ 2 ^ (53 + (n.log2 - 52)) := Nat.pow_le_pow_right (by decide) (by omega)
      _ = 2 ^ 53 * ulp n := Nat.pow_add _ _ _
  have step : ∀ q, q ≤ 2 ^ 53 → q * ulp n ≤ 2 ^ (53 + (n.log2 - 52)) := by
    intro q small
    rw [Nat.pow_add]
    exact Nat.mul_le_mul_right _ small
  unfold roundNat
  split
  · exact step _ below.le
  · exact step _ below

theorem le_roundNat (large : 2 ^ 53 ≤ n) : 2 ^ 53 ≤ roundNat n := by
  have nonzero : n ≠ 0 := by omega
  have log : 53 ≤ n.log2 := (Nat.le_log2 nonzero).mpr large
  have floor : 2 ^ 52 ≤ n / ulp n := by
    apply (Nat.le_div_iff_mul_le (ulp_pos n)).mpr
    calc 2 ^ 52 * ulp n = 2 ^ (52 + (n.log2 - 52)) := (Nat.pow_add _ _ _).symm
      _ = 2 ^ n.log2 := by rw [Nat.add_sub_cancel' (by omega)]
      _ ≤ n := Nat.log2_self_le nonzero
  have wide : 2 ≤ ulp n := Nat.le_self_pow (by omega) 2
  have down : 2 ^ 53 ≤ n / ulp n * ulp n := by
    calc 2 ^ 53 = 2 ^ 52 * 2 := by ring
      _ ≤ n / ulp n * ulp n := Nat.mul_le_mul floor wide
  unfold roundNat
  split
  · exact down
  · exact down.trans (Nat.mul_le_mul_right _ (Nat.le_succ _))

theorem round_natCast (n : Nat) : round n = roundNat n := by
  simp [round]

end Libtcr.Binary64
