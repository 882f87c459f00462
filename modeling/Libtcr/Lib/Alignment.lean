import Mathlib.Data.Nat.Bitwise

/-! Rounding machine words to multiples of a power of two with a mask. -/

set_option autoImplicit false

namespace Libtcr.Alignment

variable {w : Nat}

def lowBits (w k : Nat) : BitVec w := BitVec.ofNat w (2 ^ k - 1)

def alignDown (k : Nat) (x : BitVec w) : BitVec w := x &&& ~~~lowBits w k

def alignUp (k : Nat) (x : BitVec w) : BitVec w := alignDown k (x + lowBits w k)

theorem getLsbD_lowBits {k i : Nat} (inside : i < w) :
    (lowBits w k).getLsbD i = decide (i < k) := by
  rw [lowBits, BitVec.getLsbD_ofNat, Nat.testBit_two_pow_sub_one]
  simp [inside]

theorem alignDown_eq_shift (k : Nat) (x : BitVec w) : alignDown k x = x >>> k <<< k := by
  apply BitVec.eq_of_getLsbD_eq
  intro i inside
  rw [alignDown, BitVec.getLsbD_and, BitVec.getLsbD_not, getLsbD_lowBits inside,
    BitVec.getLsbD_shiftLeft, BitVec.getLsbD_ushiftRight]
  by_cases low : i < k
  · simp [low, inside]
  · have high : k + (i - k) = i := by omega
    simp [low, inside, high]

theorem toNat_alignDown (k : Nat) (x : BitVec w) :
    (alignDown k x).toNat = x.toNat - x.toNat % 2 ^ k := by
  have small : x.toNat / 2 ^ k * 2 ^ k < 2 ^ w :=
    Nat.lt_of_le_of_lt (Nat.div_mul_le_self _ _) x.isLt
  rw [alignDown_eq_shift, BitVec.toNat_shiftLeft, BitVec.toNat_ushiftRight, Nat.shiftLeft_eq,
    Nat.shiftRight_eq_div_pow, Nat.mod_eq_of_lt small]
  have whole := Nat.div_add_mod' x.toNat (2 ^ k)
  omega

theorem toNat_alignUp_mod (k : Nat) (x : BitVec w) : (alignUp k x).toNat % 2 ^ k = 0 := by
  rw [alignUp, toNat_alignDown]
  exact Nat.sub_mod_eq_zero_of_mod_eq (Nat.mod_mod _ _).symm

theorem toNat_alignUp {k : Nat} {x : BitVec w} (fits : x.toNat + 2 ^ k ≤ 2 ^ w) :
    (alignUp k x).toNat = x.toNat + (2 ^ k - 1) - (x.toNat + (2 ^ k - 1)) % 2 ^ k := by
  have positive : 0 < 2 ^ k := Nat.two_pow_pos k
  have low : (lowBits w k).toNat = 2 ^ k - 1 := by
    rw [lowBits, BitVec.toNat_ofNat, Nat.mod_eq_of_lt (by omega)]
  have sum : (x + lowBits w k).toNat = x.toNat + (2 ^ k - 1) := by
    rw [BitVec.toNat_add, low, Nat.mod_eq_of_lt (by omega)]
  rw [alignUp, toNat_alignDown, sum]

end Libtcr.Alignment
