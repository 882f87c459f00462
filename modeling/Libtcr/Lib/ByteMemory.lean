import Mathlib.Data.Nat.Bitwise

/-! A memory of bytes with addresses of `w` bits, and little-endian accesses to it. A range
of bytes may wrap around the end of the address space. -/

set_option autoImplicit false

namespace Libtcr.ByteMemory

variable {w : Nat}

abbrev Memory (w : Nat) := BitVec w → BitVec 8

/-- `x` is one of the `n` bytes from `a` on. -/
def Within (a : BitVec w) (n : Nat) (x : BitVec w) : Prop := (x - a).toNat < n

instance (a : BitVec w) (n : Nat) (x : BitVec w) : Decidable (Within a n x) :=
  inferInstanceAs (Decidable ((x - a).toNat < n))

def load (mem : Memory w) (a : BitVec w) : (n : Nat) → BitVec (8 * n)
  | 0 => 0
  | n + 1 => load mem (a + 1) n ++ mem a

def store (mem : Memory w) (a : BitVec w) (n : Nat) (value : BitVec (8 * n)) : Memory w := fun x =>
  if Within a n x then value.extractLsb' (8 * (x - a).toNat) 8 else mem x

/-- Two memories hold the same bytes in `region`. -/
def Agree (region : BitVec w → Prop) (mem mem' : Memory w) : Prop :=
  ∀ x, region x → mem x = mem' x

/-! ## Ranges -/

section Ranges

variable {a x : BitVec w} {i j m n : Nat}

theorem toNat_offset (a : BitVec w) (small : i < 2 ^ w) : (a + BitVec.ofNat w i - a).toNat = i := by
  rw [BitVec.add_comm, BitVec.add_sub_cancel, BitVec.toNat_ofNat, Nat.mod_eq_of_lt small]

theorem within_offset (fits : i + n ≤ 2 ^ w) :
    Within (a + BitVec.ofNat w i) n x ↔ i ≤ (x - a).toNat ∧ (x - a).toNat < i + n := by
  have split : x - (a + BitVec.ofNat w i) = x - a - BitVec.ofNat w i := by
    grind
  rw [Within, split, BitVec.toNat_sub, BitVec.toNat_ofNat]
  have bound := (x - a).isLt
  by_cases whole : i = 2 ^ w
  · subst whole
    simp only [Nat.mod_self, Nat.sub_zero, Nat.add_mod_left, Nat.mod_eq_of_lt bound]
    omega
  · rw [Nat.mod_eq_of_lt (show i < 2 ^ w by omega)]
    by_cases below : (x - a).toNat < i
    · rw [Nat.mod_eq_of_lt (by omega)]
      omega
    · rw [show 2 ^ w - i + (x - a).toNat = (x - a).toNat - i + 2 ^ w by omega, Nat.add_mod_right,
        Nat.mod_eq_of_lt (by omega)]
      omega

theorem within_ofNat (fits : i + n ≤ 2 ^ w) :
    Within (BitVec.ofNat w i) n x ↔ i ≤ x.toNat ∧ x.toNat < i + n := by
  have offset := within_offset (a := (0 : BitVec w)) (x := x) fits
  simpa using offset

theorem Within.of_offset (inside : Within (a + BitVec.ofNat w i) n x) (part : i + n ≤ m)
    (fits : m ≤ 2 ^ w) : Within a m x := by
  have bounds := (within_offset (by omega)).mp inside
  unfold Within
  omega

theorem not_within_offset (inside : Within (a + BitVec.ofNat w i) m x)
    (apart : i + m ≤ j ∨ j + n ≤ i) (first : i + m ≤ 2 ^ w) (second : j + n ≤ 2 ^ w) :
    ¬ Within (a + BitVec.ofNat w j) n x := by
  rw [within_offset second]
  have bounds := (within_offset first).mp inside
  omega

end Ranges

/-! ## Accesses -/

section Accesses

variable {mem mem' : Memory w} {a b x : BitVec w} {i m n : Nat}

theorem getLsbD_load (inside : i < 8 * n) :
    (load mem a n).getLsbD i = (mem (a + BitVec.ofNat w (i / 8))).getLsbD (i % 8) := by
  induction n generalizing a i with
  | zero => omega
  | succ n ih =>
      rw [load, BitVec.getLsbD_append]
      by_cases low : i < 8
      · simp [low, Nat.div_eq_of_lt low, Nat.mod_eq_of_lt low]
      · have index : i / 8 = 1 + (i - 8) / 8 := by omega
        have bit : i % 8 = (i - 8) % 8 := by omega
        have one : BitVec.ofNat w 1 = 1 := rfl
        rw [if_neg low, ih (by omega), index, bit, BitVec.ofNat_add, one, BitVec.add_assoc]

theorem load_congr (fits : n ≤ 2 ^ w) (same : Agree (Within a n) mem mem') :
    load mem a n = load mem' a n := by
  apply BitVec.eq_of_getLsbD_eq
  intro i inside
  have byte : Within a n (a + BitVec.ofNat w (i / 8)) := by
    rw [Within, toNat_offset a (by omega)]
    omega
  rw [getLsbD_load inside, getLsbD_load inside, same _ byte]

theorem store_of_not_within {value : BitVec (8 * n)} (outside : ¬ Within a n x) :
    store mem a n value x = mem x := by
  rw [store, if_neg outside]

theorem load_store_same (fits : n ≤ 2 ^ w) (value : BitVec (8 * n)) :
    load (store mem a n value) a n = value := by
  apply BitVec.eq_of_getLsbD_eq
  intro i inside
  have index := toNat_offset a (show i / 8 < 2 ^ w by omega)
  have byte : Within a n (a + BitVec.ofNat w (i / 8)) := by
    rw [Within, index]
    omega
  have bit : 8 * (i / 8) + i % 8 = i := by omega
  have low : i % 8 < 8 := by omega
  rw [getLsbD_load inside, store, if_pos byte, index, BitVec.getLsbD_extractLsb', bit]
  simp [low]

theorem load_store_prefix (fits : n ≤ 2 ^ w) (part : m ≤ n) (value : BitVec (8 * n)) :
    load (store mem a n value) a m = value.setWidth (8 * m) := by
  apply BitVec.eq_of_getLsbD_eq
  intro i inside
  have whole : (load (store mem a n value) a n).getLsbD i = value.getLsbD i := by
    rw [load_store_same fits]
  rw [getLsbD_load (show i < 8 * n by omega)] at whole
  rw [getLsbD_load inside, whole, BitVec.getLsbD_setWidth]
  simp [inside]

theorem load_store_apart {value : BitVec (8 * m)} (fits : n ≤ 2 ^ w)
    (apart : ∀ x, Within a n x → ¬ Within b m x) : load (store mem b m value) a n = load mem a n :=
  load_congr fits fun x inside => store_of_not_within (apart x inside)

theorem load_store_offset {j : Nat} {value : BitVec (8 * m)} (apart : i + n ≤ j ∨ j + m ≤ i)
    (first : i + n ≤ 2 ^ w) (second : j + m ≤ 2 ^ w) :
    load (store mem (a + BitVec.ofNat w j) m value) (a + BitVec.ofNat w i) n =
      load mem (a + BitVec.ofNat w i) n :=
  load_store_apart (by omega) fun _ inside => not_within_offset inside apart first second

theorem load_add (m n : Nat) :
    (load mem a (m + n)).getLsbD i = (load mem (a + BitVec.ofNat w m) n ++ load mem a m).getLsbD i := by
  rw [BitVec.getLsbD_append]
  by_cases low : i < 8 * m
  · rw [if_pos low, getLsbD_load low, getLsbD_load (by omega)]
  · rw [if_neg low]
    by_cases high : i < 8 * (m + n)
    · have index : i / 8 = m + (i - 8 * m) / 8 := by omega
      have bit : i % 8 = (i - 8 * m) % 8 := by omega
      rw [getLsbD_load high, getLsbD_load (by omega), index, bit, BitVec.ofNat_add,
        BitVec.add_assoc]
    · rw [BitVec.getLsbD_of_ge _ _ (by omega), BitVec.getLsbD_of_ge _ _ (by omega)]

theorem Agree.symm {region : BitVec w → Prop} (same : Agree region mem mem') :
    Agree region mem' mem :=
  fun x inside => (same x inside).symm

theorem Agree.store {region : BitVec w → Prop} (same : Agree region mem mem')
    (value : BitVec (8 * n)) : Agree region (store mem a n value) (store mem' a n value) := by
  intro x inside
  unfold ByteMemory.store
  split
  · rfl
  · exact same x inside

end Accesses

end Libtcr.ByteMemory
