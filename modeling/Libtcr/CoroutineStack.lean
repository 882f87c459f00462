import Libtcr.Lib.Alignment

/-! The memory of a coroutine in the build without `STACK_OVERFLOW_PROTECTION`: `cr_create` of
`coroutines.c` places the stack behind the `struct coroutine`, in one block. -/

set_option autoImplicit false

namespace Libtcr

open Libtcr.Alignment

/-- The macro is a constant of type `int`. -/
def STACK_ALIGN : BitVec 32 := 16

/-- `~(STACK_ALIGN - 1)`, converted from `int` to `unsigned long`. -/
def stackMask : BitVec 64 := (~~~(STACK_ALIGN - 1)).signExtend 64

/-- What `cr_create` has allocated and handed to `makecontext`. -/
structure Coroutine where
  /-- The block that `malloc` has returned, and its size. -/
  cr : BitVec 64
  size : BitVec 64
  ssSp : BitVec 64
  ssSize : BitVec 64
  deriving DecidableEq, Repr

/-- `cr_create` on a machine with 64-bit words. `malloc` and `getcontext` may fail; `sizeofCr` is
`sizeof(struct coroutine)`. An `int` is converted to `unsigned long` by sign extension. -/
def crCreate (malloc : BitVec 64 → Option (BitVec 64)) (getcontext : Bool) (sizeofCr : BitVec 64)
    (stackSize : BitVec 32) : Option Coroutine :=
  let ps : BitVec 32 := 0
  let size := (sizeofCr + stackSize.signExtend 64 + STACK_ALIGN.signExtend 64 - 1) &&& stackMask
  match malloc size with
  | none => none
  | some cr =>
    let stack := (cr + sizeofCr + STACK_ALIGN.signExtend 64 - 1) &&& stackMask
    if getcontext then some ⟨cr, size, stack, (stackSize + ps).signExtend 64⟩ else none

namespace Coroutine

def InStack (c : Coroutine) (x : Nat) : Prop :=
  c.ssSp.toNat ≤ x ∧ x < c.ssSp.toNat + c.ssSize.toNat

/-- The stack is part of the block, begins at an aligned address, and has no byte of the
`struct coroutine`. -/
structure StackInside (c : Coroutine) (sizeofCr : BitVec 64) : Prop where
  contained : ∀ x, c.InStack x → c.cr.toNat ≤ x ∧ x < c.cr.toNat + c.size.toNat
  aligned : c.ssSp.toNat % 16 = 0
  apart : ∀ x, c.InStack x → ¬ (c.cr.toNat ≤ x ∧ x < c.cr.toNat + sizeofCr.toNat)

end Coroutine

section Rounding

variable {sizeofCr : BitVec 64} {stackSize : BitVec 32}

private theorem and_stackMask (x : BitVec 64) :
    (x + STACK_ALIGN.signExtend 64 - 1) &&& stackMask = alignUp 4 x := by
  have mask : stackMask = ~~~lowBits 64 4 := by decide
  have low : STACK_ALIGN.signExtend 64 - 1 = lowBits 64 4 := by decide
  have sum : x + STACK_ALIGN.signExtend 64 - 1 = x + lowBits 64 4 := by
    rw [← low, BitVec.sub_eq_add_neg, BitVec.sub_eq_add_neg, BitVec.add_assoc]
  rw [mask, sum, alignUp, alignDown]

private theorem crCreate_some {malloc : BitVec 64 → Option (BitVec 64)} {getcontext : Bool}
    {c : Coroutine} (created : crCreate malloc getcontext sizeofCr stackSize = some c) :
    c.size = alignUp 4 (sizeofCr + stackSize.signExtend 64) ∧
      c.ssSp = alignUp 4 (c.cr + sizeofCr) ∧ c.ssSize = stackSize.signExtend 64 := by
  simp only [crCreate] at created
  split at created
  · cases created
  · split at created
    · cases created
      exact ⟨and_stackMask _, and_stackMask _, by simp⟩
    · cases created

private theorem toNat_signExtend (natural : 0 ≤ stackSize.toInt) :
    (stackSize.signExtend 64).toNat = stackSize.toNat := by
  have positive : stackSize.msb = false := by
    rw [BitVec.msb_eq_false_iff_two_mul_lt]
    have value := BitVec.toInt_eq_toNat_cond stackSize
    have small := stackSize.isLt
    split at value
    · assumption
    · omega
  rw [BitVec.signExtend_eq_setWidth_of_msb_false positive, BitVec.toNat_setWidth]
  have small := stackSize.isLt
  omega

/-- A stack that is not empty begins less than sixteen bytes behind the `struct coroutine`: the block
is in the address space, so the address does not overflow. -/
theorem ssSp_value {c : Coroutine}
    (size : c.size = alignUp 4 (sizeofCr + stackSize.signExtend 64))
    (ssSp : c.ssSp = alignUp 4 (c.cr + sizeofCr)) (natural : 0 ≤ stackSize.toInt)
    (whole : sizeofCr.toNat % 8 = 0) (aligned : c.cr.toNat % 8 = 0)
    (noOverflow : sizeofCr.toNat + stackSize.toNat + 15 < 2 ^ 64)
    (block : c.cr.toNat + c.size.toNat < 2 ^ 64) (used : 0 < stackSize.toNat) :
    c.size.toNat = sizeofCr.toNat + stackSize.toNat + 15 -
        (sizeofCr.toNat + stackSize.toNat + 15) % 16 ∧
      c.ssSp.toNat = c.cr.toNat + sizeofCr.toNat + 15 - (c.cr.toNat + sizeofCr.toNat + 15) % 16 := by
  have extended := toNat_signExtend natural
  have sum : (sizeofCr + stackSize.signExtend 64).toNat = sizeofCr.toNat + stackSize.toNat := by
    rw [BitVec.toNat_add, extended, Nat.mod_eq_of_lt (by omega)]
  have sizeValue : c.size.toNat = sizeofCr.toNat + stackSize.toNat + 15 -
      (sizeofCr.toNat + stackSize.toNat + 15) % 16 := by
    rw [size, toNat_alignUp (by rw [sum]; omega), sum]
    rfl
  have end_ : (c.cr + sizeofCr).toNat = c.cr.toNat + sizeofCr.toNat := by
    rw [BitVec.toNat_add, Nat.mod_eq_of_lt (by omega)]
  refine ⟨sizeValue, ?_⟩
  rw [ssSp, toNat_alignUp (by rw [end_]; omega), end_]
  rfl

end Rounding

/-- The stack is where it belongs if and only if it is empty, or the `struct coroutine` ends at an
aligned address, or rounding up the size leaves at least eight bytes for the rounding of the
address. -/
theorem stack_inside_iff {malloc : BitVec 64 → Option (BitVec 64)} {getcontext : Bool}
    {sizeofCr : BitVec 64} {stackSize : BitVec 32} {c : Coroutine}
    (created : crCreate malloc getcontext sizeofCr stackSize = some c)
    (natural : 0 ≤ stackSize.toInt) (whole : sizeofCr.toNat % 8 = 0) (aligned : c.cr.toNat % 8 = 0)
    (noOverflow : sizeofCr.toNat + stackSize.toNat + 15 < 2 ^ 64)
    (block : c.cr.toNat + c.size.toNat < 2 ^ 64) :
    c.StackInside sizeofCr ↔
      stackSize.toNat = 0 ∨ (c.cr.toNat + sizeofCr.toNat) % 16 = 0 ∨
        1 ≤ (sizeofCr.toNat + stackSize.toNat) % 16 ∧
          (sizeofCr.toNat + stackSize.toNat) % 16 ≤ 8 := by
  obtain ⟨size, ssSp, ssSize⟩ := crCreate_some created
  have start : c.ssSp.toNat % 16 = 0 := by
    rw [ssSp]
    exact toNat_alignUp_mod 4 _
  have length : c.ssSize.toNat = stackSize.toNat := by
    rw [ssSize, toNat_signExtend natural]
  rcases Nat.eq_zero_or_pos stackSize.toNat with empty | used
  · have none : ∀ x, ¬ c.InStack x := by
      rintro x ⟨low, high⟩
      omega
    exact iff_of_true ⟨fun x inside => absurd inside (none x), start,
      fun x inside => absurd inside (none x)⟩ (.inl empty)
  obtain ⟨sizeValue, spValue⟩ := ssSp_value size ssSp natural whole aligned noOverflow block used
  constructor
  · intro inside
    -- the last byte of the stack decides
    have last := (inside.contained (c.ssSp.toNat + stackSize.toNat - 1)
      ⟨by omega, by omega⟩).2
    omega
  · intro room
    have enough : c.ssSp.toNat + stackSize.toNat ≤ c.cr.toNat + c.size.toNat := by omega
    refine ⟨?_, start, ?_⟩
    · rintro x ⟨low, high⟩
      omega
    · rintro x ⟨low, high⟩
      omega

/-- The default stack size, with a `struct coroutine` of 984 bytes. -/
theorem stack_inside_default :
    ∃ c, crCreate (fun _ => some 0x5555557592a0) true 984 16384 = some c ∧ c.StackInside 984 := by
  have created : crCreate (fun _ => some 0x5555557592a0) true 984 16384 =
      some ⟨0x5555557592a0, 17376, 0x555555759680, 16384⟩ := by decide
  refine ⟨_, created, (stack_inside_iff created ?_ ?_ ?_ ?_ ?_).mpr (.inr (.inr ?_))⟩ <;> decide

/-- With a stack size of 8200 bytes the last eight bytes of the stack are behind the block. -/
theorem stack_outside : ∃ c, crCreate (fun _ => some 0x5555557592a0) true 984 8200 = some c ∧
    c.cr.toNat % 16 = 0 ∧ c.ssSp.toNat + c.ssSize.toNat = c.cr.toNat + c.size.toNat + 8 ∧
    ¬ c.StackInside 984 := by
  have created : crCreate (fun _ => some 0x5555557592a0) true 984 8200 =
      some ⟨0x5555557592a0, 9184, 0x555555759680, 8200⟩ := by decide
  refine ⟨_, created, by decide, by decide, fun inside => ?_⟩
  have last := (inside.contained 0x55555575b687 ⟨by decide, by decide⟩).2
  revert last
  decide

end Libtcr
