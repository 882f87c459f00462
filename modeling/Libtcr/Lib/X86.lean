import Libtcr.Lib.ByteMemory
import Mathlib.Logic.Function.Basic

/-! Straight-line code of an x86 machine with words of `k` bytes (8 on x86-64, 4 on i386),
over a type of registers. Flags are not kept: no instruction here reads them. -/

set_option autoImplicit false

namespace Libtcr.X86

open ByteMemory

variable {k : Nat} {Reg : Type} [DecidableEq Reg]

abbrev Word (k : Nat) := BitVec (8 * k)

/-- The registers of one processor. `env` is the image of 28 bytes that `fnstenv` would
store. -/
structure Cpu (k : Nat) (Reg : Type) where
  reg : Reg → Word k
  ip : Word k
  env : BitVec (8 * 28)
  mxcsr : BitVec (8 * 4)
  fs : BitVec 16

inductive Instr (Reg : Type) where
  /-- `mov %src, disp(%base)` -/
  | store (src : Reg) (disp : Nat) (base : Reg)
  | storeImm (value : Nat) (disp : Nat) (base : Reg)
  /-- `mov disp(%base), %dst` -/
  | load (disp : Nat) (base dst : Reg)
  | lea (disp : Nat) (base dst : Reg)
  | push (src : Reg)
  /-- `xorl %src, %dst`, which clears the upper half of a register of 64 bits. -/
  | xorl (src dst : Reg)
  | loadFs (dst : Reg)
  | setFs (src : Reg)
  | fnstenv (disp : Nat) (base : Reg)
  | fldenv (disp : Nat) (base : Reg)
  | stmxcsr (disp : Nat) (base : Reg)
  | ldmxcsr (disp : Nat) (base : Reg)
  | ret
  deriving DecidableEq, Repr

/-- The bits of the environment that hold the control, status and tag words, the
instruction pointer with its selector and the opcode, and the data pointer with its
selector. The others are reserved. -/
def envFields : BitVec (8 * 28) :=
  0x0000FFFF_FFFFFFFF_07FFFFFF_FFFFFFFF_0000FFFF_0000FFFF_0000FFFF#224

/-- The exception masks of the control word. -/
def envMasks : BitVec (8 * 28) := 0x3F#224

/-- The reserved bits of MXCSR; `ldmxcsr` faults if one of them is set. -/
def mxcsrReserved : BitVec (8 * 4) := 0xFFFF0000#32

namespace Cpu

def set (cpu : Cpu k Reg) (r : Reg) (value : Word k) : Cpu k Reg :=
  { cpu with reg := Function.update cpu.reg r value }

def address (cpu : Cpu k Reg) (disp : Nat) (base : Reg) : Word k :=
  cpu.reg base + BitVec.ofNat (8 * k) disp

/-- `fldenv` leaves the reserved bits as they are. -/
def setEnv (cpu : Cpu k Reg) (image : BitVec (8 * 28)) : Cpu k Reg :=
  { cpu with env := (image &&& envFields) ||| (cpu.env &&& ~~~envFields) }

end Cpu

variable (sp : Reg)

/-- One instruction; `none` is a fault. -/
def step (cpu : Cpu k Reg) (mem : Memory (8 * k)) :
    Instr Reg → Option (Cpu k Reg × Memory (8 * k))
  | .store src disp base => some (cpu, store mem (cpu.address disp base) k (cpu.reg src))
  | .storeImm value disp base =>
    some (cpu, store mem (cpu.address disp base) k (BitVec.ofNat (8 * k) value))
  | .load disp base dst => some (cpu.set dst (load mem (cpu.address disp base) k), mem)
  | .lea disp base dst => some (cpu.set dst (cpu.address disp base), mem)
  | .push src =>
    let top := cpu.reg sp - BitVec.ofNat (8 * k) k
    some (cpu.set sp top, store mem top k (cpu.reg src))
  | .xorl src dst =>
    some (cpu.set dst
      (((cpu.reg dst).setWidth 32 ^^^ (cpu.reg src).setWidth 32).setWidth (8 * k)), mem)
  | .loadFs dst =>
    some (cpu.set dst ((cpu.reg dst >>> 16 <<< 16) ||| cpu.fs.setWidth (8 * k)), mem)
  | .setFs src => some ({ cpu with fs := (cpu.reg src).setWidth 16 }, mem)
  | .fnstenv disp base =>
    -- All floating-point exceptions are masked afterwards.
    some ({ cpu with env := cpu.env ||| envMasks },
      store mem (cpu.address disp base) 28 cpu.env)
  | .fldenv disp base => some (cpu.setEnv (load mem (cpu.address disp base) 28), mem)
  | .stmxcsr disp base => some (cpu, store mem (cpu.address disp base) 4 cpu.mxcsr)
  | .ldmxcsr disp base =>
    let value := load mem (cpu.address disp base) 4
    if value &&& mxcsrReserved = 0 then some ({ cpu with mxcsr := value }, mem) else none
  | .ret =>
    some ({ cpu.set sp (cpu.reg sp + BitVec.ofNat (8 * k) k) with
      ip := load mem (cpu.reg sp) k }, mem)

def run (cpu : Cpu k Reg) (mem : Memory (8 * k)) :
    List (Instr Reg) → Option (Cpu k Reg × Memory (8 * k))
  | [] => some (cpu, mem)
  | i :: code => (step sp cpu mem i).bind fun after => run after.1 after.2 code

def Instr.access (cpu : Cpu k Reg) : Instr Reg → Option (Word k × Nat)
  | .store _ disp base | .storeImm _ disp base | .load disp base _ =>
    some (cpu.address disp base, k)
  | .push _ => some (cpu.reg sp - BitVec.ofNat (8 * k) k, k)
  | .ret => some (cpu.reg sp, k)
  | .fnstenv disp base | .fldenv disp base => some (cpu.address disp base, 28)
  | .stmxcsr disp base | .ldmxcsr disp base => some (cpu.address disp base, 4)
  | .lea _ _ _ | .xorl _ _ | .loadFs _ | .setFs _ => none

def Instr.Inside (region : Word k → Prop) (cpu : Cpu k Reg) (i : Instr Reg) : Prop :=
  ∀ a n, i.access sp cpu = some (a, n) → ∀ x, Within a n x → region x

def Confined (region : Word k → Prop) (cpu : Cpu k Reg) (mem : Memory (8 * k)) :
    List (Instr Reg) → Prop
  | [] => True
  | i :: code => i.Inside sp region cpu ∧
    ∀ after, step sp cpu mem i = some after → Confined region after.1 after.2 code

/-! ## Programs in sequence -/

section Sequence

variable {sp} {cpu : Cpu k Reg} {mem : Memory (8 * k)} {first second : List (Instr Reg)}

theorem run_append : run sp cpu mem (first ++ second) =
    (run sp cpu mem first).bind fun after => run sp after.1 after.2 second := by
  induction first generalizing cpu mem with
  | nil => rfl
  | cons i first ih =>
      simp only [List.cons_append, run]
      cases step sp cpu mem i with
      | none => rfl
      | some after => simp [ih]

theorem run_snoc {cpu' : Cpu k Reg} {mem' : Memory (8 * k)} {i : Instr Reg}
    (ran : run sp cpu mem first = some (cpu', mem')) :
    run sp cpu mem (first ++ [i]) = step sp cpu' mem' i := by
  rw [run_append, ran]
  simp only [Option.bind_some, run]
  cases step sp cpu' mem' i <;> rfl

theorem confined_append {region : Word k → Prop} : Confined sp region cpu mem (first ++ second) ↔
    Confined sp region cpu mem first ∧
      ∀ after, run sp cpu mem first = some after → Confined sp region after.1 after.2 second := by
  induction first generalizing cpu mem with
  | nil => simp [Confined, run]
  | cons i first ih =>
      simp only [List.cons_append, Confined, run]
      cases step sp cpu mem i with
      | none => simp
      | some after => simp [ih, and_assoc]

end Sequence

/-! ## Locality -/

section Locality

variable {sp} {cpu cpu' : Cpu k Reg} {mem mem' mem₁ : Memory (8 * k)} {region : Word k → Prop}
  {i : Instr Reg}

omit [DecidableEq Reg] in
theorem Instr.Inside.load_eq (inside : i.Inside sp region cpu) {a : Word k} {n : Nat}
    (accesses : i.access sp cpu = some (a, n)) (fits : n ≤ 2 ^ (8 * k))
    (same : Agree region mem mem') : ByteMemory.load mem a n = ByteMemory.load mem' a n :=
  load_congr fits fun x within => same x (inside a n accesses x within)

omit [DecidableEq Reg] in
theorem Instr.Inside.store_eq (inside : i.Inside sp region cpu) {a x : Word k} {n : Nat}
    (accesses : i.access sp cpu = some (a, n)) (out : ¬ region x) (value : BitVec (8 * n)) :
    ByteMemory.store mem a n value x = mem x :=
  store_of_not_within fun within => out (inside a n accesses x within)

theorem word_fits (k : Nat) : k ≤ 2 ^ (8 * k) := by
  have bound : k ≤ 8 * k := by omega
  exact Nat.le_of_lt (Nat.lt_of_le_of_lt bound Nat.lt_two_pow_self)

theorem env_fits (wide : 4 ≤ k) : 28 ≤ 2 ^ (8 * k) := by
  have least : 2 ^ 5 ≤ 2 ^ (8 * k) := Nat.pow_le_pow_right (by omega) (by omega)
  omega

/-- An instruction does the same in two memories that agree where it accesses them. -/
theorem step_agree (wide : 4 ≤ k) (inside : i.Inside sp region cpu) (same : Agree region mem mem')
    (stepped : step sp cpu mem i = some (cpu', mem₁)) :
    ∃ mem₁', step sp cpu mem' i = some (cpu', mem₁') ∧ Agree region mem₁ mem₁' ∧
      ∀ x, ¬ region x → mem₁ x = mem x := by
  have env := env_fits wide
  cases i with
  | store src disp base =>
      cases stepped
      exact ⟨_, rfl, same.store _, fun x out => inside.store_eq rfl out _⟩
  | storeImm value disp base =>
      cases stepped
      exact ⟨_, rfl, same.store _, fun x out => inside.store_eq rfl out _⟩
  | load disp base dst =>
      cases stepped
      refine ⟨mem', ?_, same, fun _ _ => rfl⟩
      simp only [step]
      rw [inside.load_eq rfl (word_fits k) same]
  | lea disp base dst => cases stepped; exact ⟨mem', rfl, same, fun _ _ => rfl⟩
  | push src =>
      cases stepped
      exact ⟨_, rfl, same.store _, fun x out => inside.store_eq rfl out _⟩
  | xorl src dst => cases stepped; exact ⟨mem', rfl, same, fun _ _ => rfl⟩
  | loadFs dst => cases stepped; exact ⟨mem', rfl, same, fun _ _ => rfl⟩
  | setFs src => cases stepped; exact ⟨mem', rfl, same, fun _ _ => rfl⟩
  | fnstenv disp base =>
      cases stepped
      exact ⟨_, rfl, same.store _, fun x out => inside.store_eq rfl out _⟩
  | fldenv disp base =>
      cases stepped
      refine ⟨mem', ?_, same, fun _ _ => rfl⟩
      simp only [step]
      rw [inside.load_eq rfl env same]
  | stmxcsr disp base =>
      cases stepped
      exact ⟨_, rfl, same.store _, fun x out => inside.store_eq rfl out _⟩
  | ldmxcsr disp base =>
      simp only [step] at stepped ⊢
      rw [inside.load_eq rfl (by omega) same] at stepped
      split at stepped
      · next valid =>
        cases stepped
        exact ⟨mem', by rw [if_pos valid], same, fun _ _ => rfl⟩
      · cases stepped
  | ret =>
      cases stepped
      refine ⟨mem', ?_, same, fun _ _ => rfl⟩
      simp only [step]
      rw [inside.load_eq rfl (word_fits k) same]

theorem step_mxcsr (clear : cpu.mxcsr &&& mxcsrReserved = 0)
    (stepped : step sp cpu mem i = some (cpu', mem₁)) : cpu'.mxcsr &&& mxcsrReserved = 0 := by
  cases i with
  | ldmxcsr disp base =>
      simp only [step] at stepped
      split at stepped
      · next valid =>
        cases stepped
        exact valid
      · cases stepped
  | _ =>
      cases stepped
      exact clear

end Locality

end Libtcr.X86
