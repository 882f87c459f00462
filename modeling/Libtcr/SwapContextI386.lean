import Libtcr.Lib.X86

/-! `swapcontext_fast` of `swapcontext_fast_i386.S`. Its arguments are on the stack: the context
to save in is `oucp`, the one to go on with is `ucp`. -/

set_option autoImplicit false

namespace Libtcr.SwapContextI386

open ByteMemory X86

inductive Reg where
  | eax | ebx | ecx | edx | esi | edi | ebp | esp
  deriving DecidableEq, Repr

abbrev Cpu := X86.Cpu 4 Reg
abbrev Memory := ByteMemory.Memory (8 * 4)

def oEAX := 0x40
def oECX := 0x3c
def oEDX := 0x38
def oEDI := 0x24
def oESI := 0x28
def oEBP := 0x2c
def oEIP := 0x4c
def oESP := 0x30
def oEBX := 0x34
def oFPREGS := 0x60
def oFPREGSMEM := 0xec
def oFS := 0x18

/-- The first half of `swapcontext_fast`. -/
def saveCode : List (Instr Reg) := [
  .load 4 .esp .eax,
  -- Return value of swapcontext.
  .storeImm 0 oEAX .eax,
  -- Save the 32-bit register values and the return address.
  .store .ecx oECX .eax,
  .store .edx oEDX .eax,
  .store .edi oEDI .eax,
  .store .esi oESI .eax,
  .store .ebp oEBP .eax,
  .load 0 .esp .ecx,
  .store .ecx oEIP .eax,
  .lea 4 .esp .ecx,
  .store .ecx oESP .eax,
  .store .ebx oEBX .eax,
  -- Save the FS segment register.
  .xorl .edx .edx,
  .loadFs .edx,
  .store .edx oFS .eax,
  -- The floating-point environment goes to the __fpregs_mem block of the context.
  .lea oFPREGSMEM .eax .ecx,
  .store .ecx oFPREGS .eax,
  .fnstenv 0 .ecx]

/-- The second half of `swapcontext_fast`. -/
def restoreCode : List (Instr Reg) := [
  .load 8 .esp .ecx,
  .load 8 .esp .eax,
  .load oFPREGS .eax .ecx,
  .fldenv 0 .ecx,
  .load oFS .eax .edx,
  .setFs .edx,
  .load oEIP .eax .ecx,
  .load oESP .eax .esp,
  .push .ecx,
  -- Load the values of all the 32-bit registers (except ESP).
  .load oEDI .eax .edi,
  .load oESI .eax .esi,
  .load oEBP .eax .ebp,
  .load oEBX .eax .ebx,
  .load oEDX .eax .edx,
  .load oECX .eax .ecx,
  .load oEAX .eax .eax,
  .ret]

def swapcontextFast : List (Instr Reg) := saveCode ++ restoreCode

/-- What `swapcontext_fast` keeps in a `ucontext_t`. -/
structure Context where
  eax : Word 4
  ebx : Word 4
  ecx : Word 4
  edx : Word 4
  esi : Word 4
  edi : Word 4
  ebp : Word 4
  esp : Word 4
  eip : Word 4
  fs : Word 4
  env : BitVec (8 * 28)
  deriving DecidableEq

def member (ctx : Word 4) (offset : Nat) : Word 4 := ctx + BitVec.ofNat (8 * 4) offset

def oucp (cpu : Cpu) (mem : Memory) : Word 4 := load mem (member (cpu.reg .esp) 4) 4

def ucp (cpu : Cpu) (mem : Memory) : Word 4 := load mem (member (cpu.reg .esp) 8) 4

namespace Context

def read (mem : Memory) (ctx : Word 4) : Context where
  eax := load mem (member ctx oEAX) 4
  ebx := load mem (member ctx oEBX) 4
  ecx := load mem (member ctx oECX) 4
  edx := load mem (member ctx oEDX) 4
  esi := load mem (member ctx oESI) 4
  edi := load mem (member ctx oEDI) 4
  ebp := load mem (member ctx oEBP) 4
  esp := load mem (member ctx oESP) 4
  eip := load mem (member ctx oEIP) 4
  fs := load mem (member ctx oFS) 4
  env := load mem (member ctx oFPREGSMEM) 28

/-- The registers of the caller of `swapcontext_fast`, as they will be after the `ret`. -/
def capture (cpu : Cpu) (mem : Memory) : Context where
  eax := 0
  ebx := cpu.reg .ebx
  ecx := cpu.reg .ecx
  edx := cpu.reg .edx
  esi := cpu.reg .esi
  edi := cpu.reg .edi
  ebp := cpu.reg .ebp
  esp := cpu.reg .esp + 4
  eip := load mem (cpu.reg .esp) 4
  fs := cpu.fs.setWidth (8 * 4)
  env := cpu.env

def resume (c : Context) (cpu : Cpu) : Cpu where
  reg
    | .eax => c.eax
    | .ebx => c.ebx
    | .ecx => c.ecx
    | .edx => c.edx
    | .esi => c.esi
    | .edi => c.edi
    | .ebp => c.ebp
    | .esp => c.esp
  ip := c.eip
  env := (c.env &&& envFields) ||| (cpu.env &&& ~~~envFields)
  mxcsr := cpu.mxcsr
  fs := c.fs.setWidth 16

end Context

/-- The bytes of a `ucontext_t` up to the end of the floating-point environment. -/
def ctxSize : Nat := 0x108

def InContext (ctx x : Word 4) : Prop := Within ctx ctxSize x

def InSlot (c : Context) (x : Word 4) : Prop := Within (c.esp - 4) 4 x

/-- A context that can be switched to. -/
structure Prepared (mem : Memory) (ctx : Word 4) : Prop where
  fpregs : load mem (member ctx oFPREGS) 4 = member ctx oFPREGSMEM
  apart : ∀ x, InSlot (Context.read mem ctx) x → ¬ InContext ctx x

/-- The contexts lie apart from each other, and the one that is written also from the return
address with the arguments and from the word below the new stack pointer. -/
structure Apart (cpu : Cpu) (mem : Memory) : Prop where
  contexts : ∀ x, InContext (oucp cpu mem) x → ¬ InContext (ucp cpu mem) x
  top : ∀ x, Within (cpu.reg .esp) 12 x → ¬ InContext (oucp cpu mem) x
  slot : ∀ x, InSlot (Context.read mem (ucp cpu mem)) x → ¬ InContext (oucp cpu mem) x

/-! ## The first half -/

def savedMem (cpu : Cpu) (mem : Memory) : Memory :=
  let ctx := oucp cpu mem
  let mem := store mem (member ctx oEAX) 4 0
  let mem := store mem (member ctx oECX) 4 (cpu.reg .ecx)
  let mem := store mem (member ctx oEDX) 4 (cpu.reg .edx)
  let mem := store mem (member ctx oEDI) 4 (cpu.reg .edi)
  let mem := store mem (member ctx oESI) 4 (cpu.reg .esi)
  let mem := store mem (member ctx oEBP) 4 (cpu.reg .ebp)
  let mem := store mem (member ctx oEIP) 4 (load mem (cpu.reg .esp) 4)
  let mem := store mem (member ctx oESP) 4 (cpu.reg .esp + 4)
  let mem := store mem (member ctx oEBX) 4 (cpu.reg .ebx)
  let mem := store mem (member ctx oFS) 4 (cpu.fs.setWidth (8 * 4))
  let mem := store mem (member ctx oFPREGS) 4 (member ctx oFPREGSMEM)
  store mem (member ctx oFPREGSMEM) 28 cpu.env

def savedCpu (cpu : Cpu) (mem : Memory) : Cpu :=
  let ctx := oucp cpu mem
  let cpu := ((cpu.set .eax ctx).set .ecx (cpu.reg .esp + 4)).set .edx (cpu.fs.setWidth (8 * 4))
  { cpu.set .ecx (member ctx oFPREGSMEM) with env := cpu.env ||| envMasks }

theorem save_run (cpu : Cpu) (mem : Memory) :
    run .esp cpu mem saveCode = some (savedCpu cpu mem, savedMem cpu mem) := by
  have ctx : load mem (cpu.reg .esp + 4#32) 4 = oucp cpu mem := rfl
  simp [saveCode, run, step, savedCpu, savedMem, Cpu.set, Cpu.address, member, ctx]

section Save

variable {cpu : Cpu} {mem : Memory}

theorem savedMem_outside {x : Word 4} (outside : ¬ InContext (oucp cpu mem) x) :
    savedMem cpu mem x = mem x := by
  have apart (offset n : Nat) (part : offset + n ≤ ctxSize) :
      ¬ Within (member (oucp cpu mem) offset) n x :=
    fun inside => outside (inside.of_offset part (by decide))
  simp only [savedMem]
  repeat rw [store_of_not_within (apart _ _ (by decide))]

theorem savedMem_read (apart : Apart cpu mem) :
    Context.read (savedMem cpu mem) (oucp cpu mem) = Context.capture cpu mem := by
  have returns : load (savedMem cpu mem) (member (oucp cpu mem) oEIP) 4 =
      load mem (cpu.reg .esp) 4 := by
    have skip (mem' : Memory) (offset : Nat) (value : Word 4) (part : offset + 4 ≤ ctxSize) :
        load (store mem' (member (oucp cpu mem) offset) 4 value) (cpu.reg .esp) 4 =
          load mem' (cpu.reg .esp) 4 :=
      load_store_apart (by decide) fun x inside within =>
        apart.top x (Nat.lt_of_lt_of_le inside (by decide)) (within.of_offset part (by decide))
    simp (disch := decide) only [savedMem, skip]
    simp (disch := decide) only [member, load_store_offset, load_store_same]
  unfold Context.read
  rw [returns]
  unfold Context.capture savedMem
  simp (disch := decide) only [member, load_store_offset, load_store_same]

theorem savedMem_fpregs : load (savedMem cpu mem) (member (oucp cpu mem) oFPREGS) 4 =
    member (oucp cpu mem) oFPREGSMEM := by
  simp (disch := decide) only [savedMem, member, load_store_offset, load_store_same]

end Save

/-! ## The second half -/

theorem restore_run {cpu : Cpu} {mem : Memory} (prepared : Prepared mem (ucp cpu mem)) :
    run .esp cpu mem restoreCode = some ((Context.read mem (ucp cpu mem)).resume cpu,
      store mem ((Context.read mem (ucp cpu mem)).esp - 4) 4
        (Context.read mem (ucp cpu mem)).eip) := by
  have kept (offset : Nat) (value : Word 4) (part : offset + 4 ≤ ctxSize) :
      load (store mem ((Context.read mem (ucp cpu mem)).esp - 4) 4 value)
        (member (ucp cpu mem) offset) 4 = load mem (member (ucp cpu mem) offset) 4 :=
    load_store_apart (by decide) fun x inside slot =>
      prepared.apart x slot (inside.of_offset part (by decide))
  have second : load mem (cpu.reg .esp + 8#32) 4 = ucp cpu mem := rfl
  have link := prepared.fpregs
  simp only [Context.read, member] at kept link
  simp only [Nat.reduceMul, restoreCode, run, step, Cpu.set, Cpu.address, second, Cpu.setEnv,
    BitVec.add_zero, Option.bind_some, ne_eq, reduceCtorEq, not_false_eq_true, Function.update_of_ne,
    Function.update_self, Function.update_idem, link, BitVec.ofNat_eq_ofNat, Option.some.injEq,
    Prod.mk.injEq]
  refine ⟨?_, rfl⟩
  simp only [Context.resume, X86.Cpu.mk.injEq]
  refine ⟨?_, load_store_same (by decide) _, rfl, trivial, rfl⟩
  funext r
  -- The registers are loaded after the push.
  cases r with
  | esp => exact BitVec.sub_add_cancel _ _
  | eax => exact kept oEAX _ (by decide)
  | ebx => exact kept oEBX _ (by decide)
  | ecx => exact kept oECX _ (by decide)
  | edx => exact kept oEDX _ (by decide)
  | esi => exact kept oESI _ (by decide)
  | edi => exact kept oEDI _ (by decide)
  | ebp => exact kept oEBP _ (by decide)

/-! ## The whole -/

theorem read_congr {mem mem' : Memory} {ctx : Word 4} (same : Agree (InContext ctx) mem mem') :
    Context.read mem ctx = Context.read mem' ctx := by
  have part (offset n : Nat) (inside : offset + n ≤ ctxSize) :
      load mem (member ctx offset) n = load mem' (member ctx offset) n :=
    load_congr (Nat.le_trans (Nat.le_of_add_left_le inside) (by decide)) fun x within =>
      same x (within.of_offset inside (by decide))
  simp (disch := decide) only [Context.read, part]

theorem Prepared.congr {mem mem' : Memory} {ctx : Word 4} (prepared : Prepared mem ctx)
    (same : Agree (InContext ctx) mem mem') : Prepared mem' ctx where
  fpregs := by
    rw [← prepared.fpregs]
    exact load_congr (by decide) fun x within =>
      (same x (within.of_offset (show oFPREGS + 4 ≤ ctxSize by decide) (by decide))).symm
  apart := read_congr same ▸ prepared.apart

def enteredMem (cpu : Cpu) (mem : Memory) : Memory :=
  let c := Context.read mem (ucp cpu mem)
  store (savedMem cpu mem) (c.esp - 4) 4 c.eip

/-- The exception masks that `fnstenv` sets are among the fields that `fldenv` loads. -/
theorem resume_savedCpu (c : Context) (cpu : Cpu) (mem : Memory) :
    c.resume (savedCpu cpu mem) = c.resume cpu := by
  have masks : envMasks &&& ~~~envFields = 0 := by decide
  have kept : (cpu.env ||| envMasks) &&& ~~~envFields = cpu.env &&& ~~~envFields := by
    rw [BitVec.and_or_distrib_right, masks]
    exact BitVec.or_zero
  simp only [Context.resume, savedCpu, Cpu.set, kept]

section Whole

variable {cpu : Cpu} {mem : Memory}

theorem Apart.saved_agree (apart : Apart cpu mem) :
    Agree (InContext (ucp cpu mem)) mem (savedMem cpu mem) :=
  fun x inside => (savedMem_outside fun other => apart.contexts x other inside).symm

private theorem Apart.ucp_saved (apart : Apart cpu mem) :
    ucp (savedCpu cpu mem) (savedMem cpu mem) = ucp cpu mem := by
  have same : (savedCpu cpu mem).reg .esp = cpu.reg .esp := rfl
  rw [ucp, ucp, same]
  refine load_congr (by decide) fun x inside => savedMem_outside (apart.top x ?_)
  exact inside.of_offset (show 8 + 4 ≤ 12 by decide) (by decide)

theorem Apart.run (apart : Apart cpu mem) (prepared : Prepared mem (ucp cpu mem)) :
    run .esp cpu mem swapcontextFast =
      some ((Context.read mem (ucp cpu mem)).resume cpu, enteredMem cpu mem) := by
  have same := apart.saved_agree
  have second := apart.ucp_saved
  have ready : Prepared (savedMem cpu mem) (ucp (savedCpu cpu mem) (savedMem cpu mem)) := by
    rw [second]
    exact prepared.congr same
  rw [swapcontextFast, run_append, save_run, Option.bind_some, restore_run ready, second,
    ← read_congr same, resume_savedCpu]
  rfl

theorem Apart.entered_agree (apart : Apart cpu mem) :
    Agree (InContext (oucp cpu mem)) (savedMem cpu mem) (enteredMem cpu mem) :=
  fun x inside => (store_of_not_within fun below => apart.slot x below inside).symm

theorem Apart.saved (apart : Apart cpu mem) :
    Context.read (enteredMem cpu mem) (oucp cpu mem) = .capture cpu mem :=
  (read_congr apart.entered_agree).symm.trans (savedMem_read apart)

theorem Apart.prepares (apart : Apart cpu mem) :
    Prepared (enteredMem cpu mem) (oucp cpu mem) where
  fpregs := by
    rw [← savedMem_fpregs]
    exact load_congr (by decide) fun x within => (apart.entered_agree x
      (within.of_offset (show oFPREGS + 4 ≤ ctxSize by decide) (by decide))).symm
  apart x below := by
    rw [apart.saved, InSlot, Context.capture, BitVec.add_sub_cancel] at below
    exact apart.top x (Nat.lt_of_lt_of_le below (by decide))

end Whole

/-- A coroutine that has switched to another one, and whose context is left alone until something
switches back to it, goes on behind its call with `eax` 0 and with the registers it had there. -/
theorem swapcontext_fast_i386_resumes {cpu cpu₁ cpu' : Cpu} {mem mem₁ mem' : Memory}
    (prepared : Prepared mem (ucp cpu mem)) (apart : Apart cpu mem)
    (away : run .esp cpu mem swapcontextFast = some (cpu₁, mem₁))
    (kept : Agree (InContext (oucp cpu mem)) mem₁ mem') (back : ucp cpu' mem' = oucp cpu mem)
    (apart' : Apart cpu' mem') :
    (∀ x, ¬ InContext (oucp cpu mem) x → ¬ InSlot (.read mem (ucp cpu mem)) x → mem₁ x = mem x) ∧
    ∃ cpu₂ mem₂, run .esp cpu' mem' swapcontextFast = some (cpu₂, mem₂) ∧
      cpu₂.reg .eax = 0 ∧ (∀ r, r ≠ .eax → r ≠ .esp → cpu₂.reg r = cpu.reg r) ∧
      cpu₂.reg .esp = cpu.reg .esp + 4 ∧ cpu₂.ip = load mem (cpu.reg .esp) 4 ∧
      cpu₂.fs = cpu.fs ∧
      ∀ j, envFields.getLsbD j = true → cpu₂.env.getLsbD j = cpu.env.getLsbD j := by
  rw [apart.run prepared] at away
  cases away
  constructor
  · intro x outside above
    exact (store_of_not_within above).trans (savedMem_outside outside)
  · have ready : Prepared mem' (ucp cpu' mem') := back ▸ apart.prepares.congr kept
    have context : Context.read mem' (ucp cpu' mem') = .capture cpu mem := by
      rw [back, ← read_congr kept]
      exact apart.saved
    refine ⟨_, _, apart'.run ready, ?_⟩
    rw [context]
    refine ⟨rfl, fun r other below => ?_, rfl, rfl, ?_, fun j field => ?_⟩
    · cases r with
      | eax => exact absurd rfl other
      | esp => exact absurd rfl below
      | _ => rfl
    · simp [Context.resume, Context.capture]
    · simp [Context.resume, Context.capture, field]

/-- The caller of a switch from the context at 0x2000 to the one at 0x3000. -/
def awayCpu : Cpu where
  reg
    | .esp => BitVec.ofNat 32 0x1000
    | .ebx => 7
    | _ => 0
  ip := 0
  env := 0
  mxcsr := 0
  fs := 0x33

def awayMem : Memory :=
  let mem := store (fun _ => 0) (BitVec.ofNat 32 0x1004) 4 (BitVec.ofNat 32 0x2000)
  let mem := store mem (BitVec.ofNat 32 0x1008) 4 (BitVec.ofNat 32 0x3000)
  let mem := store mem (BitVec.ofNat 32 0x3060) 4 (BitVec.ofNat 32 0x30ec)
  store mem (BitVec.ofNat 32 0x3030) 4 (BitVec.ofNat 32 0x5000)

def backCpu : Cpu :=
  { awayCpu with reg := Function.update (fun _ => 1) .esp (BitVec.ofNat 32 0x4f00) }

def backMem : Memory :=
  let mem := store (enteredMem awayCpu awayMem) (BitVec.ofNat 32 0x4f04) 4 (BitVec.ofNat 32 0x3000)
  store mem (BitVec.ofNat 32 0x4f08) 4 (BitVec.ofNat 32 0x2000)

/-- The arguments of the two calls, the words that they push the `eip` to, and the link from the
context on the other stack to its floating-point environment. -/
theorem away_back_words :
    (oucp awayCpu awayMem = BitVec.ofNat 32 0x2000 ∧ ucp awayCpu awayMem = BitVec.ofNat 32 0x3000) ∧
    (oucp backCpu backMem = BitVec.ofNat 32 0x3000 ∧ ucp backCpu backMem = BitVec.ofNat 32 0x2000) ∧
    (Context.read awayMem (BitVec.ofNat 32 0x3000)).esp - 4 = BitVec.ofNat 32 0x4ffc ∧
    (Context.read backMem (BitVec.ofNat 32 0x2000)).esp - 4 = BitVec.ofNat 32 0x1000 ∧
    load awayMem (member (BitVec.ofNat 32 0x3000) oFPREGS) 4 =
      member (BitVec.ofNat 32 0x3000) oFPREGSMEM := by
  decide +kernel

private theorem away_oucp : oucp awayCpu awayMem = BitVec.ofNat 32 0x2000 := away_back_words.1.1

private theorem away_ucp : ucp awayCpu awayMem = BitVec.ofNat 32 0x3000 := away_back_words.1.2

private theorem back_oucp : oucp backCpu backMem = BitVec.ofNat 32 0x3000 := away_back_words.2.1.1

private theorem back_ucp : ucp backCpu backMem = BitVec.ofNat 32 0x2000 := away_back_words.2.1.2

private theorem away_slot : (Context.read awayMem (BitVec.ofNat 32 0x3000)).esp - 4 =
    BitVec.ofNat 32 0x4ffc :=
  away_back_words.2.2.1

private theorem back_slot : (Context.read backMem (BitVec.ofNat 32 0x2000)).esp - 4 =
    BitVec.ofNat 32 0x1000 :=
  away_back_words.2.2.2.1

private theorem away_prepared : Prepared awayMem (ucp awayCpu awayMem) := by
  rw [away_ucp]
  constructor
  · exact away_back_words.2.2.2.2
  · intro x slot context
    rw [InSlot, away_slot, within_ofNat (by decide)] at slot
    rw [InContext, ctxSize, within_ofNat (by decide)] at context
    omega

private theorem away_apart : Apart awayCpu awayMem := by
  constructor
  · intro x first second
    rw [away_oucp, InContext, ctxSize, within_ofNat (by decide)] at first
    rw [away_ucp, InContext, ctxSize, within_ofNat (by decide)] at second
    omega
  · intro x top context
    rw [show awayCpu.reg .esp = BitVec.ofNat 32 0x1000 from rfl, within_ofNat (by decide)] at top
    rw [away_oucp, InContext, ctxSize, within_ofNat (by decide)] at context
    omega
  · intro x slot context
    rw [away_ucp, InSlot, away_slot, within_ofNat (by decide)] at slot
    rw [away_oucp, InContext, ctxSize, within_ofNat (by decide)] at context
    omega

private theorem back_apart : Apart backCpu backMem := by
  constructor
  · intro x first second
    rw [back_oucp, InContext, ctxSize, within_ofNat (by decide)] at first
    rw [back_ucp, InContext, ctxSize, within_ofNat (by decide)] at second
    omega
  · intro x top context
    rw [show backCpu.reg .esp = BitVec.ofNat 32 0x4f00 from rfl, within_ofNat (by decide)] at top
    rw [back_oucp, InContext, ctxSize, within_ofNat (by decide)] at context
    omega
  · intro x slot context
    rw [back_ucp, InSlot, back_slot, within_ofNat (by decide)] at slot
    rw [back_oucp, InContext, ctxSize, within_ofNat (by decide)] at context
    omega

theorem swapcontext_fast_i386_resumes_caller : ∃ cpu₂ mem₂,
    run .esp backCpu backMem swapcontextFast = some (cpu₂, mem₂) ∧ cpu₂.reg .eax = 0 ∧
      cpu₂.reg .ebx = 7 ∧ cpu₂.reg .esp = BitVec.ofNat 32 0x1004 ∧ cpu₂.fs = 0x33 := by
  have kept : Agree (InContext (oucp awayCpu awayMem)) (enteredMem awayCpu awayMem) backMem := by
    intro x context
    rw [away_oucp, InContext, ctxSize, within_ofNat (by decide)] at context
    refine ((store_of_not_within ?_).trans (store_of_not_within ?_)).symm
    · rw [within_ofNat (by decide)]
      omega
    · rw [within_ofNat (by decide)]
      omega
  obtain ⟨_, cpu₂, mem₂, ran, eax, others, esp, _, fs, _⟩ := swapcontext_fast_i386_resumes
    away_prepared away_apart (away_apart.run away_prepared) kept (back_ucp.trans away_oucp.symm)
    back_apart
  exact ⟨cpu₂, mem₂, ran, eax, others .ebx (by decide) (by decide), esp, fs⟩

end Libtcr.SwapContextI386
