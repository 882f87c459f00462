import Libtcr.SwapContext

/-! One execution of `swapcontext_fast`: the registers it leaves in the context it saves, the
registers it goes on with, and the memory it accesses. -/

set_option autoImplicit false

namespace Libtcr.SwapContext

open ByteMemory X86

/-! ## The first half -/

def savedMem (cpu : Cpu) (mem : Memory) : Memory :=
  let ctx := cpu.reg .rdi
  let mem := store mem (member ctx oRBX) 8 (cpu.reg .rbx)
  let mem := store mem (member ctx oRBP) 8 (cpu.reg .rbp)
  let mem := store mem (member ctx oR12) 8 (cpu.reg .r12)
  let mem := store mem (member ctx oR13) 8 (cpu.reg .r13)
  let mem := store mem (member ctx oR14) 8 (cpu.reg .r14)
  let mem := store mem (member ctx oR15) 8 (cpu.reg .r15)
  let mem := store mem (member ctx oRDI) 8 (cpu.reg .rdi)
  let mem := store mem (member ctx oRSI) 8 (cpu.reg .rsi)
  let mem := store mem (member ctx oRDX) 8 (cpu.reg .rdx)
  let mem := store mem (member ctx oRCX) 8 (cpu.reg .rcx)
  let mem := store mem (member ctx oR8) 8 (cpu.reg .r8)
  let mem := store mem (member ctx oR9) 8 (cpu.reg .r9)
  let mem := store mem (member ctx oRIP) 8 (load mem (cpu.reg .rsp) 8)
  let mem := store mem (member ctx oRSP) 8 (cpu.reg .rsp + 8)
  let mem := store mem (member ctx oFPREGS) 8 (member ctx oFPREGSMEM)
  let mem := store mem (member ctx oFPREGSMEM) 28 cpu.env
  store mem (member ctx oMXCSR) 4 cpu.mxcsr

def savedCpu (cpu : Cpu) : Cpu :=
  { cpu.set .rcx (member (cpu.reg .rdi) oFPREGSMEM) with env := cpu.env ||| envMasks }

theorem save_run (cpu : Cpu) (mem : Memory) :
    run .rsp cpu mem saveCode = some (savedCpu cpu, savedMem cpu mem) := by
  simp [saveCode, run, step, savedCpu, savedMem, Cpu.set, Cpu.address, member]

theorem savedMem_outside {cpu : Cpu} {mem : Memory} {x : Word 8}
    (outside : ¬ InContext (cpu.reg .rdi) x) : savedMem cpu mem x = mem x := by
  have apart (offset n : Nat) (part : offset + n ≤ ctxSize) :
      ¬ Within (member (cpu.reg .rdi) offset) n x :=
    fun inside => outside (inside.of_offset part (by decide))
  simp only [savedMem]
  repeat rw [store_of_not_within (apart _ _ (by decide))]

theorem savedMem_read {cpu : Cpu} {mem : Memory}
    (apart : ∀ x, Within (cpu.reg .rsp) 8 x → ¬ InContext (cpu.reg .rdi) x) :
    Context.read (savedMem cpu mem) (cpu.reg .rdi) = Context.capture cpu mem := by
  have returns : load (savedMem cpu mem) (member (cpu.reg .rdi) oRIP) 8 = load mem (cpu.reg .rsp) 8 := by
    have skip (mem : Memory) (offset : Nat) (value : Word 8) (part : offset + 8 ≤ ctxSize) :
        load (store mem (member (cpu.reg .rdi) offset) 8 value) (cpu.reg .rsp) 8 =
          load mem (cpu.reg .rsp) 8 :=
      load_store_apart (by decide) fun x inside within =>
        apart x inside (within.of_offset part (by decide))
    simp (disch := decide) only [savedMem, skip]
    simp (disch := decide) only [member, load_store_offset, load_store_same]
  unfold Context.read
  rw [returns]
  unfold Context.capture savedMem
  simp (disch := decide) only [member, load_store_offset, load_store_same, load_store_prefix]

theorem savedMem_fpregs {cpu : Cpu} {mem : Memory} :
    load (savedMem cpu mem) (member (cpu.reg .rdi) oFPREGS) 8 = member (cpu.reg .rdi) oFPREGSMEM := by
  simp (disch := decide) only [savedMem, member, load_store_offset, load_store_same]

/-! ## The second half -/

private theorem image_eq (mem : Memory) (ctx : Word 8) : load mem (member ctx oFPREGSMEM) 28 =
    (Context.read mem ctx).mxcsr ++ (Context.read mem ctx).env := by
  have place : member ctx oMXCSR = member ctx oFPREGSMEM + BitVec.ofNat (8 * 8) 24 := by
    rw [member, member, BitVec.add_assoc]
    rfl
  apply BitVec.eq_of_getLsbD_eq
  intro i _
  simp only [Context.read, place]
  exact load_add 24 4

theorem restore_run {cpu : Cpu} {mem : Memory} (prepared : Prepared mem (cpu.reg .rsi)) :
    run .rsp cpu mem restoreCode = some ((Context.read mem (cpu.reg .rsi)).resume cpu,
      store mem ((Context.read mem (cpu.reg .rsi)).rsp - 8) 8
        (Context.read mem (cpu.reg .rsi)).rip) := by
  have kept (offset : Nat) (value : Word 8) (part : offset + 8 ≤ ctxSize) :
      load (store mem ((Context.read mem (cpu.reg .rsi)).rsp - 8) 8 value)
        (member (cpu.reg .rsi) offset) 8 = load mem (member (cpu.reg .rsi) offset) 8 :=
    load_store_apart (by decide) fun x inside slot =>
      prepared.apart x slot (inside.of_offset part (by decide))
  have image := image_eq mem (cpu.reg .rsi)
  have link := prepared.fpregs
  have valid := prepared.mxcsr
  simp only [Context.read, member] at kept image link valid
  simp only [Nat.reduceMul, restoreCode, run, step, Cpu.set, Cpu.address, link, Cpu.setEnv,
    BitVec.add_zero, BitVec.ofNat_eq_ofNat, BitVec.xor_self, Nat.reduceLeDiff, Nat.reducePow,
    Nat.zero_lt_succ, BitVec.setWidth_ofNat_of_le_of_lt, Option.bind_some, ne_eq, reduceCtorEq,
    not_false_eq_true, Function.update_of_ne, Function.update_self, valid, ↓reduceIte,
    Option.some.injEq, Prod.mk.injEq]
  refine ⟨?_, rfl⟩
  simp only [Context.resume, X86.Cpu.mk.injEq]
  refine ⟨?_, ?_, ?_, rfl, trivial⟩
  · funext r
    cases r with
    | rsp => exact BitVec.sub_add_cancel _ _
    -- These are loaded after the push.
    | rdi => exact kept oRDI _ (by decide)
    | rdx => exact kept oRDX _ (by decide)
    | rcx => exact kept oRCX _ (by decide)
    | r8 => exact kept oR8 _ (by decide)
    | r9 => exact kept oR9 _ (by decide)
    | rsi => exact kept oRSI _ (by decide)
    | _ => rfl
  · exact load_store_same (by decide) _
  · exact congrArg (fun i => i &&& envFields ||| cpu.env &&& ~~~envFields) image

/-! ## The memory accessed -/

/-- The bytes that a switch from the context at `rdi` to the context `c` at `rsi` accesses. -/
def Accessed (cpu : Cpu) (c : Context) (x : Word 8) : Prop :=
  InContext (cpu.reg .rdi) x ∨ InContext (cpu.reg .rsi) x ∨ Within (cpu.reg .rsp) 8 x ∨ InSlot c x

private theorem save_confined (cpu : Cpu) (mem : Memory) (c : Context) :
    Confined .rsp (Accessed cpu c) cpu mem saveCode := by
  have part (offset n : Nat) (inside : offset + n ≤ ctxSize) (x : Word 8)
      (within : Within (cpu.reg .rdi + BitVec.ofNat 64 offset) n x) : Accessed cpu c x :=
    .inl (within.of_offset inside (by decide))
  have top (x : Word 8) (within : Within (cpu.reg .rsp) 8 x) : Accessed cpu c x :=
    .inr (.inr (.inl within))
  simp only [saveCode, Confined, Instr.Inside, Instr.access, Cpu.address, Nat.reduceMul,
    Option.some.injEq, Prod.mk.injEq, and_imp, forall_apply_eq_imp_iff, forall_eq', step,
    BitVec.add_zero, Cpu.set, reduceCtorEq, false_implies, implies_true, and_true, ne_eq,
    not_false_eq_true, Function.update_of_ne, Function.update_self, true_and]
  exact ⟨part _ _ (by decide), part _ _ (by decide), part _ _ (by decide), part _ _ (by decide),
    part _ _ (by decide), part _ _ (by decide), part _ _ (by decide), part _ _ (by decide),
    part _ _ (by decide), part _ _ (by decide), part _ _ (by decide), part _ _ (by decide), top,
    part _ _ (by decide), part _ _ (by decide), part _ _ (by decide), part _ _ (by decide),
    part _ _ (by decide)⟩

private theorem restore_confined {cpu start : Cpu} {mem : Memory}
    (loads : cpu.reg .rsi = start.reg .rsi) (prepared : Prepared mem (cpu.reg .rsi)) :
    Confined .rsp (Accessed start (.read mem (cpu.reg .rsi))) cpu mem restoreCode := by
  have part (offset n : Nat) (inside : offset + n ≤ ctxSize) (x : Word 8)
      (within : Within (cpu.reg .rsi + BitVec.ofNat 64 offset) n x) :
      Accessed start (.read mem (cpu.reg .rsi)) x :=
    .inr (.inl (loads ▸ within.of_offset inside (by decide)))
  have slot (x : Word 8)
      (within : Within (load mem (cpu.reg .rsi + BitVec.ofNat 64 oRSP) 8 - 8#64) 8 x) :
      Accessed start (.read mem (cpu.reg .rsi)) x :=
    .inr (.inr (.inr within))
  have link := prepared.fpregs
  have valid := prepared.mxcsr
  simp only [Context.read, member] at link valid
  simp only [restoreCode, Confined, Instr.Inside, Instr.access, Cpu.address, Nat.reduceMul,
    Option.some.injEq, Prod.mk.injEq, and_imp, forall_apply_eq_imp_iff, forall_eq', step, Cpu.set,
    link, BitVec.add_zero, Cpu.setEnv, BitVec.ofNat_eq_ofNat, reduceCtorEq, false_implies,
    implies_true, BitVec.xor_self, Nat.reduceLeDiff, Nat.reducePow, Nat.zero_lt_succ,
    BitVec.setWidth_ofNat_of_le_of_lt, and_true, ne_eq, not_false_eq_true, Function.update_of_ne,
    true_and, Function.update_self, Prod.forall, valid, ↓reduceIte]
  exact ⟨part _ _ (by decide), part _ _ (by decide), part _ _ (by decide), part _ _ (by decide),
    part _ _ (by decide), part _ _ (by decide), part _ _ (by decide), part _ _ (by decide),
    part _ _ (by decide), part _ _ (by decide), part _ _ (by decide), slot, part _ _ (by decide),
    part _ _ (by decide), part _ _ (by decide), part _ _ (by decide), part _ _ (by decide),
    part _ _ (by decide), slot⟩

/-- The contexts of the caller and of what it switches to lie apart from each other and from
the words at the stack pointers. -/
structure Switchable (cpu : Cpu) (mem : Memory) : Prop where
  prepared : Prepared mem (cpu.reg .rsi)
  mxcsr : cpu.mxcsr &&& mxcsrReserved = 0
  contexts : ∀ x, InContext (cpu.reg .rdi) x → ¬ InContext (cpu.reg .rsi) x
  top : ∀ x, Within (cpu.reg .rsp) 8 x → ¬ InContext (cpu.reg .rdi) x
  slot : ∀ x, InSlot (.read mem (cpu.reg .rsi)) x → ¬ InContext (cpu.reg .rdi) x

theorem read_congr {mem mem' : Memory} {ctx : Word 8} (same : Agree (InContext ctx) mem mem') :
    Context.read mem ctx = Context.read mem' ctx := by
  have part (offset n : Nat) (inside : offset + n ≤ ctxSize) :
      load mem (member ctx offset) n = load mem' (member ctx offset) n :=
    load_congr (Nat.le_trans (Nat.le_of_add_left_le inside) (by decide)) fun x within =>
      same x (within.of_offset inside (by decide))
  simp (disch := decide) only [Context.read, part]

theorem Prepared.congr {mem mem' : Memory} {ctx : Word 8} (prepared : Prepared mem ctx)
    (same : Agree (InContext ctx) mem mem') : Prepared mem' ctx where
  fpregs := by
    rw [← prepared.fpregs]
    exact load_congr (by decide) fun x within =>
      (same x (within.of_offset (show oFPREGS + 8 ≤ ctxSize by decide) (by decide))).symm
  mxcsr := read_congr same ▸ prepared.mxcsr
  apart := read_congr same ▸ prepared.apart

theorem inSlot_capture {cpu : Cpu} {mem : Memory} {x : Word 8} :
    InSlot (.capture cpu mem) x ↔ Within (cpu.reg .rsp) 8 x := by
  rw [InSlot, Context.capture, BitVec.add_sub_cancel]

def enteredMem (cpu : Cpu) (mem : Memory) : Memory :=
  let c := Context.read mem (cpu.reg .rsi)
  store (savedMem cpu mem) (c.rsp - 8) 8 c.rip

section Whole

variable {cpu : Cpu} {mem : Memory}

theorem Switchable.saved_agree (switchable : Switchable cpu mem) :
    Agree (InContext (cpu.reg .rsi)) mem (savedMem cpu mem) :=
  fun x inside => (savedMem_outside fun other => switchable.contexts x other inside).symm

theorem Switchable.confined (switchable : Switchable cpu mem) :
    Confined .rsp (Accessed cpu (.read mem (cpu.reg .rsi))) cpu mem swapcontextFast := by
  rw [swapcontextFast, confined_append]
  refine ⟨save_confined cpu mem _, fun after ran => ?_⟩
  rw [save_run] at ran
  cases ran
  rw [read_congr switchable.saved_agree]
  exact restore_confined rfl (switchable.prepared.congr switchable.saved_agree)

/-- The exception masks that `fnstenv` sets are among the fields that `fldenv` loads. -/
theorem resume_savedCpu (c : Context) (cpu : Cpu) : c.resume (savedCpu cpu) = c.resume cpu := by
  have masks : envMasks &&& ~~~envFields = 0 := by decide
  have kept : (cpu.env ||| envMasks) &&& ~~~envFields = cpu.env &&& ~~~envFields := by
    rw [BitVec.and_or_distrib_right, masks]
    exact BitVec.or_zero
  simp only [Context.resume, savedCpu, kept, X86.Cpu.mk.injEq]
  refine ⟨?_, trivial, trivial, trivial, rfl⟩
  funext r
  cases r <;> rfl

theorem resume_resumes (c : Context) (cpu : Cpu) : Resumes c (c.resume cpu) := by
  constructor
  case env =>
    intro j low field
    have bit : (c.mxcsr ++ c.env).getLsbD j = c.env.getLsbD j := by
      rw [BitVec.getLsbD_append, if_pos low]
    simp only [Context.resume, BitVec.getLsbD_or, BitVec.getLsbD_and, BitVec.getLsbD_not, field, bit]
    simp
  case selector =>
    intro j low
    have field : envFields.getLsbD (192 + j) = true := by
      have all : ∀ i < 16, envFields.getLsbD (192 + i) = true := by decide
      exact all j low
    have bit : (c.mxcsr ++ c.env).getLsbD (192 + j) = c.mxcsr.getLsbD j := by
      rw [BitVec.getLsbD_append, if_neg (by omega), Nat.add_sub_cancel_left]
    simp only [Context.resume, BitVec.getLsbD_or, BitVec.getLsbD_and, BitVec.getLsbD_not, field, bit]
    simp
  all_goals rfl

theorem Switchable.run (switchable : Switchable cpu mem) : run .rsp cpu mem swapcontextFast =
    some ((Context.read mem (cpu.reg .rsi)).resume cpu, enteredMem cpu mem) := by
  have same := switchable.saved_agree
  have prepared : Prepared (savedMem cpu mem) ((savedCpu cpu).reg .rsi) :=
    switchable.prepared.congr same
  have loaded : Context.read (savedMem cpu mem) ((savedCpu cpu).reg .rsi) =
      Context.read mem (cpu.reg .rsi) := (read_congr same).symm
  rw [swapcontextFast, run_append, save_run, Option.bind_some, restore_run prepared, loaded,
    resume_savedCpu]
  rfl

theorem Switchable.entered_agree (switchable : Switchable cpu mem) :
    Agree (InContext (cpu.reg .rdi)) (savedMem cpu mem) (enteredMem cpu mem) :=
  fun x inside => (store_of_not_within fun below => switchable.slot x below inside).symm

theorem Switchable.saved (switchable : Switchable cpu mem) :
    Context.read (enteredMem cpu mem) (cpu.reg .rdi) = .capture cpu mem :=
  (read_congr switchable.entered_agree).symm.trans (savedMem_read switchable.top)

theorem Switchable.prepares (switchable : Switchable cpu mem) :
    Prepared (enteredMem cpu mem) (cpu.reg .rdi) where
  fpregs := by
    rw [← savedMem_fpregs]
    exact load_congr (by decide) fun x within => (switchable.entered_agree x
      (within.of_offset (show oFPREGS + 8 ≤ ctxSize by decide) (by decide))).symm
  mxcsr := by
    rw [switchable.saved]
    exact switchable.mxcsr
  apart x below := by
    rw [switchable.saved, inSlot_capture] at below
    exact switchable.top x below

end Whole

end Libtcr.SwapContext
