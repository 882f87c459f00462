import Libtcr.Coroutines
import Libtcr.ThreadRef
import Libtcr.SwapContext

/-! The switches of the workers, one instruction of `swapcontext_fast` at a time. The workers
have a processor each and share one memory, which holds the contexts and the stacks of the
coroutines; `cr_call` starts the code, and what has been entered does not go on before the
code has ended. Between the switches a worker executes any code that keeps off the contexts
of the coroutines that are not being executed. -/

set_option autoImplicit false

namespace Libtcr

open ByteMemory SwapContext

/-- Where a coroutine lies: `cr->ctx`, and the memory at `uc_stack.ss_sp`. -/
structure Layout where
  ctx : X86.Word 8
  ssSp : X86.Word 8
  ssSize : Nat
  apart : ∀ x, InContext ctx x → ¬ Within ssSp ssSize x

namespace Layout

def InStack (l : Layout) (x : X86.Word 8) : Prop := Within l.ssSp l.ssSize x

def Owns (l : Layout) (x : X86.Word 8) : Prop := InContext l.ctx x ∨ l.InStack x

end Layout

/-- What `cr_setup` is to call: `func(arg1, arg2)`. -/
structure Entry where
  func : X86.Word 8
  arg1 : X86.Word 8
  arg2 : X86.Word 8
  deriving DecidableEq

def Entry.halves (e : Entry) : List (BitVec 32) :=
  [(e.func >>> 32).setWidth 32, e.func.setWidth 32,
    (e.arg1 >>> 32).setWidth 32, e.arg1.setWidth 32,
    (e.arg2 >>> 32).setWidth 32, e.arg2.setWidth 32]

def crSetup (i1 i2 i3 i4 i5 i6 : BitVec 32) : Entry where
  func := (i1.setWidth 64 <<< 32) ||| i2.setWidth 64
  arg1 := (i3.setWidth 64 <<< 32) ||| i4.setWidth 64
  arg2 := (i5.setWidth 64 <<< 32) ||| i6.setWidth 64

/-- The integer arguments of the function that a processor has come to; the upper halves of
the registers are not defined for them. -/
def intArgs (cpu : SwapContext.Cpu) : List (BitVec 32) :=
  [Reg.rdi, .rsi, .rdx, .rcx, .r8, .r9].map fun r => (cpu.reg r).setWidth 32

/-- `makecontext` has prepared the context: it continues at `cr_setup`, at the address
`setup`, with the six arguments. -/
def SwapContext.Context.Enters (c : Context) (setup : X86.Word 8) (e : Entry) : Prop :=
  c.rip = setup ∧ [c.rdi, c.rsi, c.rdx, c.rcx, c.r8, c.r9].map (BitVec.setWidth 32) = e.halves

structure SwitchState where
  cr : CrState
  mem : SwapContext.Memory
  cpu : WorkerId → SwapContext.Cpu
  /-- What is left of `swapcontext_fast`. -/
  code : WorkerId → List (X86.Instr Reg)
  -- history: the registers a coroutine is to continue with, the memory when it was left or
  -- made, the bytes that other code has written since, and what it has been made for until
  -- it is left for the first time
  expected : Cr → Context
  snapshot : Cr → SwapContext.Memory
  touched : Cr → X86.Word 8 → Prop
  fresh : Cr → Option Entry

inductive SwitchAction where
  | cr (a : CrAction)
  /-- `tc_thread_new` with `cr_create(func, arg1, arg2, stack_size)`. -/
  | create (w : WorkerId) (u : Tid) (d : DomainId) (nr : Int) (affine : Bool) (e : Entry)
      (mem : SwapContext.Memory)
  | compute (w : WorkerId) (cpu : SwapContext.Cpu) (mem : SwapContext.Memory)
  /-- `cr_call`, up to the `call` of `swapcontext_fast` that returns to `ret`. -/
  | call (w : WorkerId) (ret : X86.Word 8)
  | instr (w : WorkerId)

def CrAction.worker : CrAction → WorkerId
  | .system a => a.worker
  | .acquire w | .call w | .release w | .free w => w

/-- The steps of `CrState` that the steps `create` and `call` are made for. -/
def CrAction.replaced : CrAction → Bool
  | .system a => a.creates
  | .call _ => true
  | _ => false

namespace SwitchState

variable (layout : Cr → Layout)

/-- The processor of a worker at the first instruction of `swapcontext_fast`, and the
memory with the return address. -/
def begin (s : SwitchState) (w : WorkerId) (p c : Cr) (ret : X86.Word 8) :
    SwapContext.Cpu × SwapContext.Memory :=
  let top := (s.cpu w).reg .rsp - 8
  ((((s.cpu w).set .rdi (layout p).ctx).set .rsi (layout c).ctx).set .rsp top,
    store s.mem top 8 ret)

def step (s : SwitchState) : SwitchAction → Option SwitchState
  | .cr a =>
    if a.replaced = false ∧ s.code a.worker = [] then
      (s.cr.step a).map fun cr => { s with cr := cr }
    else none
  | .create w u d nr affine e mem =>
    if s.code w = [] then
      (s.cr.step (.system (.user w (.threadNew u d nr affine)))).map fun cr => { s with
        cr := cr
        mem := mem
        expected := Function.update s.expected (.thread u) (.read mem (layout (.thread u)).ctx)
        snapshot := Function.update s.snapshot (.thread u) mem
        touched := Function.update s.touched (.thread u) fun _ => False
        fresh := Function.update s.fresh (.thread u) (some e) }
    else none
  | .compute w cpu mem =>
    if s.code w = [] then
      some { s with
        cpu := Function.update s.cpu w cpu
        mem := mem
        touched := fun c x => s.touched c x ∨ mem x ≠ s.mem x }
    else none
  | .call w ret =>
    match s.cr.current w, s.cr.target w with
    | some p, some (c, _) =>
      if s.code w = [] then
        (s.cr.step (.call w)).map fun cr =>
          let (cpu, mem) := s.begin layout w p c ret
          { s with
            cr := cr
            mem := mem
            cpu := Function.update s.cpu w cpu
            code := Function.update s.code w swapcontextFast
            expected := Function.update s.expected p (.capture cpu mem)
            snapshot := Function.update s.snapshot p mem
            touched := Function.update s.touched p fun _ => False
            fresh := Function.update s.fresh p none }
      else none
    | _, _ => none
  | .instr w =>
    match s.code w with
    | [] => none
    | i :: rest =>
      (X86.step .rsp (s.cpu w) s.mem i).map fun after => { s with
        mem := after.2
        cpu := Function.update s.cpu w after.1
        code := Function.update s.code w rest }

/-- `cr_create` has returned the coroutine, and `cr_delete` has not freed it. -/
def Alive (s : SwitchState) : Cr → Prop
  | .thread t => s.cr.sys.status t ≠ .unused ∧ s.cr.destroyed t = false
  | .sched w => s.cr.sys.mode w ≠ .off

def Executed (s : SwitchState) (c : Cr) : Prop :=
  ∃ w, s.cr.current w = some c ∧ s.code w = []

/-- A context that `cr_create` has made: getcontext and makecontext have prepared it, with
the stack of the coroutine. -/
structure Created (setup : X86.Word 8) (l : Layout) (e : Entry) (mem : SwapContext.Memory) :
    Prop where
  prepared : Prepared mem l.ctx
  stack : ∀ x, InSlot (.read mem l.ctx) x → l.InStack x
  enters : (Context.read mem l.ctx).Enters setup e

/-- What the steps rely on: `malloc` returns memory that no coroutine lies in; other code
writes neither into the context of a coroutine that is not being executed nor below its
stack pointer; no reserved bit of MXCSR is ever set; and a coroutine calls
`swapcontext_fast` on its own stack. -/
def Allowed (setup : X86.Word 8) (s : SwitchState) : SwitchAction → Prop
  | .create _ u _ _ _ e mem =>
    (∀ c, s.Alive c → ∀ x, (layout (.thread u)).Owns x → ¬ (layout c).Owns x) ∧
    (∀ x, ¬ (layout (.thread u)).Owns x → mem x = s.mem x) ∧
    Created setup (layout (.thread u)) e mem
  | .compute _ cpu mem =>
    cpu.mxcsr &&& X86.mxcsrReserved = 0 ∧
    ∀ c, s.Alive c → ¬ s.Executed c → ∀ x, InContext (layout c).ctx x ∨ InSlot (s.expected c) x →
      mem x = s.mem x
  | .call w _ =>
    ∀ p, s.cr.current w = some p →
      ∀ x, Within ((s.cpu w).reg .rsp - 8) 8 x → (layout p).InStack x
  | .cr _ | .instr _ => True

/-- Every worker executes its main thread, and has made its `sched_p2`. -/
structure Starts (setup : X86.Word 8) (workers : Nat) (domainOf : WorkerId → DomainId)
    (s : SwitchState) : Prop where
  cr : s.cr = .initial workers domainOf
  code : ∀ w, s.code w = []
  mxcsr : ∀ w, (s.cpu w).mxcsr &&& X86.mxcsrReserved = 0
  apart : ∀ c d, s.Alive c → s.Alive d → c ≠ d → ∀ x, (layout c).Owns x → ¬ (layout d).Owns x
  fresh : ∀ c e, s.fresh c = some e → ∃ w < workers, c = .sched w
  sched : ∀ w < workers, ∃ e, s.fresh (.sched w) = some e ∧
    Created setup (layout (.sched w)) e s.mem ∧
    s.expected (.sched w) = .read s.mem (layout (.sched w)).ctx ∧ s.snapshot (.sched w) = s.mem

def Reached (setup : X86.Word 8) (workers : Nat) (domainOf : WorkerId → DomainId)
    (s : SwitchState) : Prop :=
  ∃ start, Starts layout setup workers domainOf start ∧
    Transition.Run (step layout) (Allowed layout setup) start s

end SwitchState

def crGetSpFromCr (mem : SwapContext.Memory) (ctx : X86.Word 8) : X86.Word 8 :=
  load mem (ctx + BitVec.ofNat 64 (8 * 0x14)) 8

end Libtcr
