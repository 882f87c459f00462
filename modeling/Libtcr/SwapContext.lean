import Libtcr.Lib.X86

/-! `swapcontext_fast` of `swapcontext_fast_x86_64.S`: the code as it stands there, and what
one execution of it does. -/

set_option autoImplicit false

namespace Libtcr.SwapContext

open ByteMemory X86

inductive Reg where
  | rax | rbx | rcx | rdx | rsi | rdi | rbp | rsp
  | r8 | r9 | r10 | r11 | r12 | r13 | r14 | r15
  deriving DecidableEq, Repr

abbrev Cpu := X86.Cpu 8 Reg
abbrev Memory := ByteMemory.Memory (8 * 8)

def oRBX := 0x80
def oRBP := 0x78
def oR12 := 0x48
def oR13 := 0x50
def oR14 := 0x58
def oR15 := 0x60
def oRDI := 0x68
def oRSI := 0x70
def oRDX := 0x88
def oRCX := 0x98
def oR8 := 0x28
def oR9 := 0x30
def oRIP := 0xa8
def oRSP := 0xa0
def oFPREGSMEM := 0x1a8
def oFPREGS := 0xe0
def oMXCSR := 0x1c0

/-- The first half of `swapcontext_fast`. -/
def saveCode : List (Instr Reg) := [
  -- Save the preserved registers, the registers used for passing args, and the return
  -- address.
  .store .rbx oRBX .rdi,
  .store .rbp oRBP .rdi,
  .store .r12 oR12 .rdi,
  .store .r13 oR13 .rdi,
  .store .r14 oR14 .rdi,
  .store .r15 oR15 .rdi,
  .store .rdi oRDI .rdi,
  .store .rsi oRSI .rdi,
  .store .rdx oRDX .rdi,
  .store .rcx oRCX .rdi,
  .store .r8 oR8 .rdi,
  .store .r9 oR9 .rdi,
  .load 0 .rsp .rcx,
  .store .rcx oRIP .rdi,
  .lea 8 .rsp .rcx,
  .store .rcx oRSP .rdi,
  -- The floating-point environment goes to the __fpregs_mem block of the context.
  .lea oFPREGSMEM .rdi .rcx,
  .store .rcx oFPREGS .rdi,
  .fnstenv 0 .rcx,
  .stmxcsr oMXCSR .rdi]

/-- The second half of `swapcontext_fast`. -/
def restoreCode : List (Instr Reg) := [
  .load oFPREGS .rsi .rcx,
  .fldenv 0 .rcx,
  .ldmxcsr oMXCSR .rsi,
  -- Load the new stack pointer and the preserved registers.
  .load oRSP .rsi .rsp,
  .load oRBX .rsi .rbx,
  .load oRBP .rsi .rbp,
  .load oR12 .rsi .r12,
  .load oR13 .rsi .r13,
  .load oR14 .rsi .r14,
  .load oR15 .rsi .r15,
  .load oRIP .rsi .rcx,
  .push .rcx,
  -- Setup registers used for passing args.
  .load oRDI .rsi .rdi,
  .load oRDX .rsi .rdx,
  .load oRCX .rsi .rcx,
  .load oR8 .rsi .r8,
  .load oR9 .rsi .r9,
  .load oRSI .rsi .rsi,
  -- Clear rax to indicate success.
  .xorl .rax .rax,
  .ret]

def swapcontextFast : List (Instr Reg) := saveCode ++ restoreCode

/-- What `swapcontext_fast` keeps in a `ucontext_t`. Of the 28 bytes of the floating-point
environment the last four are not kept: `mxcsr` has their place. -/
structure Context where
  rbx : Word 8
  rbp : Word 8
  r12 : Word 8
  r13 : Word 8
  r14 : Word 8
  r15 : Word 8
  rdi : Word 8
  rsi : Word 8
  rdx : Word 8
  rcx : Word 8
  r8 : Word 8
  r9 : Word 8
  rip : Word 8
  rsp : Word 8
  env : BitVec (8 * 24)
  mxcsr : BitVec (8 * 4)
  deriving DecidableEq

def member (ctx : Word 8) (offset : Nat) : Word 8 := ctx + BitVec.ofNat (8 * 8) offset

namespace Context

def read (mem : Memory) (ctx : Word 8) : Context where
  rbx := load mem (member ctx oRBX) 8
  rbp := load mem (member ctx oRBP) 8
  r12 := load mem (member ctx oR12) 8
  r13 := load mem (member ctx oR13) 8
  r14 := load mem (member ctx oR14) 8
  r15 := load mem (member ctx oR15) 8
  rdi := load mem (member ctx oRDI) 8
  rsi := load mem (member ctx oRSI) 8
  rdx := load mem (member ctx oRDX) 8
  rcx := load mem (member ctx oRCX) 8
  r8 := load mem (member ctx oR8) 8
  r9 := load mem (member ctx oR9) 8
  rip := load mem (member ctx oRIP) 8
  rsp := load mem (member ctx oRSP) 8
  env := load mem (member ctx oFPREGSMEM) 24
  mxcsr := load mem (member ctx oMXCSR) 4

/-- The registers of the caller of `swapcontext_fast`, as they will be after the `ret`. -/
def capture (cpu : Cpu) (mem : Memory) : Context where
  rbx := cpu.reg .rbx
  rbp := cpu.reg .rbp
  r12 := cpu.reg .r12
  r13 := cpu.reg .r13
  r14 := cpu.reg .r14
  r15 := cpu.reg .r15
  rdi := cpu.reg .rdi
  rsi := cpu.reg .rsi
  rdx := cpu.reg .rdx
  rcx := cpu.reg .rcx
  r8 := cpu.reg .r8
  r9 := cpu.reg .r9
  rip := load mem (cpu.reg .rsp) 8
  rsp := cpu.reg .rsp + 8
  env := cpu.env.setWidth (8 * 24)
  mxcsr := cpu.mxcsr

/-- The processor in the context: `rax` is 0, and the data selector of the floating-point
environment has the low half of `mxcsr`. -/
def resume (c : Context) (cpu : Cpu) : Cpu where
  reg
    | .rax => 0
    | .rbx => c.rbx
    | .rcx => c.rcx
    | .rdx => c.rdx
    | .rsi => c.rsi
    | .rdi => c.rdi
    | .rbp => c.rbp
    | .rsp => c.rsp
    | .r8 => c.r8
    | .r9 => c.r9
    | .r10 => cpu.reg .r10
    | .r11 => cpu.reg .r11
    | .r12 => c.r12
    | .r13 => c.r13
    | .r14 => c.r14
    | .r15 => c.r15
  ip := c.rip
  env := ((c.mxcsr ++ c.env) &&& envFields) ||| (cpu.env &&& ~~~envFields)
  mxcsr := c.mxcsr
  fs := cpu.fs

end Context

/-- The processor continues with a context. The control, status and tag words, the
instruction pointer and the data pointer of the floating-point environment come from the
context; the selector of the data pointer does not. -/
structure Resumes (c : Context) (cpu : Cpu) : Prop where
  rax : cpu.reg .rax = 0
  rbx : cpu.reg .rbx = c.rbx
  rbp : cpu.reg .rbp = c.rbp
  rsp : cpu.reg .rsp = c.rsp
  r12 : cpu.reg .r12 = c.r12
  r13 : cpu.reg .r13 = c.r13
  r14 : cpu.reg .r14 = c.r14
  r15 : cpu.reg .r15 = c.r15
  rdi : cpu.reg .rdi = c.rdi
  rsi : cpu.reg .rsi = c.rsi
  rdx : cpu.reg .rdx = c.rdx
  rcx : cpu.reg .rcx = c.rcx
  r8 : cpu.reg .r8 = c.r8
  r9 : cpu.reg .r9 = c.r9
  ip : cpu.ip = c.rip
  mxcsr : cpu.mxcsr = c.mxcsr
  env : ∀ j < 192, envFields.getLsbD j = true → cpu.env.getLsbD j = c.env.getLsbD j
  selector : ∀ j < 16, cpu.env.getLsbD (192 + j) = c.mxcsr.getLsbD j

/-- The bytes of a `ucontext_t` up to the end of `__fpregs_mem.mxcsr`. -/
def ctxSize : Nat := 0x1c4

def InContext (ctx x : Word 8) : Prop := Within ctx ctxSize x

/-- The word below the stack pointer of a context, where the `push` puts the address that
the `ret` takes. -/
def InSlot (c : Context) (x : Word 8) : Prop := Within (c.rsp - 8) 8 x

/-- A context that can be switched to: its link to the floating-point memory is to its own,
and the word below its stack pointer is outside of it. -/
structure Prepared (mem : Memory) (ctx : Word 8) : Prop where
  fpregs : load mem (member ctx oFPREGS) 8 = member ctx oFPREGSMEM
  mxcsr : (Context.read mem ctx).mxcsr &&& mxcsrReserved = 0
  apart : ∀ x, InSlot (Context.read mem ctx) x → ¬ InContext ctx x

end Libtcr.SwapContext
