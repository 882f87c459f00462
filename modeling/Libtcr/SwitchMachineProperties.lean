import Libtcr.SwitchMachineSteps

/-! A coroutine goes on where it was left, on whichever worker, however the instructions of
the workers interleave. -/

set_option autoImplicit false

namespace Libtcr

open State ByteMemory SwapContext

section Runs

variable {layout : Cr → Layout} {setup : X86.Word 8} {s s' : SwitchState} {w : WorkerId}
  {c : Cr}

namespace SwitchMachineInv

theorem starts {workers : Nat} {domainOf : WorkerId → DomainId}
    (starts : SwitchState.Starts layout setup workers domainOf s) :
    SwitchMachineInv layout setup s := by
  have quiet := starts.code
  have executed : ∀ t, s.Alive (.thread t) → s.cr.current t = some (.thread t) := by
    intro t alive
    by_cases main : t < workers
    · simp [starts.cr, CrState.initial, main]
    · simp [SwitchState.Alive, starts.cr, CrState.initial, State.initial, main] at alive
  have worker : ∀ w, s.Alive (.sched w) → w < workers := by
    intro w alive
    by_contra off
    simp [SwitchState.Alive, starts.cr, CrState.initial, State.initial, off] at alive
  constructor
  · rw [starts.cr]
    exact .initial workers domainOf
  · intro w t holds
    by_cases main : w < workers
    · rcases holds with current | ⟨called, _⟩ | ⟨locked, _⟩
      · simp only [starts.cr, CrState.initial, main, if_true, Option.some.injEq, Cr.thread.injEq]
          at current
        simp [starts.cr, CrState.initial, State.initial, ← current, main]
      · simp [starts.cr, CrState.initial] at called
      · simp [starts.cr, CrState.initial] at locked
    · simp [CrState.Holds, starts.cr, CrState.initial, main] at holds
  · exact fun w busy => absurd (quiet w) busy
  · exact starts.apart
  · exact starts.mxcsr
  · intro c alive idle
    cases c with
    | thread t => exact absurd (executed t alive) (idle.1 t)
    | sched w =>
        obtain ⟨e, _, created, expected, _⟩ := starts.sched w (worker w alive)
        exact ⟨expected.symm, created.prepared, expected ▸ created.stack⟩
  · intro c alive outside
    cases c with
    | thread t => exact absurd ⟨t, executed t alive, quiet t⟩ outside
    | sched w =>
        obtain ⟨e, _, _, _, snapshot⟩ := starts.sched w (worker w alive)
        intro x _ _ _
        rw [snapshot]
  · exact fun w p c busy => absurd (quiet w) busy
  · intro c e made
    obtain ⟨w, inside, rfl⟩ := starts.fresh c e made
    obtain ⟨e', other, created, expected, _⟩ := starts.sched w inside
    cases made.symm.trans other
    rw [expected]
    exact created.enters

theorem step {a : SwitchAction} (inv : SwitchMachineInv layout setup s)
    (allowed : s.Allowed layout setup a) (stepped : s.step layout a = some s') :
    SwitchMachineInv layout setup s' := by
  cases a with
  | cr a =>
      simp only [SwitchState.step] at stepped
      split at stepped
      · next ready =>
        obtain ⟨cr, moved, rfl⟩ := Option.map_eq_some_iff.mp stepped
        exact inv.cr_step ready.1 ready.2 moved
      · cases stepped
  | create w u d nr affine e mem =>
      simp only [SwitchState.step] at stepped
      split at stepped
      · next quiet =>
        obtain ⟨cr, moved, rfl⟩ := Option.map_eq_some_iff.mp stepped
        obtain ⟨free, outside, created⟩ := allowed
        exact inv.create quiet moved free outside created
      · cases stepped
  | compute w cpu mem =>
      simp only [SwitchState.step] at stepped
      split at stepped
      · next quiet =>
        cases stepped
        exact inv.compute quiet allowed.1 allowed.2
      · cases stepped
  | call w ret =>
      obtain ⟨p, c, begun⟩ := SwitchState.step_call stepped
      exact begun.inv (allowed p begun.before) inv
  | instr w =>
      obtain ⟨i, rest, cpu, instructed⟩ := SwitchState.step_instr stepped
      exact instructed.inv inv

theorem reached {workers : Nat} {domainOf : WorkerId → DomainId}
    (reached : s.Reached layout setup workers domainOf) : SwitchMachineInv layout setup s := by
  obtain ⟨start, starts, run⟩ := reached
  exact run.invariant (SwitchMachineInv layout setup) (.starts starts) fun inv allowed stepped =>
    inv.step allowed stepped

/-- No instruction of `swapcontext_fast` faults, and after the last one the worker goes on
with what the coroutine entered is to continue with. -/
theorem instr (inv : SwitchMachineInv layout setup s) {i : X86.Instr Reg}
    {rest : List (X86.Instr Reg)} (next : s.code w = i :: rest) :
    ∃ s' c, s.step layout (.instr w) = some s' ∧ s'.code w = rest ∧ s.cr.current w = some c ∧
      (rest = [] → Resumes (s.expected c) (s'.cpu w) ∧
        ∀ x, (layout c).InStack x → ¬ InSlot (s.expected c) x → ¬ s.touched c x →
          s'.mem x = s.snapshot c x) := by
  have busy : s.code w ≠ [] := by simp [next]
  obtain ⟨p, c, left, current, _, _, holds⟩ := inv.pair busy
  obtain ⟨start, done, mem, switching⟩ := inv.switching w p c busy left current
  -- the whole code runs from `start`, so its next instruction does in the memory as it is
  obtain ⟨after, moved⟩ : ∃ after, X86.step .rsp (s.cpu w) mem i = some after := by
    have whole := switching.switchable.run
    rw [← switching.code, next, X86.run_append, switching.ran, Option.bind_some] at whole
    cases moved : X86.step .rsp (s.cpu w) mem i with
    | none => simp [X86.run, moved] at whole
    | some after => exact ⟨after, rfl⟩
  obtain ⟨mem', now, _, _⟩ := X86.step_agree (by decide) (switching.inside next) switching.same moved
  obtain ⟨s', stepped⟩ : ∃ s', s.step layout (.instr w) = some s' := by
    simp only [SwitchState.step, next, now, Option.map_some]
    exact ⟨_, rfl⟩
  obtain ⟨i', rest', cpu, instructed⟩ := SwitchState.step_instr stepped
  obtain ⟨rfl, rfl⟩ := List.cons.inj (next.symm.trans instructed.before)
  refine ⟨s', c, stepped, by simp [instructed.code], current, ?_⟩
  rintro rfl
  obtain ⟨⟨mem'', ended⟩, _⟩ := instructed.advance switching
  have whole : done ++ [i] = swapcontextFast := by
    simpa [instructed.code] using ended.code
  have ran := ended.ran
  rw [whole, ended.switchable.run] at ran
  obtain ⟨resumed, _⟩ := Prod.mk.inj (Option.some.inj ran)
  constructor
  · rw [← resumed, switching.read, switching.loads]
    exact resume_resumes _ _
  · intro x inside above untouched
    have alive := inv.alive_of_holds holds
    rw [instructed.mem_eq inv switching left current alive (.inr inside) fun _ => ⟨inside, above⟩]
    exact inv.keeps c alive (inv.not_executed busy holds) x inside above untouched

end SwitchMachineInv

end Runs

/-! ## Results -/

private theorem halves_join (x : X86.Word 8) :
    (((x >>> 32).setWidth 32).setWidth 64 <<< 32) ||| (x.setWidth 32).setWidth 64 = x := by
  apply BitVec.eq_of_getLsbD_eq
  intro j inside
  by_cases low : j < 32
  · simp [low, inside]
  · have high : 32 + (j - 32) = j := by omega
    have rest : j - 32 < 32 := by omega
    simp [low, inside, high, rest]

private theorem crSetup_halves (e : Entry) :
    ∃ i1 i2 i3 i4 i5 i6, e.halves = [i1, i2, i3, i4, i5, i6] ∧ crSetup i1 i2 i3 i4 i5 i6 = e := by
  refine ⟨_, _, _, _, _, _, rfl, ?_⟩
  simp only [crSetup, halves_join]

section Results

variable {layout : Cr → Layout} {setup : X86.Word 8} {workers : Nat}
  {domainOf : WorkerId → DomainId} {s : SwitchState} {w : WorkerId} {c : Cr}

/-- The steps of the machine are steps of the coroutines, or leave them alone. -/
theorem SwitchState.Reached.refines (reached : s.Reached layout setup workers domainOf) :
    CrReachable workers domainOf s.cr := by
  obtain ⟨start, starts, run⟩ := reached
  induction run with
  | refl =>
      rw [starts.cr]
      exact .refl
  | @next before after label _ _ stepped ih =>
      cases label with
      | cr a =>
          simp only [SwitchState.step] at stepped
          split at stepped
          · obtain ⟨cr, moved, rfl⟩ := Option.map_eq_some_iff.mp stepped
            exact .next ih trivial moved
          · cases stepped
      | create w u d nr affine e mem =>
          simp only [SwitchState.step] at stepped
          split at stepped
          · obtain ⟨cr, moved, rfl⟩ := Option.map_eq_some_iff.mp stepped
            exact .next ih trivial moved
          · cases stepped
      | compute w cpu mem =>
          simp only [SwitchState.step] at stepped
          split at stepped
          · cases stepped
            exact ih
          · cases stepped
      | call w ret =>
          obtain ⟨p, c, begun⟩ := SwitchState.step_call stepped
          exact .next ih trivial begun.cr
      | instr w =>
          obtain ⟨i, rest, cpu, instructed⟩ := SwitchState.step_instr stepped
          rw [instructed.cr]
          exact ih

/-- However the instructions of the workers interleave: no instruction of a switch faults,
and with the last one the worker has the registers with which the coroutine it enters was
left or made, and `rax` 0. The stack of the coroutine is byte for byte as it was left, but
for what other code has written since and for the word below the stack pointer. -/
theorem coroutine_resumes (reached : s.Reached layout setup workers domainOf)
    {i : X86.Instr Reg} {rest : List (X86.Instr Reg)} (next : s.code w = i :: rest) :
    ∃ s' c, s.step layout (.instr w) = some s' ∧ s'.code w = rest ∧ s.cr.current w = some c ∧
      (rest = [] → Resumes (s.expected c) (s'.cpu w) ∧
        ∀ x, (layout c).InStack x → ¬ InSlot (s.expected c) x → ¬ s.touched c x →
          s'.mem x = s.snapshot c x) :=
  (SwitchMachineInv.reached reached).instr next

/-- The first entry of a coroutine leads to `cr_setup`, which puts together from its six
integers the function and the arguments that `cr_create` has been called with. -/
theorem first_entry_calls_func (reached : s.Reached layout setup workers domainOf)
    {i : X86.Instr Reg} (last : s.code w = [i]) (current : s.cr.current w = some c) {e : Entry}
    (fresh : s.fresh c = some e) :
    ∃ s', s.step layout (.instr w) = some s' ∧ (s'.cpu w).ip = setup ∧
      ∃ i1 i2 i3 i4 i5 i6, intArgs (s'.cpu w) = [i1, i2, i3, i4, i5, i6] ∧
        crSetup i1 i2 i3 i4 i5 i6 = e := by
  have inv := SwitchMachineInv.reached reached
  obtain ⟨s', c', stepped, _, executes, ended⟩ := inv.instr last
  cases current.symm.trans executes
  obtain ⟨resumes, _⟩ := ended rfl
  obtain ⟨rip, args⟩ := inv.fresh c e fresh
  obtain ⟨i1, i2, i3, i4, i5, i6, halves, joined⟩ := crSetup_halves e
  refine ⟨s', stepped, resumes.ip.trans rip, i1, i2, i3, i4, i5, i6, ?_, joined⟩
  rw [← halves, ← args]
  simp only [intArgs, List.map, resumes.rdi, resumes.rsi, resumes.rdx, resumes.rcx, resumes.r8,
    resumes.r9]

/-- The stack pointer that `cr_get_sp_from_cr` finds of a coroutine that no worker executes
or saves is the one it will continue with, and the word below it is in its stack. -/
theorem waiting_stack_pointer (reached : s.Reached layout setup workers domainOf)
    (alive : s.Alive c) (idle : s.Idle c) :
    crGetSpFromCr s.mem (layout c).ctx = (s.expected c).rsp ∧
      ∀ x, Within (crGetSpFromCr s.mem (layout c).ctx - 8) 8 x → (layout c).InStack x := by
  have saved := (SwitchMachineInv.reached reached).saved c alive idle
  have same : crGetSpFromCr s.mem (layout c).ctx = (s.expected c).rsp := by
    rw [← saved.read]
    rfl
  rw [same]
  exact ⟨rfl, saved.stack⟩

end Results

/-! ## Two switches -/

def pairLayout : Cr → Layout
  | .thread _ => ⟨BitVec.ofNat 64 0x10000, BitVec.ofNat 64 0x20000, 0x1000, by
      intro x context stack
      rw [InContext, ctxSize, within_ofNat (by decide)] at context
      rw [within_ofNat (by decide)] at stack
      omega⟩
  | .sched _ => ⟨BitVec.ofNat 64 0x40000, BitVec.ofNat 64 0x50000, 0x1000, by
      intro x context stack
      rw [InContext, ctxSize, within_ofNat (by decide)] at context
      rw [within_ofNat (by decide)] at stack
      omega⟩

/-- `makecontext` has prepared `sched_p2` for `scheduler_part2(NULL, NULL)`. -/
def pairMem : SwapContext.Memory :=
  let ctx : X86.Word 8 := 0x40000
  let mem : SwapContext.Memory := fun _ => 0
  let mem := store mem (member ctx oFPREGS) 8 (member ctx oFPREGSMEM)
  let mem := store mem (member ctx oRSP) 8 0x50800
  let mem := store mem (member ctx oRIP) 8 0x401200
  let mem := store mem (member ctx oRDI) 8 0x7fff
  store mem (member ctx oRSI) 8 0x00401136

def pairStart : SwitchState where
  cr := .initial 1 fun _ => 0
  mem := pairMem
  cpu _ := ⟨fun r => if r = .rsp then 0x20800 else 0, 0, 0, 0x1f80, 0⟩
  code _ := []
  expected _ := .read pairMem 0x40000
  snapshot _ := pairMem
  touched _ _ := False
  fresh c := if c = .sched 0 then some ⟨0x7fff00401136, 0, 0⟩ else none

def pairAllowed (s : SwitchState) : SwitchAction → Bool
  | .cr _ | .instr _ => true
  | .call w _ => decide ((s.cpu w).reg .rsp = 0x20800 ∧ s.cr.current w = some (.thread 0) ∨
      (s.cpu w).reg .rsp = 0x50800 ∧ s.cr.current w = some (.sched 0))
  | _ => false

/-- The first entry of `sched_p2` is at its last instruction. -/
def pairEnters (s : SwitchState) : Bool :=
  decide (s.code 0 = [.ret] ∧ s.cr.current 0 = some (.sched 0) ∧
    s.fresh (.sched 0) = some ⟨0x7fff00401136, 0, 0⟩)

def pairRun : List SwitchAction :=
  [.cr (.system (.user 0 (.yield 0))), .cr (.system (.advance 0)), .cr (.system (.advance 0)),
    .cr (.acquire 0), .call 0 0x401999] ++ List.replicate 39 (.instr 0)

/-- The thread has yielded to `sched_p2`, which has switched back to it. -/
def pairReturns (s : SwitchState) : Bool :=
  decide (s.code 0 = [] ∧ s.cr.current 0 = some (.thread 0) ∧ s.cr.left 0 = some (.sched 0) ∧
    s.cr.sys.mode 0 ≠ .off ∧ (s.expected (.sched 0)).rsp = 0x50800)

def pairReturn : List SwitchAction :=
  [.instr 0, .cr (.release 0), .cr (.system (.runImmediate 0 .any)), .cr (.acquire 0),
    .call 0 0x401777] ++ List.replicate 40 (.instr 0)

set_option maxRecDepth 20000 in
private theorem pair_run :
    (∃ s, Transition.Run (Transition.guarded (SwitchState.step pairLayout) pairAllowed)
      Transition.always pairStart s ∧ pairEnters s = true) ∧
    ∃ s, Transition.Run (Transition.guarded (SwitchState.step pairLayout) pairAllowed)
      Transition.always pairStart s ∧ pairReturns s = true :=
  ⟨Transition.exists_run _ pairStart pairRun pairEnters (by decide +kernel),
    Transition.exists_run _ pairStart (pairRun ++ pairReturn) pairReturns (by decide +kernel)⟩

private theorem pairLayout_apart {t : Tid} {w : WorkerId} {x : X86.Word 8}
    (first : (pairLayout (.thread t)).Owns x) : ¬ (pairLayout (.sched w)).Owns x := by
  simp only [pairLayout, Layout.Owns, Layout.InStack, InContext, ctxSize] at first ⊢
  rw [within_ofNat (by decide), within_ofNat (by decide)] at first ⊢
  omega

private theorem pair_alive {c : Cr} (alive : pairStart.Alive c) : c = .thread 0 ∨ c = .sched 0 := by
  cases c with
  | thread t =>
      have main : t = 0 := by
        simpa [SwitchState.Alive, pairStart, CrState.initial, State.initial] using alive
      exact .inl (by rw [main])
  | sched w =>
      have main : w = 0 := by
        simpa [SwitchState.Alive, pairStart, CrState.initial, State.initial] using alive
      exact .inr (by rw [main])

private theorem pair_slot : (Context.read pairMem (pairLayout (.sched 0)).ctx).rsp - 8 =
    BitVec.ofNat 64 0x507f8 := by
  decide +kernel

private theorem pair_created : SwitchState.Created 0x401200 (pairLayout (.sched 0))
    ⟨0x7fff00401136, 0, 0⟩ pairMem where
  prepared := by
    constructor
    · decide +kernel
    · decide +kernel
    · intro x slot context
      rw [InSlot, pair_slot, within_ofNat (by decide)] at slot
      rw [pairLayout, InContext, ctxSize, within_ofNat (by decide)] at context
      omega
  stack := by
    intro x slot
    rw [InSlot, pair_slot, within_ofNat (by decide)] at slot
    show Within (BitVec.ofNat 64 0x50000) 0x1000 x
    rw [within_ofNat (by decide)]
    omega
  enters := by
    constructor <;> decide +kernel

private theorem pair_starts : pairStart.Starts pairLayout 0x401200 1 fun _ => 0 where
  cr := rfl
  code _ := rfl
  mxcsr _ := show (0x1f80 : BitVec 32) &&& X86.mxcsrReserved = 0 by decide
  apart c d first second other x owned := by
    rcases pair_alive first with rfl | rfl
    · rcases pair_alive second with rfl | rfl
      · exact absurd rfl other
      · exact pairLayout_apart owned
    · rcases pair_alive second with rfl | rfl
      · exact fun owns => pairLayout_apart owns owned
      · exact absurd rfl other
  fresh c e made := by
    simp only [pairStart] at made
    split at made
    · next same => exact ⟨0, by decide, same⟩
    · cases made
  sched w inside := by
    obtain rfl : w = 0 := by omega
    exact ⟨_, rfl, pair_created, rfl, rfl⟩

private theorem pair_allowed (s : SwitchState) (a : SwitchAction)
    (allowed : pairAllowed s a = true) :
    s.Allowed pairLayout 0x401200 a := by
  cases a with
  | cr a => trivial
  | instr w => trivial
  | create w u d nr affine e mem => cases allowed
  | compute w cpu mem => cases allowed
  | call w ret =>
      intro p current x slot
      simp only [pairAllowed, decide_eq_true_eq] at allowed
      rcases allowed with ⟨rsp, thread⟩ | ⟨rsp, sched⟩
      · cases current.symm.trans thread
        rw [rsp, show (0x20800 - 8 : X86.Word 8) = BitVec.ofNat 64 0x207f8 by decide,
          within_ofNat (by decide)] at slot
        show Within (BitVec.ofNat 64 0x20000) 0x1000 x
        rw [within_ofNat (by decide)]
        omega
      · cases current.symm.trans sched
        rw [rsp, show (0x50800 - 8 : X86.Word 8) = BitVec.ofNat 64 0x507f8 by decide,
          within_ofNat (by decide)] at slot
        show Within (BitVec.ofNat 64 0x50000) 0x1000 x
        rw [within_ofNat (by decide)]
        omega

private theorem pair_reached {shows : SwitchState → Bool} (ran : ∃ s, Transition.Run
    (Transition.guarded (SwitchState.step pairLayout) pairAllowed) Transition.always pairStart s ∧
      shows s = true) :
    ∃ s : SwitchState, s.Reached pairLayout 0x401200 1 (fun _ => 0) ∧ shows s = true := by
  obtain ⟨s, run, shown⟩ := ran
  exact ⟨s, ⟨pairStart, pair_starts, run.of_guarded.mono pair_allowed⟩, shown⟩

/-- Worker 0 enters its `sched_p2` for the first time. -/
theorem coroutine_resumes_sched : ∃ s s' : SwitchState,
    s.Reached pairLayout 0x401200 1 (fun _ => 0) ∧ s.code 0 = [.ret] ∧
      s.step pairLayout (.instr 0) = some s' ∧ s'.code 0 = [] ∧
      Resumes (s.expected (.sched 0)) (s'.cpu 0) := by
  obtain ⟨s, reached, shows⟩ := pair_reached pair_run.1
  simp only [pairEnters, decide_eq_true_eq] at shows
  obtain ⟨s', c, stepped, code, current, ended⟩ := coroutine_resumes reached shows.1
  cases shows.2.1.symm.trans current
  exact ⟨s, s', reached, shows.1, stepped, code, (ended rfl).1⟩

theorem first_entry_calls_func_sched : ∃ s s' : SwitchState,
    s.Reached pairLayout 0x401200 1 (fun _ => 0) ∧ s.step pairLayout (.instr 0) = some s' ∧
      (s'.cpu 0).ip = 0x401200 ∧
      ∃ i1 i2 i3 i4 i5 i6, intArgs (s'.cpu 0) = [i1, i2, i3, i4, i5, i6] ∧
        crSetup i1 i2 i3 i4 i5 i6 = ⟨0x7fff00401136, 0, 0⟩ := by
  obtain ⟨s, reached, shows⟩ := pair_reached pair_run.1
  simp only [pairEnters, decide_eq_true_eq] at shows
  obtain ⟨s', stepped, entered⟩ := first_entry_calls_func reached shows.1 shows.2.1 shows.2.2
  exact ⟨s, s', reached, stepped, entered⟩

/-- After two switches `sched_p2` is idle. -/
theorem waiting_stack_pointer_sched : ∃ s : SwitchState,
    s.Reached pairLayout 0x401200 1 (fun _ => 0) ∧ s.cr.left 0 = some (.sched 0) ∧
      crGetSpFromCr s.mem (pairLayout (.sched 0)).ctx = 0x50800 ∧
      ∀ x, Within (0x50800 - 8 : X86.Word 8) 8 x → (pairLayout (.sched 0)).InStack x := by
  obtain ⟨s, reached, shows⟩ := pair_reached pair_run.2
  simp only [pairReturns, decide_eq_true_eq] at shows
  obtain ⟨code, current, left, on, rsp⟩ := shows
  have inv := SwitchMachineInv.reached reached
  have idle : s.Idle (.sched 0) := by
    constructor
    · intro w here
      obtain rfl := inv.cr.sched_of_holds (.inl here)
      cases current.symm.trans here
    · intro w busy before
      obtain rfl := inv.cr.sched_of_holds (.inr (.inl ⟨inv.called w busy, before⟩))
      exact busy code
  obtain ⟨found, inside⟩ := waiting_stack_pointer (c := .sched 0) reached on idle
  rw [found, rsp] at inside
  exact ⟨s, reached, left, found.trans rsp, inside⟩

end Libtcr
