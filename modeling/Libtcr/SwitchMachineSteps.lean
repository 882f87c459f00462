import Libtcr.SwitchMachineInvariant
import Libtcr.AlertInvariant

/-! Every step of the machine keeps the invariant. -/

set_option autoImplicit false

namespace Libtcr

open State ByteMemory SwapContext

section Steps

variable {layout : Cr → Layout} {setup : X86.Word 8} {s s' : SwitchState} {v w : WorkerId}
  {p c d : Cr} {start : SwapContext.Cpu × SwapContext.Memory} {done : List (X86.Instr Reg)}
  {mem : SwapContext.Memory} {x : X86.Word 8}

namespace SwitchMachineInv

/-! ## Steps without a switch -/

private theorem alive_of_step {a : CrAction} {cr : CrState} (inv : SwitchMachineInv layout setup s)
    (kept : a.replaced = false) (frame : CrFrame s.cr cr a)
    (alive : SwitchState.Alive { s with cr := cr } c) : s.Alive c := by
  rcases frame.sys with same | ⟨b, moved, system⟩
  · cases c with
    | thread t => exact ⟨same ▸ alive.1, frame.destroyed t alive.2⟩
    | sched u =>
        unfold SwitchState.Alive at alive ⊢
        rwa [same] at alive
  · have old : b.creates = false := by
      cases creates : b.creates with
      | false => rfl
      | true =>
          rw [system creates] at kept
          simp [CrAction.replaced, creates] at kept
    cases c with
    | thread t =>
        exact ⟨fun unused => alive.1 (inv.cr.system.step_unborn moved old unused),
          frame.destroyed t alive.2⟩
    | sched u => exact fun off => alive (inv.cr.system.step_off moved off)

private theorem used_of_step {a : CrAction} {cr : CrState} (inv : SwitchMachineInv layout setup s)
    (after : CrInv cr) (frame : CrFrame s.cr cr a) {t : Tid} (holds : cr.Holds w (.thread t)) :
    cr.sys.status t ≠ .unused := by
  have persists : s.cr.sys.status t ≠ .unused → cr.sys.status t ≠ .unused := by
    intro used
    rcases frame.sys with same | ⟨b, moved, _⟩
    · rwa [same]
    · exact (inv.cr.system.lifeStep moved).used used
  rcases holds with current | ⟨called, left⟩ | ⟨locked, b, target⟩
  · rw [frame.current] at current
    exact persists (inv.used w t (.inl current))
  · rw [frame.left] at left
    exact persists (inv.used w t (.inr (.inl ⟨frame.called w called, left⟩)))
  · rcases CrState.target_eq target with ⟨u, enter, same⟩ | ⟨_, _, same⟩
    · cases same
      exact after.system.used_of_home (.inl enter)
    · cases same

theorem cr_step {a : CrAction} {cr : CrState} (inv : SwitchMachineInv layout setup s)
    (kept : a.replaced = false) (quiet : s.code a.worker = []) (stepped : s.cr.step a = some cr) :
    SwitchMachineInv layout setup { s with cr := cr } := by
  have frame := CrState.step_frame stepped fun w call => by simp [call, CrAction.replaced] at kept
  have after := inv.cr.step stepped
  have alive : ∀ {c : Cr}, SwitchState.Alive { s with cr := cr } c → s.Alive c :=
    inv.alive_of_step kept frame
  constructor
  · exact after
  · exact fun w t => inv.used_of_step after frame
  · intro w busy
    rw [frame.pc w fun same => busy (same ▸ quiet)]
    exact inv.called w busy
  · exact fun c d first second => inv.apart c d (alive first) (alive second)
  · exact inv.mxcsr
  · intro c exists_ idle
    have before : s.Idle c := by
      simpa only [SwitchState.Idle, frame.current, frame.left] using idle
    exact (inv.saved c (alive exists_) before).congr rfl fun _ _ => rfl
  · intro c exists_ outside
    have before : ¬ s.Executed c := by
      simpa only [SwitchState.Executed, frame.current] using outside
    exact (inv.keeps c (alive exists_) before).congr rfl rfl rfl fun _ _ _ => rfl
  · intro w p c busy left current
    obtain ⟨start, done, mem, switching⟩ :=
      inv.switching w p c busy (frame.left ▸ left) (frame.current ▸ current)
    exact ⟨start, done, mem, switching.congr rfl rfl rfl rfl fun _ _ => rfl⟩
  · exact inv.fresh

/-! ## Other code -/

theorem compute {cpu : SwapContext.Cpu} {after : SwapContext.Memory}
    (inv : SwitchMachineInv layout setup s) (quiet : s.code w = [])
    (clear : cpu.mxcsr &&& X86.mxcsrReserved = 0)
    (off : ∀ c, s.Alive c → ¬ s.Executed c → ∀ x, s.Guarded layout c x → after x = s.mem x) :
    SwitchMachineInv layout setup { s with
      cpu := Function.update s.cpu w cpu
      mem := after
      touched := fun c x => s.touched c x ∨ after x ≠ s.mem x } := by
  refine { inv with mxcsr := ?_, saved := ?_, keeps := ?_, switching := ?_ }
  · intro v
    by_cases same : v = w
    · subst same
      simpa using clear
    · simpa [same] using inv.mxcsr v
  · intro c alive idle
    exact (inv.saved c alive idle).congr rfl fun x inside =>
      (off c alive (SwitchState.Idle.not_executed (s := s) idle) x (.inl inside)).symm
  · intro c alive outside x inside above untouched
    have same : after x = s.mem x := by
      by_contra written
      exact untouched (.inr written)
    exact same.trans (inv.keeps c alive outside x inside above fun old => untouched (.inl old))
  · intro v p c busy left current
    obtain ⟨start, done, mem, switching⟩ := inv.switching v p c busy left current
    have holds : s.cr.Holds v p ∧ s.cr.Holds v c :=
      ⟨.inr (.inl ⟨inv.called v busy, left⟩), .inl current⟩
    have away : v ≠ w := fun same => busy (same ▸ quiet)
    refine ⟨start, done, mem, switching.congr rfl (Function.update_of_ne away _ _) rfl rfl ?_⟩
    intro x guarded
    rcases guarded with guarded | guarded
    · exact off p (inv.alive_of_holds holds.1) (inv.not_executed busy holds.1) x guarded
    · exact off c (inv.alive_of_holds holds.2) (inv.not_executed busy holds.2) x guarded

/-! ## A new thread -/

private theorem alive_of_create {u : Tid} {d : DomainId} {nr : Int} {affine : Bool} {cr : CrState}
    (inv : SwitchMachineInv layout setup s)
    (stepped : s.cr.step (.system (.user w (.threadNew u d nr affine))) = some cr) :
    s.cr.sys.status u = .unused ∧
      ∀ c, SwitchState.Alive { s with cr := cr } c → c = .thread u ∨ s.Alive c := by
  simp only [CrState.step, Action.switches, Bool.false_eq_true, if_false] at stepped
  obtain ⟨sys, moved, rfl⟩ := Option.map_eq_some_iff.mp stepped
  obtain ⟨unused, rfl⟩ := inv.cr.system.step_threadNew moved
  refine ⟨unused, fun c alive => ?_⟩
  cases c with
  | thread t =>
      by_cases same : t = u
      · exact .inl (by rw [same])
      · refine .inr ⟨fun before => alive.1 ?_, alive.2⟩
        simpa [tcThreadNew, tcEventInit, same] using before
  | sched v => exact .inr alive

theorem create {u : Tid} {d : DomainId} {nr : Int} {affine : Bool} {cr : CrState} {e : Entry}
    {after : SwapContext.Memory} (inv : SwitchMachineInv layout setup s) (quiet : s.code w = [])
    (stepped : s.cr.step (.system (.user w (.threadNew u d nr affine))) = some cr)
    (free : ∀ c, s.Alive c → ∀ x, (layout (.thread u)).Owns x → ¬ (layout c).Owns x)
    (outside : ∀ x, ¬ (layout (.thread u)).Owns x → after x = s.mem x)
    (created : SwitchState.Created setup (layout (.thread u)) e after) :
    SwitchMachineInv layout setup { s with
      cr := cr
      mem := after
      expected := Function.update s.expected (.thread u) (.read after (layout (.thread u)).ctx)
      snapshot := Function.update s.snapshot (.thread u) after
      touched := Function.update s.touched (.thread u) fun _ => False
      fresh := Function.update s.fresh (.thread u) (some e) } := by
  have frame := CrState.step_frame stepped fun w call => by cases call
  have next := inv.cr.step stepped
  obtain ⟨unused, alive⟩ := inv.alive_of_create stepped
  have same : ∀ c, s.Alive c → ∀ x, (layout c).Owns x → after x = s.mem x :=
    fun c old x owned => outside x fun new => free c old x new owned
  have other : ∀ c, s.Alive c → c ≠ .thread u := by
    rintro c old rfl
    exact old.1 unused
  constructor
  · exact next
  · exact fun v t => inv.used_of_step next frame
  · intro v busy
    rw [frame.pc v fun same => busy (same ▸ quiet)]
    exact inv.called v busy
  · intro c c' first second apart x owned
    rcases alive c first with rfl | oldFirst
    · rcases alive c' second with rfl | oldSecond
      · exact absurd rfl apart
      · exact free c' oldSecond x owned
    · rcases alive c' second with rfl | oldSecond
      · exact fun new => free c oldFirst x new owned
      · exact inv.apart c c' oldFirst oldSecond apart x owned
  · exact inv.mxcsr
  · intro c exists_ idle
    rcases alive c exists_ with rfl | old
    · constructor
      · simp
      · exact created.prepared
      · simpa using created.stack
    · have before : s.Idle c := by
        simpa only [SwitchState.Idle, frame.current, frame.left] using idle
      exact (inv.saved c old before).congr (Function.update_of_ne (other c old) _ _)
        fun x inside => (same c old x (.inl inside)).symm
  · intro c exists_ outside
    rcases alive c exists_ with rfl | old
    · intro x _ _ _
      simp
    · have before : ¬ s.Executed c := by
        simpa only [SwitchState.Executed, frame.current] using outside
      exact (inv.keeps c old before).congr (Function.update_of_ne (other c old) _ _)
        (Function.update_of_ne (other c old) _ _) (Function.update_of_ne (other c old) _ _)
        fun x inside _ => same c old x (.inr inside)
  · intro v p c busy left current
    rw [frame.left] at left
    rw [frame.current] at current
    obtain ⟨start, done, mem, switching⟩ := inv.switching v p c busy left current
    have oldLeft := inv.alive_of_holds (.inr (.inl ⟨inv.called v busy, left⟩))
    have oldEntered := inv.alive_of_holds (.inl current)
    refine ⟨start, done, mem, switching.congr rfl rfl (Function.update_of_ne (other p oldLeft) _ _)
      (Function.update_of_ne (other c oldEntered) _ _) fun x guarded => ?_⟩
    rcases switching.guarded_owned guarded with owned | owned
    · exact same p oldLeft x owned
    · exact same c oldEntered x owned
  · intro c e' made
    rcases Update.eq_cases made with ⟨rfl, new⟩ | ⟨away, old⟩
    · cases new
      simpa using created.enters
    · simpa [away] using inv.fresh c e' old

end SwitchMachineInv

/-! ## The begin of a switch -/

/-- What `cr_call` does, up to the first instruction of `swapcontext_fast`. -/
structure Begun (layout : Cr → Layout) (s s' : SwitchState) (w : WorkerId) (p c : Cr)
    (ret : X86.Word 8) : Prop where
  quiet : s.code w = []
  before : s.cr.current w = some p
  locked : s.cr.pc w = .locked
  target : ∃ b, s.cr.target w = some (c, b)
  cr : s.cr.step (.call w) = some s'.cr
  sys : s'.cr.sys = s.cr.sys
  destroyed : s'.cr.destroyed = s.cr.destroyed
  current : s'.cr.current = Function.update s.cr.current w (some c)
  left : s'.cr.left = Function.update s.cr.left w (some p)
  pc : s'.cr.pc = Function.update s.cr.pc w .called
  mem : s'.mem = (s.begin layout w p c ret).2
  cpu : s'.cpu = Function.update s.cpu w (s.begin layout w p c ret).1
  code : s'.code = Function.update s.code w swapcontextFast
  expected : s'.expected = Function.update s.expected p
    (.capture (s.begin layout w p c ret).1 (s.begin layout w p c ret).2)
  snapshot : s'.snapshot = Function.update s.snapshot p (s.begin layout w p c ret).2
  touched : s'.touched = Function.update s.touched p fun _ => False
  fresh : s'.fresh = Function.update s.fresh p none

theorem SwitchState.step_call {ret : X86.Word 8} (stepped : s.step layout (.call w ret) = some s') :
    ∃ p c, Begun layout s s' w p c ret := by
  simp only [SwitchState.step] at stepped
  split at stepped
  · next p c b current target =>
    split at stepped
    · next quiet =>
      obtain ⟨cr, moved, rfl⟩ := Option.map_eq_some_iff.mp stepped
      have called := moved
      simp only [CrState.step, target] at called
      split at called
      · next ready =>
        cases called
        exact ⟨p, c, quiet, current, ready.2, ⟨b, target⟩, moved, rfl, rfl, rfl, by rw [current], rfl,
          rfl, rfl, rfl, rfl, rfl, rfl, rfl⟩
      · cases called
    · cases stepped
  · cases stepped

section Begun

variable {ret : X86.Word 8}

namespace Begun

private theorem holds_left (begun : Begun layout s s' w p c ret) :
    s.cr.Holds w p := .inl begun.before

private theorem holds_entered (begun : Begun layout s s' w p c ret) : s.cr.Holds w c :=
  .inr (.inr ⟨begun.locked, begun.target⟩)

theorem distinct (begun : Begun layout s s' w p c ret) (inv : SwitchMachineInv layout setup s) :
    c ≠ p := by
  obtain ⟨b, target⟩ := begun.target
  exact fun same => inv.cr.target_away begun.locked target (same ▸ begun.before)

private theorem alive_iff (begun : Begun layout s s' w p c ret) : s'.Alive d ↔ s.Alive d := by
  cases d <;> simp only [SwitchState.Alive, begun.sys, begun.destroyed]

theorem holds (begun : Begun layout s s' w p c ret) (held : s'.cr.Holds v d) :
    s.cr.Holds v d := by
  by_cases same : v = w
  · subst same
    rcases held with now | ⟨_, before⟩ | ⟨locked, _⟩
    · rw [begun.current, Function.update_self] at now
      cases now
      exact begun.holds_entered
    · rw [begun.left, Function.update_self] at before
      cases before
      exact begun.holds_left
    · simp [begun.pc] at locked
  · simpa [CrState.Holds, CrState.target, begun.current, begun.left, begun.pc, begun.sys, same]
      using held

theorem idle (begun : Begun layout s s' w p c ret) (idle : s'.Idle d) : d ≠ p ∧ s.Idle d := by
  have notLeft : d ≠ p := fun same => idle.2 w
    (by simp [begun.code, swapcontextFast, saveCode]) (by simp [begun.left, same])
  refine ⟨notLeft, fun v executes => ?_, fun v busy leaves => ?_⟩
  · by_cases same : v = w
    · subst same
      exact notLeft (Option.some.inj (executes.symm.trans begun.before))
    · exact idle.1 v (by simpa [begun.current, same] using executes)
  · have same : v ≠ w := fun same => busy (same ▸ begun.quiet)
    exact idle.2 v (by simpa [begun.code, same] using busy)
      (by simpa [begun.left, same] using leaves)

theorem executed (begun : Begun layout s s' w p c ret) (other : d ≠ p) (executed : s.Executed d) :
    s'.Executed d := by
  obtain ⟨v, executes, quiet⟩ := executed
  have same : v ≠ w := by
    rintro rfl
    exact other (Option.some.inj (executes.symm.trans begun.before))
  exact ⟨v, by simpa [begun.current, same] using executes,
    by simpa [begun.code, same] using quiet⟩

theorem saved (begun : Begun layout s s' w p c ret) (inv : SwitchMachineInv layout setup s) :
    s.Saved layout c := by
  have holds := begun.holds_entered
  refine inv.saved c (inv.alive_of_holds holds) ⟨fun v current => ?_, fun v busy left => ?_⟩
  · obtain rfl := inv.cr.holder (.inl current) holds
    exact begun.distinct inv (Option.some.inj (current.symm.trans begun.before))
  · obtain rfl := inv.cr.holder (.inr (.inl ⟨inv.called v busy, left⟩)) holds
    exact busy begun.quiet

variable (stack : ∀ x, Within ((s.cpu w).reg .rsp - 8) 8 x → (layout p).InStack x)

include stack

theorem mem_eq (begun : Begun layout s s' w p c ret) (inv : SwitchMachineInv layout setup s)
    (alive : s.Alive d) (other : d ≠ p) (owned : (layout d).Owns x) : s'.mem x = s.mem x := by
  rw [begun.mem]
  refine store_of_not_within fun within => ?_
  exact inv.apart d p alive (inv.alive_of_holds begun.holds_left) other x owned
    (.inr (stack x within))

theorem agree (begun : Begun layout s s' w p c ret) (inv : SwitchMachineInv layout setup s) :
    Agree (InContext (layout c).ctx) s.mem (s.begin layout w p c ret).2 := by
  intro x inside
  rw [← begun.mem]
  exact (begun.mem_eq stack inv (inv.alive_of_holds begun.holds_entered) (begun.distinct inv)
    (.inl inside)).symm

theorem switchable (begun : Begun layout s s' w p c ret) (inv : SwitchMachineInv layout setup s) :
    Switchable (s.begin layout w p c ret).1 (s.begin layout w p c ret).2 := by
  have apart := inv.apart p c (inv.alive_of_holds begun.holds_left)
    (inv.alive_of_holds begun.holds_entered) (begun.distinct inv).symm
  have saved := begun.saved inv
  constructor
  · exact saved.prepared.congr (begun.agree stack inv)
  · exact inv.mxcsr w
  · exact fun x left entered => apart x (.inl left) (.inl entered)
  · exact fun x within context => (layout p).apart x context (stack x within)
  · intro x below context
    refine apart x (.inl context) (.inr (saved.stack x ?_))
    rw [← saved.read, read_congr (begun.agree stack inv)]
    exact below

private theorem switching_self (begun : Begun layout s s' w p c ret)
    (inv : SwitchMachineInv layout setup s) : s'.Switching layout w p c
      (s.begin layout w p c ret) [] (s.begin layout w p c ret).2 where
  saves := rfl
  loads := rfl
  switchable := begun.switchable stack inv
  capture := by rw [begun.expected, Function.update_self]
  read := by
    rw [begun.expected, Function.update_of_ne (begun.distinct inv), ← (begun.saved inv).read]
    exact read_congr (begun.agree stack inv)
  top := stack
  slot := by
    rw [begun.expected, Function.update_of_ne (begun.distinct inv)]
    exact (begun.saved inv).stack
  code := by rw [begun.code, Function.update_self, List.nil_append]
  ran := by rw [begun.cpu, Function.update_self]; rfl
  same x _ := by rw [begun.mem]

private theorem switching_other (begun : Begun layout s s' w p c ret)
    (inv : SwitchMachineInv layout setup s) {q : Cr} (other : v ≠ w) (busy : s.code v ≠ [])
    (left : s.cr.left v = some q) (current : s.cr.current v = some d)
    (switching : s.Switching layout v q d start done mem) :
    s'.Switching layout v q d start done mem := by
  have holds : s.cr.Holds v q ∧ s.cr.Holds v d :=
    ⟨.inr (.inl ⟨inv.called v busy, left⟩), .inl current⟩
  have notLeft : ∀ c, s.cr.Holds v c → c ≠ p :=
    fun c held equal => other (inv.cr.holder held (equal ▸ begun.holds_left))
  apply switching.congr
  · rw [begun.code, Function.update_of_ne other]
  · rw [begun.cpu, Function.update_of_ne other]
  · rw [begun.expected, Function.update_of_ne (notLeft q holds.1)]
  · rw [begun.expected, Function.update_of_ne (notLeft d holds.2)]
  · intro x guarded
    rcases switching.guarded_owned guarded with owned | owned
    · exact begun.mem_eq stack inv (inv.alive_of_holds holds.1) (notLeft q holds.1) owned
    · exact begun.mem_eq stack inv (inv.alive_of_holds holds.2) (notLeft d holds.2) owned

theorem inv (begun : Begun layout s s' w p c ret) (inv : SwitchMachineInv layout setup s) :
    SwitchMachineInv layout setup s' := by
  constructor
  · exact inv.cr.step begun.cr
  · intro v t held
    rw [begun.sys]
    exact inv.used v t (begun.holds held)
  · intro v busy
    by_cases same : v = w
    · simp [begun.pc, same]
    · rw [begun.code, Function.update_of_ne same] at busy
      rw [begun.pc, Function.update_of_ne same]
      exact inv.called v busy
  · exact fun c d first second =>
      inv.apart c d (begun.alive_iff.mp first) (begun.alive_iff.mp second)
  · intro v
    by_cases same : v = w
    · subst same
      rw [begun.cpu, Function.update_self]
      exact inv.mxcsr v
    · rw [begun.cpu, Function.update_of_ne same]
      exact inv.mxcsr v
  · intro d alive idle
    rw [begun.alive_iff] at alive
    obtain ⟨other, before⟩ := begun.idle idle
    refine (inv.saved d alive before).congr ?_ fun x inside =>
      (begun.mem_eq stack inv alive other (.inl inside)).symm
    rw [begun.expected, Function.update_of_ne other]
  · intro d alive outside
    rw [begun.alive_iff] at alive
    by_cases same : d = p
    · subst same
      intro x _ _ _
      rw [begun.mem, begun.snapshot, Function.update_self]
    · refine (inv.keeps d alive fun before => outside (begun.executed same before)).congr ?_ ?_ ?_
        fun x inside _ => begun.mem_eq stack inv alive same (.inr inside)
      · rw [begun.expected, Function.update_of_ne same]
      · rw [begun.snapshot, Function.update_of_ne same]
      · rw [begun.touched, Function.update_of_ne same]
  · intro v q d busy left current
    by_cases same : v = w
    · subst same
      simp only [begun.left, begun.current, Function.update_self, Option.some.injEq] at left current
      subst left current
      exact ⟨_, _, _, begun.switching_self stack inv⟩
    · rw [begun.code, Function.update_of_ne same] at busy
      rw [begun.left, Function.update_of_ne same] at left
      rw [begun.current, Function.update_of_ne same] at current
      obtain ⟨start, done, mem, switching⟩ := inv.switching v q d busy left current
      exact ⟨start, done, mem, begun.switching_other stack inv same busy left current switching⟩
  · intro d e made
    rw [begun.fresh] at made
    obtain ⟨other, old⟩ := Update.old_of_ne made (by simp)
    rw [begun.expected, Function.update_of_ne other]
    exact inv.fresh d e old

end Begun

end Begun

/-! ## The instructions -/

structure Instructed (s s' : SwitchState) (w : WorkerId) (i : X86.Instr Reg)
    (rest : List (X86.Instr Reg)) (cpu : SwapContext.Cpu) : Prop where
  before : s.code w = i :: rest
  stepped : X86.step .rsp (s.cpu w) s.mem i = some (cpu, s'.mem)
  cr : s'.cr = s.cr
  cpus : s'.cpu = Function.update s.cpu w cpu
  code : s'.code = Function.update s.code w rest
  expected : s'.expected = s.expected
  snapshot : s'.snapshot = s.snapshot
  touched : s'.touched = s.touched
  fresh : s'.fresh = s.fresh

theorem SwitchState.step_instr (stepped : s.step layout (.instr w) = some s') :
    ∃ i rest cpu, Instructed s s' w i rest cpu := by
  simp only [SwitchState.step] at stepped
  split at stepped
  · cases stepped
  · next i rest before =>
    obtain ⟨after, executed, rfl⟩ := Option.map_eq_some_iff.mp stepped
    exact ⟨i, rest, after.1, before, executed, rfl, rfl, rfl, rfl, rfl, rfl, rfl⟩

theorem SwitchState.Switching.inside (switching : s.Switching layout w p c start done mem)
    {i : X86.Instr Reg} {rest : List (X86.Instr Reg)} (next : s.code w = i :: rest) :
    i.Inside .rsp (Accessed start.1 (s.expected c)) (s.cpu w) := by
  have confined := switching.switchable.confined
  rw [switching.loads, ← switching.read, ← switching.code, next, X86.confined_append] at confined
  exact (confined.2 _ switching.ran).1

namespace Instructed

variable {i : X86.Instr Reg} {rest : List (X86.Instr Reg)} {cpu : SwapContext.Cpu}

theorem busy (done : Instructed s s' w i rest cpu) : s.code w ≠ [] := by simp [done.before]

private theorem alive_iff (done : Instructed s s' w i rest cpu) : s'.Alive d ↔ s.Alive d := by
  cases d <;> simp only [SwitchState.Alive, done.cr]

theorem advance (instructed : Instructed s s' w i rest cpu)
    (switching : s.Switching layout w p c start done mem) :
    (∃ mem', s'.Switching layout w p c start (done ++ [i]) mem') ∧
      ∀ x, ¬ Accessed start.1 (s.expected c) x → s'.mem x = s.mem x := by
  obtain ⟨mem', moved, same, outside⟩ := X86.step_agree (by decide)
    (switching.inside instructed.before) switching.same.symm instructed.stepped
  refine ⟨⟨mem', ?_⟩, outside⟩
  constructor
  · exact switching.saves
  · exact switching.loads
  · exact switching.switchable
  · rw [instructed.expected]
    exact switching.capture
  · rw [instructed.expected]
    exact switching.read
  · exact switching.top
  · rw [instructed.expected]
    exact switching.slot
  · rw [instructed.code, Function.update_self, List.append_assoc, List.singleton_append,
      ← instructed.before]
    exact switching.code
  · rw [instructed.cpus, Function.update_self, X86.run_snoc switching.ran]
    exact moved
  · rw [instructed.expected]
    exact same.symm

theorem mem_eq (instructed : Instructed s s' w i rest cpu) (inv : SwitchMachineInv layout setup s)
    (switching : s.Switching layout w p c start done mem) (left : s.cr.left w = some p)
    (current : s.cr.current w = some c) (alive : s.Alive d) (owned : (layout d).Owns x)
    (apart : (d = p ∨ d = c) → (layout d).InStack x ∧ ¬ InSlot (s.expected d) x) :
    s'.mem x = s.mem x := by
  have aliveLeft := inv.alive_of_holds
    (.inr (.inl ⟨inv.called w instructed.busy, left⟩) : s.cr.Holds w p)
  have aliveEntered := inv.alive_of_holds (.inl current : s.cr.Holds w c)
  have unguarded : d = p ∨ d = c → ¬ s.Guarded layout d x := by
    intro which guarded
    obtain ⟨stack, above⟩ := apart which
    rcases guarded with context | slot
    · exact (layout d).apart x context stack
    · exact above slot
  refine (instructed.advance switching).2 x fun accessed => ?_
  rcases switching.guarded accessed with guarded | guarded
  · by_cases same : d = p
    · subst same
      exact unguarded (.inl rfl) guarded
    · refine inv.apart d p alive aliveLeft same x owned ?_
      rcases guarded with context | slot
      · exact .inl context
      · exact .inr (switching.top x (switching.saves_slot.mp slot))
  · by_cases same : d = c
    · subst same
      exact unguarded (.inr rfl) guarded
    · refine inv.apart d c alive aliveEntered same x owned ?_
      rcases guarded with context | slot
      · exact .inl context
      · exact .inr (switching.slot x slot)

theorem saved (instructed : Instructed s s' w i [] cpu)
    (switching : s.Switching layout w p c start done mem) : s'.Saved layout p := by
  obtain ⟨⟨mem', after⟩, _⟩ := instructed.advance switching
  have whole : done ++ [i] = swapcontextFast := by
    simpa [instructed.code] using after.code
  have ran := after.ran
  rw [whole, after.switchable.run] at ran
  obtain ⟨_, rfl⟩ := Prod.mk.inj (Option.some.inj ran)
  have same : Agree (InContext (layout p).ctx) (enteredMem start.1 start.2) s'.mem :=
    fun x inside => after.same x (.inl (after.saves ▸ inside))
  constructor
  · rw [← read_congr same, after.capture, ← after.saves]
    exact after.switchable.saved
  · refine Prepared.congr ?_ same
    rw [← after.saves]
    exact after.switchable.prepares
  · exact fun x slot => after.top x (after.saves_slot.mp slot)

private theorem switching_other (instructed : Instructed s s' w i rest cpu)
    (inv : SwitchMachineInv layout setup s) (mine : s.Switching layout w p c start done mem)
    (left : s.cr.left w = some p) (current : s.cr.current w = some c) {q : Cr} (other : v ≠ w)
    (busy : s.code v ≠ []) (leaves : s.cr.left v = some q) (executes : s.cr.current v = some d)
    {start' : SwapContext.Cpu × SwapContext.Memory} {done' : List (X86.Instr Reg)}
    {mem' : SwapContext.Memory} (switching : s.Switching layout v q d start' done' mem') :
    s'.Switching layout v q d start' done' mem' := by
  have holds : s.cr.Holds v q ∧ s.cr.Holds v d :=
    ⟨.inr (.inl ⟨inv.called v busy, leaves⟩), .inl executes⟩
  have held : s.cr.Holds w p ∧ s.cr.Holds w c :=
    ⟨.inr (.inl ⟨inv.called w instructed.busy, left⟩), .inl current⟩
  have foreign : ∀ c', s.cr.Holds v c' → ¬ (c' = p ∨ c' = c) := by
    rintro c' mineToo (rfl | rfl)
    · exact other (inv.cr.holder mineToo held.1)
    · exact other (inv.cr.holder mineToo held.2)
  apply switching.congr
  · rw [instructed.code, Function.update_of_ne other]
  · rw [instructed.cpus, Function.update_of_ne other]
  · rw [instructed.expected]
  · rw [instructed.expected]
  · intro x guarded
    rcases switching.guarded_owned guarded with owned | owned
    · exact instructed.mem_eq inv mine left current (inv.alive_of_holds holds.1) owned
        fun which => absurd which (foreign q holds.1)
    · exact instructed.mem_eq inv mine left current (inv.alive_of_holds holds.2) owned
        fun which => absurd which (foreign d holds.2)

theorem inv (instructed : Instructed s s' w i rest cpu) (inv : SwitchMachineInv layout setup s) :
    SwitchMachineInv layout setup s' := by
  obtain ⟨p, c, left, current, distinct, _, _⟩ := inv.pair instructed.busy
  obtain ⟨start, done, mem, mine⟩ := inv.switching w p c instructed.busy left current
  have busyBefore : ∀ v, s'.code v ≠ [] → s.code v ≠ [] := by
    intro v busy
    by_cases same : v = w
    · exact same ▸ instructed.busy
    · rwa [instructed.code, Function.update_of_ne same] at busy
  constructor
  · rw [instructed.cr]
    exact inv.cr
  · rw [instructed.cr]
    exact inv.used
  · rw [instructed.cr]
    exact fun v busy => inv.called v (busyBefore v busy)
  · exact fun c d first second =>
      inv.apart c d (instructed.alive_iff.mp first) (instructed.alive_iff.mp second)
  · intro v
    by_cases same : v = w
    · subst same
      rw [instructed.cpus, Function.update_self]
      exact X86.step_mxcsr (inv.mxcsr v) instructed.stepped
    · rw [instructed.cpus, Function.update_of_ne same]
      exact inv.mxcsr v
  · intro d alive idle
    rw [instructed.alive_iff] at alive
    rw [SwitchState.Idle, instructed.cr] at idle
    by_cases same : d = p
    · subst same
      have ended : rest = [] := by
        by_contra more
        exact idle.2 w (by simpa [instructed.code] using more) left
      subst ended
      exact instructed.saved mine
    · have before : s.Idle d := by
        refine ⟨idle.1, fun v busy leaves => ?_⟩
        by_cases here : v = w
        · subst here
          exact same (Option.some.inj (leaves.symm.trans left))
        · exact idle.2 v (by rwa [instructed.code, Function.update_of_ne here]) leaves
      have notEntered : d ≠ c := fun equal => idle.1 w (equal ▸ current)
      refine (inv.saved d alive before).congr (by rw [instructed.expected]) fun x inside => ?_
      refine (instructed.mem_eq inv mine left current alive (.inl inside) ?_).symm
      rintro (equal | equal)
      · exact absurd equal same
      · exact absurd equal notEntered
  · intro d alive outside
    rw [instructed.alive_iff] at alive
    have before : ¬ s.Executed d := by
      rintro ⟨v, executes, quiet⟩
      have other : v ≠ w := fun same => instructed.busy (same ▸ quiet)
      exact outside ⟨v, by rwa [instructed.cr],
        by rwa [instructed.code, Function.update_of_ne other]⟩
    refine (inv.keeps d alive before).congr (by rw [instructed.expected])
      (by rw [instructed.snapshot]) (by rw [instructed.touched]) fun x inside above => ?_
    exact instructed.mem_eq inv mine left current alive (.inr inside) fun _ => ⟨inside, above⟩
  · intro v q d busy leaves executes
    rw [instructed.cr] at leaves executes
    by_cases same : v = w
    · subst same
      cases left.symm.trans leaves
      cases current.symm.trans executes
      obtain ⟨⟨mem', switching⟩, _⟩ := instructed.advance mine
      exact ⟨_, _, _, switching⟩
    · have before := busyBefore v busy
      obtain ⟨start', done', mem', switching⟩ := inv.switching v q d before leaves executes
      exact ⟨start', done', mem', instructed.switching_other inv mine left current same before
        leaves executes switching⟩
  · rw [instructed.fresh, instructed.expected]
    exact inv.fresh

end Instructed

end Steps

end Libtcr
