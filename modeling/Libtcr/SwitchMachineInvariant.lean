import Libtcr.SwitchMachine
import Libtcr.SwapContextProperties
import Libtcr.CoroutineProperties
import Libtcr.ThreadRefProperties

/-! Which coroutines exist, which worker holds a coroutine, and what the memory holds of the
coroutines while the workers switch between them. -/

set_option autoImplicit false

namespace Libtcr

open State ByteMemory SwapContext

/-! ## Which coroutines exist -/

section Unborn

variable {s s' : State} {w : WorkerId} {t u : Tid}

theorem State.UserEffect.unborn {op : UserOp} (effect : UserEffect s w u op s')
    (old : (Action.user w op).creates = false) (unused : s.status t = .unused) :
    s'.status t = .unused := by
  cases effect with
  | wakeupOne q => exact (congrFun (tcWaitqWakeupOne_life s (.user q)).1 t).trans unused
  | subscribe g n _ _ subscribed =>
      obtain ⟨_, rfl⟩ := tcSignalSubscribe_ok subscribed
      exact unused
  | unlock m _ => exact (congrFun (tcWaitqWakeupOne_life s (.mutex m)).1 t).trans unused
  | threadNew v d nr affine _ => cases old
  | threadPost v s₁ created added =>
      obtain ⟨_, rfl⟩ := addEventCr_ok added
      have other : t ≠ v := fun same => by simp [← same, unused] at created
      simpa [iwiImmediate, attachEvent, other] using unused
  | yield n s₁ _ added =>
      obtain ⟨_, rfl⟩ := addEventCr_ok added
      exact unused
  | waitFdFailed n g mask priority ctl s₁ _ refused => cases refused <;> exact unused
  | waitFd n g mask priority ctl s₁ _ added =>
      cases added
      exact unused
  | waitqWait n q s₁ _ prepared =>
      obtain ⟨_, rfl⟩ := tcWaitqPrepareToWait_ok prepared
      exact unused
  | threadWait n v d id s₁ _ prepared =>
      obtain ⟨_, rfl⟩ := tcWaitqPrepareToWait_ok prepared
      exact unused
  | dieUnlink _ alive =>
      have other : t ≠ u := fun same => by simp [← same, unused] at alive
      simpa [other] using unused
  | _ => exact unused

theorem State.Effect.unborn {a : Action} (effect : s.Effect a s') (inv : SystemInv s)
    (old : a.creates = false) (unused : s.status t = .unused) : s'.status t = .unused := by
  cases effect with
  | queued w scan x s₁ _ _ ran => exact (congrFun (runOrQueue_life ran).1 t).trans unused
  | reaped w scan x u s₁ _ _ _ ran => exact (congrFun (runOrQueue_life ran).1 t).trans unused
  | chosen w scan x u s₁ immediateFd _ _ _ ran =>
      exact (congrFun (runOrQueue_life ran).1 t).trans unused
  | reported w g em _ _ =>
      obtain ⟨moved, choice, handled⟩ :=
        handleReport_spec (fun f => inv.lists.lists.nodup (.fd f)) w g em
      obtain ⟨errHup, fdEpEvents, equal⟩ := handled.effect
      rw [equal]
      exact unused
  | reportQueued w g x s₁ _ _ ran => exact (congrFun (runOrQueue_life ran).1 t).trans unused
  | reportChosen w g x u s₁ _ _ ran => exact (congrFun (runOrQueue_life ran).1 t).trans unused
  | entered w u enter =>
      by_cases posted : s.status u = .posted
      · have other : t ≠ u := fun same => by simp [← same, unused] at posted
        simpa [enterThread, posted, other] using unused
      · simpa [enterThread, posted] using unused
  | freed w u free =>
      have exiting := ((inv.thread u).freeing w (by simp [State.view, placeOf, free])).1
      have other : t ≠ u := fun same => by simp [State.view, ← same, unused] at exiting
      simpa [iwiImmediate, other] using unused
  | user w u op _ _ _ effect => exact effect.unborn old unused
  | advanced w u f rest _ _ _ effect => exact effect.life.1.trans unused
  | died w u _ _ _ effect =>
      cases effect with
      | settled unlinked =>
          have other : t ≠ u := fun same => by simp [← same, unused] at unlinked
          simpa [other] using unused
      | announced settled =>
          have other : t ≠ u := fun same => by simp [← same, unused] at settled
          simpa [other] using unused
      | exits s₁ announced added =>
          obtain ⟨_, rfl⟩ := addEventCr_ok added
          have other : t ≠ u := fun same => by simp [← same, unused] at announced
          simpa [iwiImmediate, attachEvent, other] using unused
  | _ => exact unused

theorem SystemInv.step_unborn {a : Action} (inv : SystemInv s) (stepped : s.step a = some s')
    (old : a.creates = false) (unused : s.status t = .unused) : s'.status t = .unused := by
  obtain ⟨_, effect | ⟨fault, _, rfl⟩⟩ := State.step_cases stepped
  · exact effect.unborn inv old unused
  · exact unused

theorem SystemInv.step_off {a : Action} (inv : SystemInv s) (stepped : s.step a = some s')
    (off : s.mode w = .off) : s'.mode w = .off := by
  obtain ⟨_, effect | ⟨fault, _, rfl⟩⟩ := State.step_cases stepped
  · cases switches : a.switches with
    | false =>
        have moves := effect.modeMove inv.lists switches w
        rw [off] at moves
        generalize s'.mode w = after at moves ⊢
        cases moves
        rfl
    | true =>
        have away (v : WorkerId) (mode : Mode) (on : s.mode v ≠ .off) :
            Function.update s.mode v mode w = .off := by
          have other : w ≠ v := fun same => on (same ▸ off)
          rwa [Function.update_of_ne other]
        cases effect with
        | entered v u enter => exact away v _ (by simp [enter])
        | left v u leave => exact away v _ (by simp [leave])
        | freed v u free => exact away v _ (by simp [free])
        | _ => cases switches
  · exact off

end Unborn

/-! ## Who holds a coroutine -/

/-- Worker `w` executes the coroutine, has its spinlock to switch to it, or has left it and
not yet released its spinlock. -/
def CrState.Holds (s : CrState) (w : WorkerId) (c : Cr) : Prop :=
  s.current w = some c ∨ s.pc w = .called ∧ s.left w = some c ∨
    s.pc w = .locked ∧ ∃ a, s.target w = some (c, a)

section Holders

variable {s s' : CrState} {v w : WorkerId} {t : Tid} {c : Cr} {a : CrAction}

theorem SwitchInv.switching (inv : SwitchInv s w) (called : s.pc w = .called) :
    ∃ t, (s.sys.mode w = .enter t ∧ s.left w = some (.sched w) ∧ s.current w = some (.thread t)) ∨
      s.sys.mode w = .leave t ∧ s.left w = some (.thread t) ∧ s.current w = some (.sched w) := by
  unfold SwitchInv at inv
  cases mode : s.sys.mode w with
  | enter t =>
      simp only [mode, called] at inv
      exact ⟨t, .inl ⟨rfl, inv.2.2.2, inv.2.1⟩⟩
  | leave t =>
      simp only [mode, called] at inv
      exact ⟨t, .inr ⟨rfl, inv.2.2.2, inv.1⟩⟩
  | _ => simp [mode, called] at inv

theorem CrState.target_eq {b : Action} (target : s.target w = some (c, b)) :
    (∃ t, s.sys.mode w = .enter t ∧ c = .thread t) ∨
      ∃ t, s.sys.mode w = .leave t ∧ c = .sched w := by
  unfold CrState.target at target
  split at target
  · next t enter =>
    cases target
    exact .inl ⟨t, enter, rfl⟩
  · next t leave =>
    cases target
    exact .inr ⟨t, leave, rfl⟩
  · cases target

private theorem CrInv.occupies_of_holds (inv : CrInv s) (holds : s.Holds w (.thread t)) :
    s.Occupies w t := by
  rcases holds with current | ⟨called, left⟩ | ⟨locked, b, target⟩
  · exact (inv.switch w).occupies current
  · obtain ⟨u, ⟨_, sched, _⟩ | ⟨leave, thread, _⟩⟩ := (inv.switch w).switching called
    · simp [sched] at left
    · cases left.symm.trans thread
      exact .inr (.inr (.inl leave))
  · rcases CrState.target_eq target with ⟨u, enter, same⟩ | ⟨_, _, same⟩
    · cases same
      exact .inl ⟨enter, by simp [locked]⟩
    · cases same

theorem CrInv.sched_of_holds (inv : CrInv s) (holds : s.Holds w (.sched v)) : v = w := by
  rcases holds with current | ⟨called, left⟩ | ⟨_, b, target⟩
  · exact (inv.switch w).sched current
  · obtain ⟨u, ⟨_, sched, _⟩ | ⟨_, thread, _⟩⟩ := (inv.switch w).switching called
    · cases left.symm.trans sched
      rfl
    · simp [thread] at left
  · rcases CrState.target_eq target with ⟨_, _, same⟩ | ⟨_, _, same⟩
    · cases same
    · cases same
      rfl

theorem CrInv.holder (inv : CrInv s) (first : s.Holds v c) (second : s.Holds w c) : v = w := by
  cases c with
  | thread t =>
      exact inv.unique v w t (inv.occupies_of_holds first) (inv.occupies_of_holds second)
  | sched u => exact (inv.sched_of_holds first).symm.trans (inv.sched_of_holds second)

theorem CrInv.target_away (inv : CrInv s) (locked : s.pc w = .locked) {b : Action}
    (target : s.target w = some (c, b)) : s.current w ≠ some c := by
  have switch := inv.switch w
  unfold SwitchInv at switch
  rcases CrState.target_eq target with ⟨t, enter, rfl⟩ | ⟨t, leave, rfl⟩
  · simp only [enter, locked] at switch
    simp [switch.2]
  · simp only [leave, locked] at switch
    simp [switch.1]

structure CrFrame (s s' : CrState) (a : CrAction) : Prop where
  current : s'.current = s.current
  left : s'.left = s.left
  pc : ∀ v, v ≠ a.worker → s'.pc v = s.pc v
  called : ∀ v, s'.pc v = .called → s.pc v = .called
  destroyed : ∀ t, s'.destroyed t = false → s.destroyed t = false
  sys : s'.sys = s.sys ∨ ∃ b, s.sys.step b = some s'.sys ∧ (b.creates = true → a = .system b)

theorem CrState.step_frame (stepped : s.step a = some s') (other : ∀ w, a ≠ .call w) :
    CrFrame s s' a := by
  cases a with
  | system b =>
      simp only [CrState.step] at stepped
      split at stepped
      · cases stepped
      · obtain ⟨sys, moved, rfl⟩ := Option.map_eq_some_iff.mp stepped
        exact ⟨rfl, rfl, fun _ _ => rfl, fun _ => id, fun _ => id, .inr ⟨b, moved, fun _ => rfl⟩⟩
  | acquire w =>
      simp only [CrState.step] at stepped
      split at stepped
      · split at stepped
        · cases stepped
          refine ⟨rfl, rfl, fun v away => Function.update_of_ne away _ _, fun v called => ?_,
            fun _ => id, .inl rfl⟩
          exact (Update.old_of_ne called (by simp)).2
        · cases stepped
      · cases stepped
  | call w => exact absurd rfl (other w)
  | release w =>
      simp only [CrState.step] at stepped
      split at stepped
      · next b previous target _ =>
        split at stepped
        · obtain ⟨sys, moved, rfl⟩ := Option.map_eq_some_iff.mp stepped
          refine ⟨rfl, rfl, fun v away => Function.update_of_ne away _ _, fun v called => ?_,
            fun _ => id, .inr ⟨b, moved, ?_⟩⟩
          · exact (Update.old_of_ne called (by simp)).2
          · unfold CrState.target at target
            split at target <;> cases target <;> exact fun creates => by cases creates
        · cases stepped
      · cases stepped
  | free w =>
      simp only [CrState.step] at stepped
      split at stepped
      · split at stepped
        · cases stepped
        · obtain ⟨sys, moved, rfl⟩ := Option.map_eq_some_iff.mp stepped
          split
          · refine ⟨rfl, rfl, fun _ _ => rfl, fun _ => id, fun t kept => ?_,
              .inr ⟨_, moved, fun creates => by cases creates⟩⟩
            exact (Update.old_of_ne kept (by simp)).2
          · exact ⟨rfl, rfl, fun _ _ => rfl, fun _ => id, fun _ => id,
              .inr ⟨_, moved, fun creates => by cases creates⟩⟩
      · cases stepped

end Holders

/-! ## The invariant -/

section Invariant

variable (layout : Cr → Layout)

namespace SwitchState

/-- No worker executes the coroutine, and none is about to save it. -/
def Idle (s : SwitchState) (c : Cr) : Prop :=
  (∀ w, s.cr.current w ≠ some c) ∧ ∀ w, s.code w ≠ [] → s.cr.left w ≠ some c

/-- The bytes that no other code may write while the coroutine is not executed. -/
def Guarded (s : SwitchState) (c : Cr) (x : X86.Word 8) : Prop :=
  InContext (layout c).ctx x ∨ InSlot (s.expected c) x

/-- The context of the coroutine is what it is to continue with. -/
structure Saved (s : SwitchState) (c : Cr) : Prop where
  read : Context.read s.mem (layout c).ctx = s.expected c
  prepared : Prepared s.mem (layout c).ctx
  stack : ∀ x, InSlot (s.expected c) x → (layout c).InStack x

/-- The stack of the coroutine is as it was left, but for what other code has written. -/
def Keeps (s : SwitchState) (c : Cr) : Prop :=
  ∀ x, (layout c).InStack x → ¬ InSlot (s.expected c) x → ¬ s.touched c x →
    s.mem x = s.snapshot c x

/-- Worker `w` has begun to switch from `p` to `c` with the processor and the memory
`start`, and has executed `done`. Other workers may have changed the memory since, but not
where the code accesses it. -/
structure Switching (s : SwitchState) (w : WorkerId) (p c : Cr)
    (start : SwapContext.Cpu × SwapContext.Memory) (done : List (X86.Instr Reg))
    (mem : SwapContext.Memory) : Prop where
  saves : start.1.reg .rdi = (layout p).ctx
  loads : start.1.reg .rsi = (layout c).ctx
  switchable : Switchable start.1 start.2
  capture : s.expected p = .capture start.1 start.2
  read : s.expected c = .read start.2 (layout c).ctx
  top : ∀ x, Within (start.1.reg .rsp) 8 x → (layout p).InStack x
  slot : ∀ x, InSlot (s.expected c) x → (layout c).InStack x
  code : done ++ s.code w = swapcontextFast
  ran : X86.run .rsp start.1 start.2 done = some (s.cpu w, mem)
  same : Agree (Accessed start.1 (s.expected c)) mem s.mem

end SwitchState

structure SwitchMachineInv (setup : X86.Word 8) (s : SwitchState) : Prop where
  cr : CrInv s.cr
  used : ∀ w t, s.cr.Holds w (.thread t) → s.cr.sys.status t ≠ .unused
  called : ∀ w, s.code w ≠ [] → s.cr.pc w = .called
  apart : ∀ c d, s.Alive c → s.Alive d → c ≠ d → ∀ x, (layout c).Owns x → ¬ (layout d).Owns x
  mxcsr : ∀ w, (s.cpu w).mxcsr &&& X86.mxcsrReserved = 0
  saved : ∀ c, s.Alive c → s.Idle c → s.Saved layout c
  keeps : ∀ c, s.Alive c → ¬ s.Executed c → s.Keeps layout c
  switching : ∀ w p c, s.code w ≠ [] → s.cr.left w = some p → s.cr.current w = some c →
    ∃ start done mem, s.Switching layout w p c start done mem
  fresh : ∀ c e, s.fresh c = some e → (s.expected c).Enters setup e

end Invariant

section Facts

variable {layout : Cr → Layout} {setup : X86.Word 8} {s s' : SwitchState} {v w : WorkerId}
  {p c d : Cr} {start : SwapContext.Cpu × SwapContext.Memory} {done : List (X86.Instr Reg)}
  {mem : SwapContext.Memory} {x : X86.Word 8}

namespace SwitchState

theorem Idle.not_executed (idle : s.Idle c) : ¬ s.Executed c := by
  intro executed
  obtain ⟨w, current, _⟩ := executed
  exact idle.1 w current

theorem Saved.congr (saved : s.Saved layout c) (expected : s'.expected c = s.expected c)
    (same : Agree (InContext (layout c).ctx) s.mem s'.mem) : s'.Saved layout c where
  read := by
    rw [← read_congr same, expected]
    exact saved.read
  prepared := saved.prepared.congr same
  stack := by
    rw [expected]
    exact saved.stack

theorem Keeps.congr (keeps : s.Keeps layout c) (expected : s'.expected c = s.expected c)
    (snapshot : s'.snapshot c = s.snapshot c) (touched : s'.touched c = s.touched c)
    (same : ∀ x, (layout c).InStack x → ¬ InSlot (s.expected c) x → s'.mem x = s.mem x) :
    s'.Keeps layout c := by
  intro x inside above untouched
  rw [expected] at above
  rw [touched] at untouched
  rw [snapshot, same x inside above]
  exact keeps x inside above untouched

theorem Switching.saves_slot (switching : s.Switching layout w p c start done mem) :
    InSlot (s.expected p) x ↔ Within (start.1.reg .rsp) 8 x := by
  rw [switching.capture]
  exact inSlot_capture

theorem Switching.guarded (switching : s.Switching layout w p c start done mem)
    (accessed : Accessed start.1 (s.expected c) x) :
    s.Guarded layout p x ∨ s.Guarded layout c x := by
  rcases accessed with context | context | top | slot
  · exact .inl (.inl (switching.saves ▸ context))
  · exact .inr (.inl (switching.loads ▸ context))
  · exact .inl (.inr (switching.saves_slot.mpr top))
  · exact .inr (.inr slot)

theorem Switching.guarded_owned (switching : s.Switching layout w p c start done mem)
    (guarded : s.Guarded layout p x ∨ s.Guarded layout c x) :
    (layout p).Owns x ∨ (layout c).Owns x := by
  rcases guarded with (context | slot) | (context | slot)
  · exact .inl (.inl context)
  · exact .inl (.inr (switching.top x (switching.saves_slot.mp slot)))
  · exact .inr (.inl context)
  · exact .inr (.inr (switching.slot x slot))

/-- The switch of a worker goes on undisturbed while the memory it accesses is left alone. -/
theorem Switching.congr (switching : s.Switching layout w p c start done mem)
    (code : s'.code w = s.code w) (cpu : s'.cpu w = s.cpu w)
    (left : s'.expected p = s.expected p) (entered : s'.expected c = s.expected c)
    (same : ∀ x, s.Guarded layout p x ∨ s.Guarded layout c x → s'.mem x = s.mem x) :
    s'.Switching layout w p c start done mem where
  saves := switching.saves
  loads := switching.loads
  switchable := switching.switchable
  capture := left.trans switching.capture
  read := entered.trans switching.read
  top := switching.top
  slot := by
    rw [entered]
    exact switching.slot
  code := by
    rw [code]
    exact switching.code
  ran := by
    rw [cpu]
    exact switching.ran
  same := by
    rw [entered]
    intro x accessed
    rw [same x (switching.guarded accessed)]
    exact switching.same x accessed

end SwitchState

namespace SwitchMachineInv

theorem alive_of_holds (inv : SwitchMachineInv layout setup s) (holds : s.cr.Holds w c) :
    s.Alive c := by
  cases c with
  | thread t =>
      refine ⟨inv.used w t holds, ?_⟩
      by_contra gone
      exact (inv.cr.destroyed t (by simpa using gone)).2 w (inv.cr.occupies_of_holds holds)
  | sched u =>
      obtain rfl := inv.cr.sched_of_holds holds
      intro off
      have switch := inv.cr.switch u
      simp only [SwitchInv, off] at switch
      rcases holds with current | ⟨called, _⟩ | ⟨locked, _⟩
      · exact switch.2.2 u current
      · simp [switch.1] at called
      · simp [switch.1] at locked

theorem pair (inv : SwitchMachineInv layout setup s) (busy : s.code w ≠ []) :
    ∃ p c, s.cr.left w = some p ∧ s.cr.current w = some c ∧ p ≠ c ∧ s.cr.Holds w p ∧
      s.cr.Holds w c := by
  have called := inv.called w busy
  obtain ⟨t, ⟨_, left, current⟩ | ⟨_, left, current⟩⟩ := (inv.cr.switch w).switching called
  · exact ⟨.sched w, .thread t, left, current, by simp, .inr (.inl ⟨called, left⟩), .inl current⟩
  · exact ⟨.thread t, .sched w, left, current, by simp, .inr (.inl ⟨called, left⟩), .inl current⟩

theorem not_executed (inv : SwitchMachineInv layout setup s) (busy : s.code w ≠ [])
    (holds : s.cr.Holds w c) : ¬ s.Executed c := by
  intro executed
  obtain ⟨v, current, quiet⟩ := executed
  obtain rfl := inv.cr.holder (.inl current) holds
  exact busy quiet

end SwitchMachineInv

end Facts

end Libtcr
