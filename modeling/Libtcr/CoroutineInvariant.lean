import Libtcr.Coroutines
import Libtcr.ArrivalProperties

/-! Which coroutine a worker executes, and who holds the spinlock of a coroutine. -/

set_option autoImplicit false

namespace Libtcr

open State

/-! ## What the steps of the library do to the workers -/

inductive ModeMove : Mode → Mode → Prop where
  | same (mode : Mode) : ModeMove mode mode
  | chosen (t : Tid) : ModeMove .sched (.enter t)
  | reaped (t : Tid) : ModeMove .sched (.free t)
  | reports (f : FdId) (e : EventId) : ModeMove .sched (.report f e)
  | handled (f : FdId) (e : EventId) : ModeMove (.report f e) .sched
  | reported (f : FdId) (e : EventId) (t : Tid) : ModeMove (.report f e) (.enter t)
  | leaves (t : Tid) : ModeMove (.thread t) (.leave t)
  | ends (t : Tid) : ModeMove (.thread t) .off

section Modes

variable {s s' : State} {w : WorkerId}

theorem ModeMove.update {mode : WorkerId → Mode} {after : Mode} (moves : ModeMove (mode w) after)
    (v : WorkerId) : ModeMove (mode v) (Function.update mode w after v) := by
  by_cases same : v = w
  · subst same
    simpa using moves
  · rw [Function.update_of_ne same]
    exact .same _

theorem ModeMove.of_eq {before after : Mode} (equal : after = before) : ModeMove before after :=
  equal ▸ .same _

theorem State.UserEffect.modeMove {t : Tid} {op : UserOp} (effect : UserEffect s w t op s')
    (on : s.mode w = .thread t) (v : WorkerId) : ModeMove (s.mode v) (s'.mode v) := by
  cases effect with
  | wakeupOne q => exact .of_eq (by rw [tcWaitqWakeupOne_mode])
  | subscribe g n _ _ subscribed =>
      obtain ⟨_, rfl⟩ := tcSignalSubscribe_ok subscribed
      exact .same _
  | unlock m _ => exact .of_eq (by rw [tcWaitqWakeupOne_mode])
  | threadPost u s₁ _ added =>
      obtain ⟨_, rfl⟩ := addEventCr_ok added
      exact .same _
  | yield n s₁ _ added =>
      obtain ⟨_, rfl⟩ := addEventCr_ok added
      exact .same _
  | waitFdFailed n g mask priority ctl s₁ _ refused => cases refused <;> exact .same _
  | waitFd n g mask priority ctl s₁ _ added =>
      cases added
      exact .same _
  | waitqWait n q s₁ _ prepared =>
      obtain ⟨_, rfl⟩ := tcWaitqPrepareToWait_ok prepared
      exact .same _
  | threadWait n u d id s₁ _ prepared =>
      obtain ⟨_, rfl⟩ := tcWaitqPrepareToWait_ok prepared
      exact .same _
  | exitMain _ => exact ModeMove.update (on ▸ .ends t) v
  | _ => exact .same _

theorem finishWait_mode {t : Tid} {e : EventId} {rv : Bool} (finished : FinishWait s w t e rv s') :
    s'.mode = s.mode := by
  obtain ⟨_, _, _, _, _, _, _, rfl⟩ := finished.frame
  rfl

theorem State.FrameEffect.modeMove {t : Tid} {f : Frame} (effect : FrameEffect s w t f s')
    (on : s.mode w = .thread t) (v : WorkerId) : ModeMove (s.mode v) (s'.mode v) := by
  cases effect with
  | scheduled _ _ scheduled =>
      cases scheduled with
      | slept _ => exact ModeMove.update (on ▸ .leaves t) v
      | signalled e _ _ _ _ => exact .same _
      | resumed e _ _ _ _ _ => exact .same _
  | interrupted s₁ _ _ finished => exact .of_eq (congrFun (finishWait_mode finished) v)
  | again s₁ _ _ finished => exact .of_eq (congrFun (finishWait_mode finished) v)
  | woken s₁ _ _ _ finished => exact .of_eq (congrFun (finishWait_mode finished) v)
  | prepared wq s₁ _ _ _ prepared =>
      obtain ⟨_, rfl⟩ := tcWaitqPrepareToWait_ok prepared
      exact .same _
  | held s₁ rv _ finished => exact .of_eq (congrFun (finishWait_mode finished) v)
  | _ => exact .same _

theorem State.Effect.modeMove {a : Action} (effect : s.Effect a s') (inv : ListInv s)
    (plain : a.switches = false) (v : WorkerId) : ModeMove (s.mode v) (s'.mode v) := by
  cases effect with
  | searched w scan _ => exact .same _
  | queued w scan x s₁ _ _ ran => exact .of_eq (congrFun (runOrQueue_mode ran) v)
  | reaped w scan x u s₁ sched _ _ ran =>
      rw [runOrQueue_mode ran]
      exact ModeMove.update (sched ▸ .reaped u) v
  | chosen w scan x u s₁ immediateFd sched _ _ ran =>
      rw [runOrQueue_mode ran]
      exact ModeMove.update (sched ▸ .chosen u) v
  | reported w g em sched _ =>
      obtain ⟨moved, choice, handled⟩ := handleReport_spec (fun f => inv.lists.nodup (.fd f)) w g em
      obtain ⟨errHup, fdEpEvents, equal⟩ := handled.effect
      rw [equal]
      cases choice with
      | none => exact .same _
      | some e => exact ModeMove.update (show ModeMove (s.mode w) _ from sched ▸ .reports g e) v
  | reportQueued w g x s₁ report _ ran =>
      rw [runOrQueue_mode ran]
      exact ModeMove.update (report ▸ .handled g x) v
  | reportChosen w g x u s₁ report _ ran =>
      rw [runOrQueue_mode ran]
      exact ModeMove.update (report ▸ .reported g x u) v
  | entered w u _ => cases plain
  | left w u _ => cases plain
  | freed w u _ => cases plain
  | aio w q _ => exact .same _
  | user w u op _ on _ effect => exact effect.modeMove on v
  | returned w value u f rest q _ _ _ _ => exact .same _
  | evaluated w value u f rest pc _ _ _ _ => exact .same _
  | advanced w u f rest _ on _ effect => exact effect.modeMove on v
  | died w u _ on _ effect =>
      cases effect with
      | settled _ => exact .same _
      | announced _ => exact .same _
      | exits s₁ _ added =>
          obtain ⟨_, rfl⟩ := addEventCr_ok added
          exact ModeMove.update (show ModeMove (s.mode w) _ from on ▸ .leaves u) v

private theorem runOrQueue_lock {e : EventId} {chosen : Option Tid}
    (ran : RunOrQueue s w e chosen s') : s'.runningLock = s.runningLock := by
  obtain ⟨_, _, _, _, _, _, _, rfl⟩ := ran.frame
  rfl

private theorem tcWaitqWakeupOne_flags (s : State) (wq : Waitq) :
    (s.tcWaitqWakeupOne wq).1.runningLock = s.runningLock ∧
      (s.tcWaitqWakeupOne wq).1.running = s.running := by
  obtain ⟨_, _, _, frame⟩ := tcWaitqWakeupOne_frame s wq
  rw [frame]
  exact ⟨rfl, rfl⟩

private theorem finishWait_flags {t : Tid} {e : EventId} {rv : Bool}
    (finished : FinishWait s w t e rv s') :
    s'.runningLock = s.runningLock ∧ s'.running = s.running := by
  obtain ⟨_, _, _, _, _, _, _, rfl⟩ := finished.frame
  exact ⟨rfl, rfl⟩

/-- A step leaves the spinlock alone, and the flag as well unless it is `run_or_queue` or
`tc_scheduler`. -/
structure SameFlags (s s' : State) (t : Tid) : Prop where
  lock : s'.runningLock t = s.runningLock t
  running : s'.running t = s.running t

theorem State.UserEffect.sameFlags {u : Tid} {op : UserOp} (effect : UserEffect s w u op s')
    (t : Tid) : SameFlags s s' t := by
  cases effect with
  | wakeupOne q =>
      obtain ⟨lock, running⟩ := tcWaitqWakeupOne_flags s (.user q)
      exact ⟨congrFun lock t, congrFun running t⟩
  | subscribe g n _ _ subscribed =>
      obtain ⟨_, rfl⟩ := tcSignalSubscribe_ok subscribed
      exact ⟨rfl, rfl⟩
  | unlock m _ =>
      obtain ⟨lock, running⟩ := tcWaitqWakeupOne_flags s (.mutex m)
      exact ⟨congrFun lock t, congrFun running t⟩
  | threadPost v s₁ _ added =>
      obtain ⟨_, rfl⟩ := addEventCr_ok added
      exact ⟨rfl, rfl⟩
  | yield n s₁ _ added =>
      obtain ⟨_, rfl⟩ := addEventCr_ok added
      exact ⟨rfl, rfl⟩
  | waitFdFailed n g mask priority ctl s₁ _ refused => cases refused <;> exact ⟨rfl, rfl⟩
  | waitFd n g mask priority ctl s₁ _ added =>
      cases added
      exact ⟨rfl, rfl⟩
  | waitqWait n q s₁ _ prepared =>
      obtain ⟨_, rfl⟩ := tcWaitqPrepareToWait_ok prepared
      exact ⟨rfl, rfl⟩
  | threadWait n v d id s₁ _ prepared =>
      obtain ⟨_, rfl⟩ := tcWaitqPrepareToWait_ok prepared
      exact ⟨rfl, rfl⟩
  | _ => exact ⟨rfl, rfl⟩

theorem State.FrameEffect.flags {u : Tid} {f : Frame} (effect : FrameEffect s w u f s') (t : Tid) :
    SameFlags s s' t ∧ s'.mode = s.mode ∨
      s'.runningLock t = s.runningLock t ∧ s'.running = Function.update s.running u false ∧
        s'.mode = Function.update s.mode w (.leave u) := by
  cases effect with
  | scheduled _ _ scheduled =>
      cases scheduled with
      | slept _ => exact .inr ⟨rfl, rfl, rfl⟩
      | signalled e _ _ _ _ => exact .inl ⟨⟨rfl, rfl⟩, rfl⟩
      | resumed e _ _ _ _ _ => exact .inl ⟨⟨rfl, rfl⟩, rfl⟩
  | interrupted s₁ _ _ finished =>
      obtain ⟨lock, running⟩ := finishWait_flags finished
      exact .inl ⟨⟨congrFun lock t, congrFun running t⟩, (finishWait_mode finished :)⟩
  | again s₁ _ _ finished =>
      obtain ⟨lock, running⟩ := finishWait_flags finished
      exact .inl ⟨⟨congrFun lock t, congrFun running t⟩, (finishWait_mode finished :)⟩
  | woken s₁ _ _ _ finished =>
      obtain ⟨lock, running⟩ := finishWait_flags finished
      exact .inl ⟨⟨congrFun lock t, congrFun running t⟩, (finishWait_mode finished :)⟩
  | prepared wq s₁ _ _ _ prepared =>
      obtain ⟨_, rfl⟩ := tcWaitqPrepareToWait_ok prepared
      exact .inl ⟨⟨rfl, rfl⟩, rfl⟩
  | held s₁ rv _ finished =>
      obtain ⟨lock, running⟩ := finishWait_flags finished
      exact .inl ⟨⟨congrFun lock t, congrFun running t⟩, (finishWait_mode finished :)⟩
  | _ => exact .inl ⟨⟨rfl, rfl⟩, funext fun _ => rfl⟩

theorem runOrQueue_selects {e : EventId} {t : Tid} (ran : RunOrQueue s w e (some t) s')
    (stays : s.flags e ≠ .exiting) :
    s.running t = false ∧ s'.running = Function.update s.running t true := by
  cases ran with
  | exits exiting _ => exact absurd exiting stays
  | signalled k _ _ _ idle => exact ⟨idle, rfl⟩
  | selected k _ _ _ idle _ => exact ⟨idle, rfl⟩

theorem runOrQueue_running {e : EventId} {chosen : Option Tid} (ran : RunOrQueue s w e chosen s')
    (none : chosen = none ∨ s.flags e = .exiting) : s'.running = s.running := by
  cases ran with
  | exits _ _ => rfl
  | queued k _ _ _ _ _ => rfl
  | signalled k _ _ signal _ => simp [signal] at none
  | selected k _ _ stays _ _ => simp [stays] at none

theorem SystemInv.report_stays (inv : SystemInv s) {f : FdId} {e : EventId}
    (report : s.mode w = .report f e) : s.flags e ≠ .exiting := by
  obtain ⟨t, n, rfl, _⟩ := inv.report w f e report
  have stays := ((inv.thread t).flagsAuto n).2
  simpa [State.view, EventId.owner] using stays

theorem State.Effect.runningLock {a : Action} (effect : s.Effect a s') (inv : ListInv s)
    (plain : a.switches = false) (t : Tid) : s'.runningLock t = s.runningLock t := by
  cases effect with
  | queued w scan x s₁ _ _ ran => exact congrFun (runOrQueue_lock ran) t
  | reaped w scan x u s₁ _ _ _ ran => exact congrFun (runOrQueue_lock ran) t
  | chosen w scan x u s₁ immediateFd _ _ _ ran => exact congrFun (runOrQueue_lock ran) t
  | reported w g em _ _ =>
      obtain ⟨moved, choice, handled⟩ := handleReport_spec (fun f => inv.lists.nodup (.fd f)) w g em
      obtain ⟨errHup, fdEpEvents, equal⟩ := handled.effect
      rw [equal]
      rfl
  | reportQueued w g x s₁ _ _ ran => exact congrFun (runOrQueue_lock ran) t
  | reportChosen w g x u s₁ _ _ ran => exact congrFun (runOrQueue_lock ran) t
  | entered w u _ => cases plain
  | left w u _ => cases plain
  | user w u op _ _ _ effect => exact (effect.sameFlags t).lock
  | advanced w u f rest _ _ _ effect =>
      rcases effect.flags t with ⟨same, _⟩ | ⟨lock, _⟩
      · exact same.lock
      · exact lock
  | died w u _ _ _ effect =>
      cases effect with
      | settled _ => rfl
      | announced _ => rfl
      | exits s₁ _ added =>
          obtain ⟨_, rfl⟩ := addEventCr_ok added
          rfl
  | _ => rfl

end Modes

/-! ## Selections -/

/-- A thread is selected at most once until `tc_scheduler` clears its flag. -/
def SelectedInv (s : CrState) : Prop :=
  ∀ t, s.selected t ≤ 1 ∧ (s.selected t = 1 → s.sys.running t = true)

theorem SelectedInv.same {s s' : CrState} (inv : SelectedInv s) (selected : s'.selected = s.selected)
    (running : ∀ t, s'.sys.running t = s.sys.running t) : SelectedInv s' := by
  intro t
  rw [selected, running]
  exact inv t

theorem SelectedInv.select {s s' : CrState} {u : Tid} (inv : SelectedInv s)
    (idle : s.sys.running u = false) (running : s'.sys.running = Function.update s.sys.running u true)
    (selected : s'.selected = Function.update s.selected u (s.selected u + 1)) : SelectedInv s' := by
  intro t
  rw [selected, running]
  by_cases same : t = u
  · subst same
    have none : s.selected t = 0 := by
      have most := (inv t).1
      have some : s.selected t ≠ 1 := fun one => by simp [(inv t).2 one] at idle
      omega
    simp [none]
  · simpa [same] using inv t

theorem SelectedInv.plain {s : CrState} {a : Action} {sys : State} (inv : SelectedInv s)
    (systemInv : SystemInv s.sys) (effect : s.sys.Effect a sys) (plain : a.switches = false) :
    SelectedInv { s with sys := sys, selected := s.count a sys } := by
  cases effect with
  | searched w scan sched =>
      refine inv.same ?_ fun _ => rfl
      simp [CrState.count, served, sched]
  | queued w scan x s₁ sched _ ran =>
      refine inv.same ?_ fun t => congrFun (runOrQueue_running ran (.inl rfl)) t
      simp [CrState.count, runOrQueue_mode ran, served, sched]
  | reaped w scan x u s₁ _ _ exiting ran =>
      refine inv.same ?_ fun t => congrFun (runOrQueue_running ran (.inr exiting)) t
      simp [CrState.count]
  | chosen w scan x u s₁ immediateFd _ _ stays ran =>
      obtain ⟨idle, running⟩ := runOrQueue_selects ran stays
      refine inv.select idle running ?_
      simp [CrState.count]
  | reported w g em _ _ =>
      obtain ⟨moved, choice, handled⟩ :=
        handleReport_spec (fun f => systemInv.lists.lists.nodup (.fd f)) w g em
      obtain ⟨errHup, fdEpEvents, equal⟩ := handled.effect
      refine inv.same rfl fun t => ?_
      rw [equal]
      rfl
  | reportQueued w g x s₁ _ _ ran =>
      refine inv.same ?_ fun t => congrFun (runOrQueue_running ran (.inl rfl)) t
      simp [CrState.count]
  | reportChosen w g x u s₁ report _ ran =>
      obtain ⟨idle, running⟩ := runOrQueue_selects ran (systemInv.report_stays report)
      refine inv.select idle running ?_
      simp [CrState.count]
  | entered w u _ => cases plain
  | left w u _ => cases plain
  | freed w u _ => cases plain
  | user w u op _ _ _ effect => exact inv.same rfl fun t => (effect.sameFlags t).running
  | advanced w u f rest _ on _ effect =>
      intro t
      rcases effect.flags t with ⟨same, mode⟩ | ⟨_, running, mode⟩
      · simp only [CrState.count, mode, on, same.running]
        exact inv t
      · simp only [CrState.count, mode, on, Function.update_self, running]
        by_cases same : t = u
        · simp [same]
        · simpa [same] using inv t
  | died w u _ _ _ effect =>
      cases effect with
      | settled _ => exact inv.same rfl fun _ => rfl
      | announced _ => exact inv.same rfl fun _ => rfl
      | exits s₁ _ added =>
          obtain ⟨_, rfl⟩ := addEventCr_ok added
          exact inv.same rfl fun _ => rfl
  | _ => exact inv.same rfl fun _ => rfl

end Libtcr
