import Libtcr.CallSteps
import Libtcr.FaultProperties

/-! The life of a thread from its creation to `tc_thread_free`, and the waiters for its
exit: nobody queues on `exit_waiters` once the thread is off the list of threads, and
`tc_die` moves off it everybody who has. -/

set_option autoImplicit false

namespace Libtcr

open State

/-- `tc_die` has woken `exit_waiters`. -/
def Status.exited : Status → Bool
  | .announced | .exiting | .dead => true
  | _ => false

/-- A thread in this state can be on the list of threads of its domain. -/
def Status.enlisted : Status → Bool
  | .created | .posted | .alive => true
  | _ => false

def Status.dying : Status → Bool
  | .unlinked | .settled | .announced | .exiting => true
  | _ => false

/-! ## The life of a thread -/

inductive LifeStep (s s' : State) (t : Tid) : Prop where
  | same (status : s'.status t = s.status t) (listed : s'.listed t = s.listed t)
  | made (before : s.status t = .unused) (after : s'.status t = .created)
  | posted (before : s.status t = .created) (after : s'.status t = .posted)
      (listed : s'.listed t = s.listed t)
  | started (before : s.status t = .posted) (after : s'.status t = .alive)
      (listed : s'.listed t = s.listed t)
  | unlinked (before : s.status t = .alive) (after : s'.status t = .unlinked)
      (off : s'.listed t = false)
  | settled (before : s.status t = .unlinked) (after : s'.status t = .settled)
      (listed : s'.listed t = s.listed t)
  | announced (before : s.status t = .settled) (after : s'.status t = .announced)
      (listed : s'.listed t = s.listed t) (moved : s'.lists = (s.tcWaitqWakeupAll (.exit t)).lists)
  | exits (before : s.status t = .announced) (after : s'.status t = .exiting)
      (listed : s'.listed t = s.listed t)
  | freed (before : s.status t = .exiting) (after : s'.status t = .dead)
      (listed : s'.listed t = s.listed t)

section Life

variable {s s' : State} {w : WorkerId} {t u : Tid}

theorem runOrQueue_life {e : EventId} {tcfd : Option FdId} {chosen : Option Tid}
    (ran : RunOrQueue (s.served w tcfd) w e chosen s') :
    s'.status = s.status ∧ s'.listed = s.listed := by
  obtain ⟨_, _, _, _, _, _, _, rfl⟩ := ran.frame
  exact ⟨rfl, rfl⟩

theorem tcWaitqWakeupOne_life (s : State) (wq : Waitq) :
    (s.tcWaitqWakeupOne wq).1.status = s.status ∧ (s.tcWaitqWakeupOne wq).1.listed = s.listed := by
  obtain ⟨_, _, _, frame⟩ := tcWaitqWakeupOne_frame s wq
  rw [frame]
  exact ⟨rfl, rfl⟩

private theorem finishWait_life {e : EventId} {rv : Bool} (finished : FinishWait s w t e rv s') :
    s'.status = s.status ∧ s'.listed = s.listed := by
  obtain ⟨_, _, _, _, _, _, _, rfl⟩ := finished.frame
  exact ⟨rfl, rfl⟩

theorem LifeStep.through {s₁ : State} (same : s₁.status = s.status ∧ s₁.listed = s.listed)
    (status : s'.status t = s₁.status t) (listed : s'.listed t = s₁.listed t) : LifeStep s s' t :=
  .same (status.trans (congrFun same.1 t)) (listed.trans (congrFun same.2 t))

theorem State.UserEffect.lifeStep {op : UserOp} (effect : UserEffect s w u op s') :
    LifeStep s s' t := by
  cases effect with
  | wakeupOne q => exact .through (tcWaitqWakeupOne_life s (.user q)) rfl rfl
  | subscribe g n _ _ subscribed =>
      obtain ⟨_, rfl⟩ := tcSignalSubscribe_ok subscribed
      exact .same rfl rfl
  | unlock m _ => exact .through (tcWaitqWakeupOne_life s (.mutex m)) rfl rfl
  | threadNew v d nr affine unused =>
      by_cases same : t = v
      · subst same
        exact .made unused (by simp [tcThreadNew])
      · exact .same (by simp [tcThreadNew, tcEventInit, same]) (by simp [tcThreadNew, tcEventInit, same])
  | threadPost v s₁ created added =>
      obtain ⟨_, rfl⟩ := addEventCr_ok added
      by_cases same : t = v
      · subst same
        exact .posted created (by simp [iwiImmediate]) rfl
      · exact .same (by simp [iwiImmediate, attachEvent, same]) rfl
  | yield n s₁ _ added =>
      obtain ⟨_, rfl⟩ := addEventCr_ok added
      exact .same rfl rfl
  | waitFdFailed n g mask priority ctl s₁ _ refused => cases refused <;> exact .same rfl rfl
  | waitFd n g mask priority ctl s₁ _ added =>
      cases added
      exact .same rfl rfl
  | waitqWait n q s₁ _ prepared =>
      obtain ⟨_, rfl⟩ := tcWaitqPrepareToWait_ok prepared
      exact .same rfl rfl
  | threadWait n v d id s₁ _ prepared =>
      obtain ⟨_, rfl⟩ := tcWaitqPrepareToWait_ok prepared
      exact .same rfl rfl
  | dieUnlink _ alive =>
      by_cases same : t = u
      · subst same
        exact .unlinked alive (by simp) (by simp)
      · exact .same (by simp [same]) (by simp [same])
  | _ => exact .same rfl rfl

theorem State.FrameEffect.life {f : Frame} (effect : FrameEffect s w u f s') :
    s'.status t = s.status t ∧ s'.listed t = s.listed t := by
  have through : ∀ {e : EventId} {rv : Bool} {s₁ : State}, FinishWait s w u e rv s₁ →
      s₁.status t = s.status t ∧ s₁.listed t = s.listed t :=
    fun finished => ⟨congrFun (finishWait_life finished).1 t, congrFun (finishWait_life finished).2 t⟩
  cases effect with
  | scheduled _ _ scheduled => cases scheduled <;> exact ⟨rfl, rfl⟩
  | interrupted s₁ _ _ finished => exact (through finished :)
  | again s₁ _ _ finished => exact (through finished :)
  | woken s₁ _ _ _ finished => exact (through finished :)
  | prepared wq s₁ _ _ _ prepared =>
      obtain ⟨_, rfl⟩ := tcWaitqPrepareToWait_ok prepared
      exact ⟨rfl, rfl⟩
  | held s₁ rv _ finished => exact (through finished :)
  | _ => exact ⟨rfl, rfl⟩

theorem State.FrameEffect.lifeStep {f : Frame} (effect : FrameEffect s w u f s') :
    LifeStep s s' t :=
  .same effect.life.1 effect.life.2

theorem State.DieEffect.lifeStep (effect : DieEffect s w u s') : LifeStep s s' t := by
  cases effect with
  | settled unlinked =>
      by_cases same : t = u
      · subst same
        exact .settled unlinked (by simp) rfl
      · exact .same (by simp [same]) rfl
  | announced settled =>
      by_cases same : t = u
      · subst same
        exact .announced settled (by simp) rfl rfl
      · exact .same (by simp [same]) rfl
  | exits s₁ announced added =>
      obtain ⟨_, rfl⟩ := addEventCr_ok added
      by_cases same : t = u
      · subst same
        exact .exits announced (by simp [iwiImmediate]) rfl
      · exact .same (by simp [iwiImmediate, attachEvent, same]) rfl

theorem State.Effect.lifeStep {a : Action} (effect : s.Effect a s') (inv : SystemInv s) :
    LifeStep s s' t := by
  cases effect with
  | queued w scan x s₁ _ _ ran => exact .through (runOrQueue_life ran) rfl rfl
  | reaped w scan x u s₁ _ _ _ ran => exact .through (runOrQueue_life ran) rfl rfl
  | chosen w scan x u s₁ immediateFd _ _ _ ran => exact .through (runOrQueue_life ran) rfl rfl
  | reported w g em _ _ =>
      obtain ⟨moved, choice, handled⟩ :=
        handleReport_spec (fun f => inv.lists.lists.nodup (.fd f)) w g em
      obtain ⟨errHup, fdEpEvents, equal⟩ := handled.effect
      rw [equal]
      exact .same rfl rfl
  | reportQueued w g x s₁ _ _ ran => exact .through (runOrQueue_life ran) rfl rfl
  | reportChosen w g x u s₁ _ _ ran => exact .through (runOrQueue_life ran) rfl rfl
  | entered w u enter =>
      by_cases same : t = u ∧ s.status u = .posted
      · obtain ⟨rfl, posted⟩ := same
        exact .started posted (by simp [enterThread, posted]) rfl
      · refine .same ?_ rfl
        by_cases posted : s.status u = .posted
        · simp [enterThread, posted, show t ≠ u from fun equal => same ⟨equal, posted⟩]
        · simp [enterThread, posted]
  | freed w u free =>
      by_cases same : t = u
      · subst same
        have exiting := ((inv.thread t).freeing w (by simp [State.view, placeOf, free])).1
        exact .freed exiting (by simp [iwiImmediate]) rfl
      · exact .same (by simp [iwiImmediate, same]) rfl
  | user w u op _ _ _ effect => exact effect.lifeStep
  | advanced w u f rest _ _ _ effect => exact effect.lifeStep
  | died w u _ _ _ effect => exact effect.lifeStep
  | _ => exact .same rfl rfl

theorem SystemInv.lifeStep {a : Action} (inv : SystemInv s) (stepped : s.step a = some s') :
    LifeStep s s' t := by
  obtain ⟨_, effect | ⟨fault, _, rfl⟩⟩ := State.step_cases stepped
  · exact effect.lifeStep inv
  · exact .same rfl rfl

theorem State.UserEffect.dies {op : UserOp} (effect : UserEffect s w u op s')
    (dying : (s'.status t).dying = true) :
    s'.status t = s.status t ∨ op = .dieUnlink ∧ u = t ∧ s'.status t = .unlinked := by
  have others : ∀ (v : Tid) (status : Status), s'.status = Function.update s.status v status →
      status.dying = false →
      s'.status t = s.status t ∨ op = .dieUnlink ∧ u = t ∧ s'.status t = .unlinked := by
    intro v status equal early
    by_cases same : t = v
    · rw [equal, same, Function.update_self, early] at dying
      cases dying
    · exact .inl (by rw [equal, Function.update_of_ne same])
  cases effect with
  | wakeupOne q => exact .inl (congrFun (tcWaitqWakeupOne_life s (.user q)).1 t)
  | subscribe g n _ _ subscribed =>
      obtain ⟨_, rfl⟩ := tcSignalSubscribe_ok subscribed
      exact .inl rfl
  | unlock m _ => exact .inl (congrFun (tcWaitqWakeupOne_life s (.mutex m)).1 t)
  | threadNew v d nr affine _ => exact others v .created rfl rfl
  | threadPost v s₁ _ added =>
      obtain ⟨_, rfl⟩ := addEventCr_ok added
      exact others v .posted rfl rfl
  | yield n s₁ _ added =>
      obtain ⟨_, rfl⟩ := addEventCr_ok added
      exact .inl rfl
  | waitFdFailed n g mask priority ctl s₁ _ refused => cases refused <;> exact .inl rfl
  | waitFd n g mask priority ctl s₁ _ added =>
      cases added
      exact .inl rfl
  | waitqWait n q s₁ _ prepared =>
      obtain ⟨_, rfl⟩ := tcWaitqPrepareToWait_ok prepared
      exact .inl rfl
  | threadWait n v d id s₁ _ prepared =>
      obtain ⟨_, rfl⟩ := tcWaitqPrepareToWait_ok prepared
      exact .inl rfl
  | dieUnlink _ _ =>
      by_cases same : t = u
      · exact .inr ⟨rfl, same.symm, by simp [same]⟩
      · exact .inl (by simp [same])
  | _ => exact .inl rfl

theorem State.DieEffect.dies (effect : DieEffect s w u s') :
    s'.status t = s.status t ∨ u = t ∧ s'.status t ≠ .unlinked := by
  by_cases same : t = u
  · refine .inr ⟨same.symm, ?_⟩
    cases effect with
    | settled _ => simp [same]
    | announced _ => simp [same]
    | exits s₁ _ added =>
        obtain ⟨_, rfl⟩ := addEventCr_ok added
        simp [iwiImmediate, same]
  · refine .inl ?_
    cases effect with
    | settled _ => simp [same]
    | announced _ => simp [same]
    | exits s₁ _ added =>
        obtain ⟨_, rfl⟩ := addEventCr_ok added
        simp [iwiImmediate, attachEvent, same]

theorem State.Effect.dies {a : Action} (effect : s.Effect a s') (inv : SystemInv s)
    (dying : (s'.status t).dying = true) :
    s'.status t = s.status t ∨ ∃ w, s.mode w = .thread t ∧
      (a = .user w .dieUnlink ∧ s'.status t = .unlinked ∨ a = .die w ∧ s'.status t ≠ .unlinked) := by
  cases effect with
  | queued w scan x s₁ _ _ ran => exact .inl (congrFun (runOrQueue_life ran).1 t)
  | reaped w scan x u s₁ _ _ _ ran => exact .inl (congrFun (runOrQueue_life ran).1 t)
  | chosen w scan x u s₁ immediateFd _ _ _ ran => exact .inl (congrFun (runOrQueue_life ran).1 t)
  | reported w g em _ _ =>
      obtain ⟨moved, choice, handled⟩ :=
        handleReport_spec (fun f => inv.lists.lists.nodup (.fd f)) w g em
      obtain ⟨errHup, fdEpEvents, equal⟩ := handled.effect
      rw [equal]
      exact .inl rfl
  | reportQueued w g x s₁ _ _ ran => exact .inl (congrFun (runOrQueue_life ran).1 t)
  | reportChosen w g x u s₁ _ _ ran => exact .inl (congrFun (runOrQueue_life ran).1 t)
  | entered w u _ =>
      refine .inl ?_
      simp only [enterThread] at dying ⊢
      split at dying
      · by_cases same : t = u
        · simp [same, Status.dying] at dying
        · simp_all
      · simp_all
  | freed w u _ =>
      by_cases same : t = u
      · simp [iwiImmediate, same, Status.dying] at dying
      · exact .inl (by simp [iwiImmediate, same])
  | user w u op _ on _ effect =>
      rcases effect.dies dying with equal | ⟨rfl, rfl, unlinked⟩
      · exact .inl equal
      · exact .inr ⟨w, on, .inl ⟨rfl, unlinked⟩⟩
  | advanced w u f rest _ _ _ effect => exact .inl effect.life.1
  | died w u _ on _ effect =>
      rcases effect.dies (t := t) with equal | ⟨rfl, further⟩
      · exact .inl equal
      · exact .inr ⟨w, on, .inr ⟨rfl, further⟩⟩
  | _ => exact .inl rfl

theorem LifeStep.used (step : LifeStep s s' t)
    (before : s.status t ≠ .unused) : s'.status t ≠ .unused := by
  cases step with
  | same status _ => rwa [status]
  | made status _ => exact absurd status before
  | posted _ after _ => simp [after]
  | started _ after _ => simp [after]
  | unlinked _ after _ => simp [after]
  | settled _ after _ => simp [after]
  | announced _ after _ _ => simp [after]
  | exits _ after _ => simp [after]
  | freed _ after _ => simp [after]

theorem LifeStep.dead (step : LifeStep s s' t)
    (before : s.status t = .dead) : s'.status t = .dead := by
  cases step with
  | same status _ => rwa [status]
  | made status _ => simp [before] at status
  | posted status _ _ => simp [before] at status
  | started status _ _ => simp [before] at status
  | unlinked status _ _ => simp [before] at status
  | settled status _ _ => simp [before] at status
  | announced status _ _ _ => simp [before] at status
  | exits status _ _ => simp [before] at status
  | freed status _ _ => simp [before] at status

theorem LifeStep.exited (step : LifeStep s s' t) (before : (s.status t).exited = true) :
    (s'.status t).exited = true := by
  cases step with
  | same status _ => rwa [status]
  | exits _ after _ => simp [after, Status.exited]
  | freed _ after _ => simp [after, Status.exited]
  | made status _ => simp [status, Status.exited] at before
  | posted status _ _ => simp [status, Status.exited] at before
  | started status _ _ => simp [status, Status.exited] at before
  | unlinked status _ _ => simp [status, Status.exited] at before
  | settled status _ _ => simp [status, Status.exited] at before
  | announced status _ _ _ => simp [status, Status.exited] at before

end Life

/-! ## Departures -/

section Departures

variable {s s' : State} {w : WorkerId} {t u : Tid} {e x : EventId}

private theorem stays_same (rests : s.el e = some (.waiters (.exit u)))
    (lists : s'.lists = s.lists) :
    s'.el e = some (.waiters (.exit u)) := by
  rwa [State.el, lists]

theorem stays_other {l : Option EventList} (rests : s.el e = some (.waiters (.exit u)))
    (el : s'.lists.el = Function.update s.lists.el x l) (different : e ≠ x) :
    s'.el e = some (.waiters (.exit u)) := by
  rwa [State.el, el, Function.update_of_ne different]

theorem stays_update {l : Option EventList} (rests : s.el e = some (.waiters (.exit u)))
    (el : s'.lists.el = Function.update s.lists.el x l)
    (other : s.el x ≠ some (.waiters (.exit u))) : s'.el e = some (.waiters (.exit u)) := by
  refine stays_other rests el ?_
  rintro rfl
  exact other rests

private theorem stays_woken (moved : List EventId) (rests : s.el e = some (.waiters (.exit u)))
    (el : ∀ e, s'.lists.el e = if e ∈ moved then some .immediate else s.lists.el e)
    (others : e ∉ moved) : s'.el e = some (.waiters (.exit u)) := by
  rwa [State.el, el, if_neg others]

private theorem stays_wakeupAll {q : Waitq} (inv : ListInv s)
    (rests : s.el e = some (.waiters (.exit u))) (lists : s'.lists = (s.tcWaitqWakeupAll q).lists)
    (other : q ≠ .exit u) : s'.el e = some (.waiters (.exit u)) := by
  refine stays_woken (s.events (.waiters q)) rests (fun e => ?_) fun member => ?_
  · rw [lists, tcWaitqWakeupAll_lists]
    exact (IntrusiveLists.movesTo_front EventList.immediate).foldl_el s.lists _ e
  · rw [inv.mem_events.mp member] at rests
    cases rests
    exact other rfl

private theorem stays_wakeupOne {q : Waitq} (inv : ListInv s)
    (rests : s.el e = some (.waiters (.exit u))) (lists : s'.lists = (s.tcWaitqWakeupOne q).1.lists)
    (other : q ≠ .exit u) : s'.el e = some (.waiters (.exit u)) := by
  cases queue : s.events (.waiters q) with
  | nil => exact stays_same rests (by rw [lists, tcWaitqWakeupOne_nil queue])
  | cons y es =>
      have on : s.el y = some (.waiters q) := inv.mem_events.mp (by simp [queue])
      refine stays_update (x := y) (l := some .immediate) rests ?_ ?_
      · rw [lists, tcWaitqWakeupOne_cons queue]
        simp [iwiImmediate]
      · rw [on]
        simpa using other

private theorem stays_runOrQueue {tcfd : Option FdId} {chosen : Option Tid}
    (rests : s.el e = some (.waiters (.exit u))) (ran : RunOrQueue (s.served w tcfd) w x chosen s')
    (active : s.el x ≠ some (.waiters (.exit u))) : s'.el e = some (.waiters (.exit u)) := by
  cases ran with
  | exits _ _ => exact stays_update (x := x) (l := none) rests rfl active
  | queued k' _ _ _ _ _ =>
      exact stays_update (x := x) (l := some (.pending (s.tc x))) rests
        (by simp [relocateEvent, served]) active
  | signalled k' _ _ _ _ =>
      exact stays_update (x := x) (l := some (.waiters (.signal (s.signal x)))) rests
        (by simp [relocateEvent, served]) active
  | selected k' _ _ _ _ _ => exact stays_update (x := x) (l := none) rests rfl active

theorem SystemInv.exit_waiter (inv : SystemInv s) (rests : s.el e = some (.waiters (.exit u))) :
    ∃ n f rest, e = .auto e.owner n ∧ s.frames e.owner = f :: rest ∧ f.e = e ∧
      f.call = .thread u := by
  obtain ⟨f, member, equal, home⟩ := inv.frame_of_resting rests rfl
  have call : f.call = .thread u := by
    cases call : f.call <;> simp [Call.home, call] at home ⊢
    exact home
  have thread := inv.thread e.owner
  obtain ⟨⟨n, auto⟩, _⟩ := thread.frame f member
  cases frames : s.frames e.owner with
  | nil => simp [frames] at member
  | cons g rest =>
      rw [frames] at member
      rcases List.mem_cons.mp member with rfl | below
      · exact ⟨n, f, rest, equal ▸ auto, rfl, equal, call⟩
      · have condition := thread.lower g rest frames f below
        simp [Frame.inCondition, call] at condition

theorem State.UserEffect.stays {op : UserOp} (effect : UserEffect s w t op s') (inv : SystemInv s)
    (rests : s.el e = some (.waiters (.exit u))) : s'.el e = some (.waiters (.exit u)) := by
  have fresh : ∀ {x : EventId}, s.life x = .unused → s.el x ≠ some (.waiters (.exit u)) := by
    intro x unused
    rw [unused_off inv unused]
    simp
  cases effect with
  | wakeupAll q => exact stays_wakeupAll (q := .user q) inv.lists rests rfl (by simp)
  | wakeupOne q => exact stays_wakeupOne (q := .user q) inv.lists rests rfl (by simp)
  | fire g => exact stays_wakeupAll (q := .signal g) inv.lists rests rfl (by simp)
  | subscribe g n _ unused subscribed =>
      obtain ⟨_, rfl⟩ := tcSignalSubscribe_ok subscribed
      exact stays_update rests rfl (fresh unused)
  | unsubscribe v n live =>
      refine stays_update (x := .sub v n) (l := none) rests rfl fun on => ?_
      obtain ⟨m, _, _, auto, _⟩ := inv.exit_waiter on
      cases auto
  | unlock m _ => exact stays_wakeupOne (q := .mutex m) inv.lists rests rfl (by simp)
  | threadPost v s₁ created added =>
      obtain ⟨_, rfl⟩ := addEventCr_ok added
      refine stays_update (x := .self v) (l := some .immediate) rests rfl fun on => ?_
      obtain ⟨m, _, _, auto, _⟩ := inv.exit_waiter on
      cases auto
  | yield n s₁ unused added =>
      obtain ⟨_, rfl⟩ := addEventCr_ok added
      exact stays_update rests rfl (fresh unused)
  | waitFdFailed n g mask priority ctl s₁ unused refused =>
      cases refused with
      | errHup => exact stays_same rests rfl
      | failed _ _ =>
          refine stays_update (x := .auto t n) (l := none) rests ?_ (fresh unused)
          simp [endEvent, detachEvent, unlinkEvent, attachEvent, tcEventInit]
  | waitFd n g mask priority ctl s₁ unused added =>
      cases added with
      | armed _ _ => exact stays_update rests rfl (fresh unused)
  | waitqWait n q s₁ unused prepared =>
      obtain ⟨_, rfl⟩ := tcWaitqPrepareToWait_ok prepared
      exact stays_update rests rfl (fresh unused)
  | threadWait n v d id s₁ unused prepared =>
      obtain ⟨_, rfl⟩ := tcWaitqPrepareToWait_ok prepared
      exact stays_update rests rfl (fresh unused)
  | _ => exact stays_same rests rfl

private theorem stays_finishWait {rv : Bool} {s₁ : State} (inv : SystemInv s)
    (rests : s.el e = some (.waiters (.exit u))) (finished : FinishWait s w t x rv s₁)
    (lists : s'.lists = s₁.lists) (different : e ≠ x) : s'.el e = some (.waiters (.exit u)) := by
  cases finished with
  | expected _ _ => exact stays_other rests (by rw [lists]; rfl) different
  | requeued y _ _ signal _ =>
      have removed : (s.removeEventHoldingLocks x).el e = some (.waiters (.exit u)) :=
        stays_other rests rfl different
      refine stays_other (x := y) (l := some (.pending t)) removed ?_ ?_
      · rw [lists]
        simp [attachEvent]
      · rintro rfl
        obtain ⟨n, _, _, auto, _⟩ := inv.exit_waiter rests
        have event := ((inv.thread e.owner).flagsAuto n).1
        rw [← auto] at event
        exact event (by simpa [State.view] using signal)
  | interrupted y _ _ _ _ => exact stays_other rests (by rw [lists]; rfl) different

theorem State.FrameEffect.stays {f : Frame} (effect : FrameEffect s w t f s') (inv : SystemInv s)
    (rests : s.el e = some (.waiters (.exit u))) (different : e ≠ f.e) :
    s'.el e = some (.waiters (.exit u)) := by
  cases effect with
  | scheduled _ _ scheduled =>
      cases scheduled with
      | slept _ => exact stays_same rests rfl
      | signalled x _ pending _ _ =>
          refine stays_update (x := x) (l := some (.waiters (.signal (s.signal x)))) rests ?_ ?_
          · simp [setFrame, relocateEvent]
          · simp [inv.lists.mem_events.mp pending]
      | resumed x _ _ on _ _ => exact stays_update (x := x) (l := none) rests rfl (by simp [on])
  | yieldIntr _ _ _ _ _ => exact stays_other rests rfl different
  | fdIntr _ _ _ _ _ _ => exact stays_other rests rfl different
  | interrupted s₁ _ _ finished => exact stays_finishWait inv rests finished rfl different
  | again s₁ _ _ finished => exact stays_finishWait inv rests finished rfl different
  | woken s₁ _ _ _ finished => exact stays_finishWait inv rests finished rfl different
  | prepared wq s₁ _ _ _ prepared =>
      obtain ⟨_, rfl⟩ := tcWaitqPrepareToWait_ok prepared
      exact stays_other rests rfl different
  | held s₁ rv _ finished => exact stays_finishWait inv rests finished rfl different
  | _ => exact stays_same rests rfl

private theorem wakeupAll_moves_exit (inv : ListInv s)
    (rests : s.el e = some (.waiters (.exit u))) :
    (s.tcWaitqWakeupAll (.exit u)).el e = some .immediate := by
  rw [State.el, tcWaitqWakeupAll_lists,
    (IntrusiveLists.movesTo_front EventList.immediate).foldl_el s.lists _ e,
    if_pos (inv.mem_events.mpr rests)]

/-- An event leaves `exit_waiters` when the thread waited for wakes its waiters, or when
its own call goes on. -/
theorem State.Effect.leaves_exit {a : Action} (effect : s.Effect a s') (inv : SystemInv s)
    (rests : s.el e = some (.waiters (.exit u))) : s'.el e = some (.waiters (.exit u)) ∨
      (∃ w, a = .die w) ∧ s.status u = .settled ∧ s'.status u = .announced ∧
        s'.el e = some .immediate ∨
      ∃ w f rest, a = .advance w ∧ s.mode w = .thread e.owner ∧ s.frames e.owner = f :: rest ∧
        f.e = e ∧ f.call = .thread u ∧ FrameEffect s w e.owner f s' := by
  have active : ∀ {x : EventId}, x ∈ s.events .immediate → s.el x ≠ some (.waiters (.exit u)) := by
    intro x found
    simp [inv.lists.mem_events.mp found]
  have report : ∀ {w : WorkerId} {f : FdId} {x : EventId}, s.mode w = .report f x →
      s.life x = .live → s.el x ≠ some (.waiters (.exit u)) := by
    intro w f x mode live on
    obtain ⟨t, n, rfl, made⟩ := inv.report w f x mode
    have served := served_of_madeFor (inv.thread t) made live _ on
    cases served
  cases effect with
  | queued w scan x s₁ _ found ran => exact .inl (stays_runOrQueue rests ran (active found))
  | reaped w scan x v s₁ _ found _ ran =>
      exact .inl (stays_runOrQueue rests ran (active found) :)
  | chosen w scan x v s₁ immediateFd _ found _ ran =>
      exact .inl (stays_runOrQueue rests ran (active found) :)
  | reported w g em _ _ =>
      obtain ⟨moved, choice, handled⟩ :=
        handleReport_spec (fun f => inv.lists.lists.nodup (.fd f)) w g em
      have from_ := handled.movedFrom
      obtain ⟨errHup, fdEpEvents, equal⟩ := handled.effect
      refine .inl (stays_woken moved rests (fun e => ?_) fun member => ?_)
      · rw [equal]
        exact (IntrusiveLists.movesTo_back EventList.immediate).foldl_el s.lists moved e
      · rw [inv.lists.mem_events.mp (from_ e member)] at rests
        cases rests
  | reportQueued w g x s₁ mode live ran =>
      exact .inl (stays_runOrQueue rests ran (report mode live) :)
  | reportChosen w g x v s₁ mode live ran =>
      exact .inl (stays_runOrQueue rests ran (report mode live) :)
  | aio w q _ => exact .inl (stays_wakeupAll (q := .user q) inv.lists rests rfl (by simp))
  | user w v op _ _ _ effect => exact .inl (effect.stays inv rests)
  | advanced w v f rest _ on frames effect =>
      by_cases own : e = f.e
      · obtain ⟨⟨n, auto⟩, _⟩ := (inv.thread v).frame f (by simp [State.view, frames])
        obtain rfl : e.owner = v := by rw [own, auto, EventId.owner]
        obtain ⟨_, g, _, _, frames', _, call⟩ := inv.exit_waiter rests
        obtain ⟨rfl, _⟩ := List.cons.inj (frames.symm.trans frames')
        exact .inr (.inr ⟨w, f, rest, rfl, on, frames, own.symm, call, effect⟩)
      · exact .inl (effect.stays inv rests own)
  | died w v _ _ _ effect =>
      cases effect with
      | settled _ => exact .inl (stays_same rests rfl)
      | announced settled =>
          by_cases same : v = u
          · subst same
            exact .inr (.inl ⟨⟨w, rfl⟩, settled, by simp, wakeupAll_moves_exit inv.lists rests⟩)
          · exact .inl (stays_wakeupAll (q := .exit v) inv.lists rests rfl (by simpa using same))
      | exits s₁ _ added =>
          obtain ⟨_, rfl⟩ := addEventCr_ok added
          refine .inl (stays_update (x := .self v) (l := some .immediate) rests rfl fun on => ?_)
          obtain ⟨m, _, _, auto, _⟩ := inv.exit_waiter on
          cases auto
  | _ => exact .inl (stays_same rests rfl)

end Departures

/-! ## The invariant -/

structure ExitInv (s : State) : Prop where
  enlisted : ∀ t, s.listed t = true → (s.status t).enlisted = true
  left : ∀ t e, (s.status t).exited = true → s.el e ≠ some (.waiters (.exit t))

section Invariant

variable {s s' : State} {t : Tid}

theorem LifeStep.enlisted (step : LifeStep s s' t)
    (before : s.listed t = true → (s.status t).enlisted = true) (on : s'.listed t = true) :
    (s'.status t).enlisted = true := by
  cases step with
  | same status listed =>
      rw [status]
      exact before (listed ▸ on)
  | made _ after => simp [after, Status.enlisted]
  | posted _ after _ => simp [after, Status.enlisted]
  | started _ after _ => simp [after, Status.enlisted]
  | unlinked _ _ off => simp [off] at on
  | settled status _ listed => simpa [status, Status.enlisted] using before (listed ▸ on)
  | announced status _ listed _ => simpa [status, Status.enlisted] using before (listed ▸ on)
  | exits status _ listed => simpa [status, Status.enlisted] using before (listed ▸ on)
  | freed status _ listed => simpa [status, Status.enlisted] using before (listed ▸ on)

/-- A thread that is on the list of threads is at least two steps away from waking its
waiters. -/
theorem LifeStep.not_exited (step : LifeStep s s' t) (before : (s.status t).enlisted = true) :
    (s'.status t).exited = false := by
  cases step with
  | same status _ =>
      rw [status]
      cases now : s.status t <;> simp [now, Status.enlisted, Status.exited] at before ⊢
  | made status _ => simp [status, Status.enlisted] at before
  | posted _ after _ => simp [after, Status.exited]
  | started _ after _ => simp [after, Status.exited]
  | unlinked _ after _ => simp [after, Status.exited]
  | settled status _ _ => simp [status, Status.enlisted] at before
  | announced status _ _ _ => simp [status, Status.enlisted] at before
  | exits status _ _ => simp [status, Status.enlisted] at before
  | freed status _ _ => simp [status, Status.enlisted] at before

/-- `tc_thread_wait_ref` queues its event only for a thread on the list of threads. -/
theorem act_threadWait_listed {a : Action} {e : EventId}
    (done : s.act a = some (.ok s')) (arrives : Arrives s e (.waiters (.exit t)) a)
    (came : s'.el e ≠ s.el e) : s.listed t = true := by
  cases arrives with
  | waitFd w u n f mask priority ctl _ _ list => cases list
  | waitqWait w u n q _ _ list => cases list
  | threadWait w u n v d id on event list =>
      obtain rfl : t = v := by simpa using list
      simp only [act, on, userStep] at done
      split at done
      · split at done
        · split at done
          · next valid => exact valid.1
          · cases done
            exact absurd rfl came
        · cases done
      · cases done
  | prepared w u f rest on frames pc _ _ home =>
      obtain call : f.call = .thread t := by
        cases call : f.call <;> simp [Call.home, call] at home ⊢
        exact home.symm
      simp [act, on, frames, advanceFrame, pc, call] at done

theorem ExitInv.step {a : Action} (exit : ExitInv s) (inv : SystemInv s)
    (stepped : s.step a = some s') : ExitInv s' := by
  obtain ⟨running, effect | ⟨fault, _, rfl⟩⟩ := State.step_cases stepped
  · refine ⟨fun t on => effect.lifeStep inv |>.enlisted (exit.enlisted t) on, ?_⟩
    intro t e exited on
    have life : LifeStep s s' t := effect.lifeStep inv
    by_cases before : s.el e = some (.waiters (.exit t))
    · have stays : (s.status t).exited = false := by
        by_contra already
        exact exit.left t e (by simpa using already) before
      cases life with
      | same status _ => simp [← status, exited] at stays
      | made _ after => simp [after, Status.exited] at exited
      | posted _ after _ => simp [after, Status.exited] at exited
      | started _ after _ => simp [after, Status.exited] at exited
      | unlinked _ after _ => simp [after, Status.exited] at exited
      | settled _ after _ => simp [after, Status.exited] at exited
      | announced _ _ _ moved =>
          have away := wakeupAll_moves_exit inv.lists before
          rw [State.el, ← moved] at away
          simp [State.el, away] at on
      | exits status _ _ => simp [status, Status.exited] at stays
      | freed status _ _ => simp [status, Status.exited] at stays
    · rcases effect.arrives inv.lists on rfl with same | arrives
      · exact before same
      · rcases State.step_act stepped with done | ⟨fault, _, rfl⟩
        · have listed := act_threadWait_listed done arrives fun same => before (same ▸ on)
          simp [life.not_exited (exit.enlisted t listed)] at exited
        · exact before on
  · exact ⟨exit.enlisted, exit.left⟩

theorem ExitInv.initial (workers : Nat) (domainOf : WorkerId → DomainId) :
    ExitInv (.initial workers domainOf) :=
  ⟨by simp [State.initial], by simp [State.initial, State.el, IntrusiveLists.empty]⟩

theorem ExitInv.empty (exit : ExitInv s) (inv : SystemInv s) (exited : (s.status t).exited = true) :
    s.events (.waiters (.exit t)) = [] := by
  refine List.eq_nil_iff_forall_not_mem.mpr fun e member => ?_
  exact exit.left t e exited (inv.lists.mem_events.mp member)

private theorem runOrQueue_not_exit {w : WorkerId} {e : EventId} :
    s.runOrQueue w e ≠ .error .exitWaitersLeft := by
  intro failed
  unfold runOrQueue at failed
  dsimp only at failed
  split at failed
  · cases failed
  · split at failed
    · split at failed
      · next refused =>
        cases failed
        unfold removeEventFrom at refused
        split at refused <;> cases refused
      · cases failed
    · split at failed
      · split at failed
        · next refused =>
          cases failed
          rcases moveEvent_error refused with ⟨_, fault⟩ | ⟨_, fault⟩ <;> cases fault
        · cases failed
      · split at failed
        · next refused =>
          cases failed
          split at refused
          · rcases moveEvent_error refused with ⟨_, fault⟩ | ⟨_, fault⟩ <;> cases fault
          · cases refused
        · cases failed

theorem ExitInv.act_error (exit : ExitInv s) (inv : SystemInv s) {a : Action} {fault : Fault}
    (failed : s.act a = some (.error fault)) : fault ≠ .exitWaitersLeft := by
  rintro rfl
  cases State.act_error inv failed with
  | reportMoved w f e _ report _ live =>
      simp only [act, report, runReported] at failed
      rw [if_neg (by simp [live])] at failed
      split at failed
      · next refused =>
        cases failed
        exact runOrQueue_not_exit refused
      · cases failed
  | exitWaiters w =>
      simp only [act] at failed
      split at failed
      · next t free =>
        have exiting := ((inv.thread t).freeing w (by simp [State.view, placeOf, free])).1
        have empty : s.events (.waiters (.exit t)) = [] := by
          refine exit.empty inv ?_
          rw [show s.status t = .exiting from exiting, Status.exited]
        split at failed
        · cases failed
        · simp [tcThreadFree, empty] at failed
      · cases failed
  | finish w t f rest _ _ _ _ _ cause =>
      rcases cause with ⟨fault, _⟩ | ⟨x, _, ⟨fault, _⟩ | ⟨fault, _⟩⟩ <;> cases fault

end Invariant

end Libtcr
