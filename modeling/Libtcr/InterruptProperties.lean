import Libtcr.CallSteps

/-! Which steps interrupt a sleeping call: a call returns `RV_INTR` when `tc_scheduler` has returned
for the event of a subscription, and that interruption is counted for the subscription. -/

set_option autoImplicit false

namespace Libtcr

open State

def Subscribes (s : State) (a : Action) (x : EventId) : Prop :=
  ∃ w t g n, a = .user w (.subscribe g n) ∧ s.mode w = .thread t ∧ x = .sub t n

/-- What a step does to the interruptions and to the results `RV_INTR`. -/
inductive InterruptStep (s s' : State) : Action → Prop where
  | calm (a : Action) (interrupts : ∀ x, ¬ Subscribes s a x → s'.interrupts x = s.interrupts x)
      (result : ∀ e, s'.result e = some .intr → s.result e = some .intr) : InterruptStep s s' a
  | interrupted (w : WorkerId) (t : Tid) (f : Frame) (rest : List Frame) (n : Nat)
      (on : s.mode w = .thread t) (frames : s.frames t = f :: rest) (pc : f.pc = .woke)
      (woken : s.wokenByEvent w = some (.sub t n))
      (interrupts : s'.interrupts =
        Function.update s.interrupts (.sub t n) (s.interrupts (.sub t n) + 1))
      (result : s'.result = Function.update s.result f.e (some .intr)) :
      InterruptStep s s' (.advance w)

section Steps

variable {s s' : State} {a : Action} {w : WorkerId} {t : Tid} {f : Frame} {rest : List Frame}

theorem InterruptStep.same (interrupts : s'.interrupts = s.interrupts) (result : s'.result = s.result) :
    InterruptStep s s' a :=
  .calm a (fun x _ => congrFun interrupts x) fun e intr => by rwa [result] at intr

theorem InterruptStep.ended {s₁ : State} {e : EventId} {rv : Rv} (interrupts : s'.interrupts = s.interrupts)
    (result : s₁.result = s.result) (returned : s'.result = Function.update s₁.result e (some rv))
    (notIntr : rv ≠ .intr) : InterruptStep s s' a := by
  refine .calm a (fun x _ => congrFun interrupts x) fun x intr => ?_
  rw [returned, result] at intr
  exact (Update.old_of_ne intr fun equal => notIntr (Option.some.inj equal)).2

private theorem runOrQueue_interrupts {e : EventId} {chosen : Option Tid}
    (ran : RunOrQueue s w e chosen s') : s'.interrupts = s.interrupts := by
  obtain ⟨_, _, _, _, _, _, _, rfl⟩ := ran.frame
  rfl

private theorem tcWaitqWakeupOne_interrupts (s : State) (wq : Waitq) :
    (s.tcWaitqWakeupOne wq).1.interrupts = s.interrupts := by
  obtain ⟨_, _, _, frame⟩ := tcWaitqWakeupOne_frame s wq
  rw [frame]

private theorem finishWait_interrupts {e : EventId} {rv : Bool}
    (finished : FinishWait s w t e rv s') : s'.interrupts = s.interrupts := by
  obtain ⟨_, _, _, _, _, _, _, rfl⟩ := finished.frame
  rfl

/-- Who is resumed for another event than that of its call is resumed for a signal. -/
theorem SystemInv.resumed_by (inv : SystemInv s) (on : s.mode w = .thread t)
    (frames : s.frames t = f :: rest) (pc : f.pc = .woke) (other : s.wokenByEvent w ≠ some f.e) :
    ∃ n, s.wokenByEvent w = some (.sub t n) := by
  obtain ⟨y, woken, delivered⟩ := (inv.thread t).delivered w (s.wokenByEvent w) f rest
    (by simp [State.view, frames]) (.inr ⟨by simp [State.view, placeOf, on], pc⟩)
  rcases delivered with ⟨rfl, _⟩ | ⟨⟨n, rfl⟩, _⟩
  · exact absurd woken other
  · exact ⟨n, woken⟩

theorem InterruptStep.returnIntr {s₁ : State} (inv : SystemInv s) (on : s.mode w = .thread t)
    (frames : s.frames t = f :: rest) (pc : f.pc = .woke) (other : s.wokenByEvent w ≠ some f.e)
    (interrupts : s₁.interrupts = s.interrupts) (result : s₁.result = s.result) :
    InterruptStep s (s₁.returnIntr t f (s.wokenByEvent w)) (.advance w) := by
  obtain ⟨n, woken⟩ := inv.resumed_by on frames pc other
  refine .interrupted w t f rest n on frames pc woken ?_ ?_
  · simp [State.returnIntr, woken, interrupts]
  · simp [State.returnIntr, State.returnCall, endEvent, result]

theorem State.FrameEffect.interruptStep (effect : FrameEffect s w t f s') (inv : SystemInv s)
    (on : s.mode w = .thread t) (frames : s.frames t = f :: rest) :
    InterruptStep s s' (.advance w) := by
  cases effect with
  | pushed _ => exact .same rfl rfl
  | scheduled _ _ scheduled => cases scheduled <;> exact .same rfl rfl
  | yieldIntr pc _ woken _ _ => exact .returnIntr inv on frames pc woken rfl rfl
  | yieldDone _ _ _ => exact .ended rfl rfl rfl (by simp)
  | fdIntr fd pc _ woken _ _ => exact .returnIntr inv on frames pc woken rfl rfl
  | fdDone fd rv _ _ _ notIntr => exact .ended rfl rfl rfl notIntr
  | interrupted s₁ pc _ finished =>
      refine .returnIntr inv on frames pc ?_ (finishWait_interrupts finished) (finishWait_calls finished).2
      cases finished with
      | interrupted x woken _ signal _ =>
          rw [woken]
          rintro ⟨rfl⟩
          have thread := inv.thread t
          have member : f ∈ (s.view t).frames := by simp [State.view, frames]
          obtain ⟨⟨n, auto⟩, _⟩ := thread.frame f member
          obtain ⟨m, sub⟩ := thread.sub_of_signal (thread.event_owner member)
            (by simpa [State.view, auto] using signal)
          simp [auto] at sub
  | again s₁ _ _ finished =>
      have interrupts := finishWait_interrupts finished
      have result := (finishWait_calls finished).2
      exact .same interrupts result
  | woken s₁ _ _ _ finished =>
      have interrupts := finishWait_interrupts finished
      exact .ended interrupts (finishWait_calls finished).2 rfl (by simp)
  | prepared wq s₁ _ _ _ prepared =>
      obtain ⟨_, rfl⟩ := tcWaitqPrepareToWait_ok prepared
      exact .same rfl rfl
  | held s₁ rv _ finished =>
      have interrupts := finishWait_interrupts finished
      exact .ended interrupts (finishWait_calls finished).2 rfl (by simp)
  | acquired m _ _ _ => exact .ended rfl rfl rfl (by simp)
  | owned m _ _ _ => exact .ended rfl rfl rfl (by simp)
  | taken m _ _ _ => exact .same rfl rfl
  | turned pc _ => exact .same rfl rfl

theorem State.UserEffect.interruptStep {op : UserOp} (effect : UserEffect s w t op s')
    (on : s.mode w = .thread t) : InterruptStep s s' (.user w op) := by
  cases effect with
  | wakeupOne q =>
      exact .same (tcWaitqWakeupOne_interrupts s (.user q)) (tcWaitqWakeupOne_calls s (.user q)).2
  | subscribe g n _ _ subscribed =>
      obtain ⟨_, rfl⟩ := tcSignalSubscribe_ok subscribed
      refine .calm _ (fun x other => ?_) fun e intr => intr
      have different : x ≠ .sub t n := by
        intro same
        exact other ⟨w, t, g, n, rfl, on, same⟩
      simp [different]
  | unlock m _ =>
      have interrupts := tcWaitqWakeupOne_interrupts s (.mutex m)
      have result := (tcWaitqWakeupOne_calls s (.mutex m)).2
      exact .same interrupts result
  | threadPost u s₁ _ added =>
      obtain ⟨_, rfl⟩ := addEventCr_ok added
      exact .same rfl rfl
  | yield n s₁ _ added =>
      obtain ⟨_, rfl⟩ := addEventCr_ok added
      exact .same rfl rfl
  | waitFdFailed n g mask priority ctl s₁ _ refused =>
      cases refused <;> exact .ended rfl rfl rfl (by simp)
  | waitFd n g mask priority ctl s₁ _ added =>
      cases added
      exact .same rfl rfl
  | waitqWait n q s₁ _ prepared =>
      obtain ⟨_, rfl⟩ := tcWaitqPrepareToWait_ok prepared
      exact .same rfl rfl
  | threadWait n u d id s₁ _ prepared =>
      obtain ⟨_, rfl⟩ := tcWaitqPrepareToWait_ok prepared
      exact .same rfl rfl
  | threadNa n u d id _ => exact .ended rfl rfl rfl (by simp)
  | _ => exact .same rfl rfl

theorem State.Effect.interruptStep (effect : s.Effect a s') (inv : SystemInv s) :
    InterruptStep s s' a := by
  have ran : ∀ {w : WorkerId} {tcfd : Option FdId} {x : EventId} {chosen : Option Tid} {s₁ : State},
      RunOrQueue (s.served w tcfd) w x chosen s₁ →
      s₁.interrupts = s.interrupts ∧ s₁.result = s.result := by
    intro w tcfd x chosen s₁ ran
    have interrupts := runOrQueue_interrupts ran
    exact ⟨interrupts, (runOrQueue_calls ran).2⟩
  cases effect with
  | queued w scan x s₁ _ _ queued => exact .same (ran queued).1 (ran queued).2
  | reaped w scan x u s₁ _ _ _ reaped =>
      obtain ⟨interrupts, result⟩ := ran reaped
      exact .same interrupts result
  | chosen w scan x u s₁ immediateFd _ _ _ chosen =>
      obtain ⟨interrupts, result⟩ := ran chosen
      exact .same interrupts result
  | reported w g em _ _ =>
      obtain ⟨moved, choice, handled⟩ :=
        handleReport_spec (fun f => inv.lists.lists.nodup (.fd f)) w g em
      obtain ⟨errHup, fdEpEvents, equal⟩ := handled.effect
      rw [equal]
      exact .same rfl rfl
  | reportQueued w g x s₁ _ _ queued =>
      obtain ⟨interrupts, result⟩ := ran queued
      exact .same interrupts result
  | reportChosen w g x u s₁ _ _ chosen =>
      obtain ⟨interrupts, result⟩ := ran chosen
      exact .same interrupts result
  | user w t op _ on _ effect => exact effect.interruptStep on
  | returned w value t f rest k _ _ _ _ => exact .ended rfl rfl rfl (by simp)
  | advanced w t f rest _ on frames effect => exact effect.interruptStep inv on frames
  | died w t _ _ _ effect =>
      cases effect with
      | settled _ => exact .same rfl rfl
      | announced _ => exact .same rfl rfl
      | exits s₁ _ added =>
          obtain ⟨_, rfl⟩ := addEventCr_ok added
          exact .same rfl rfl
  | _ => exact .same rfl rfl

theorem SystemInv.interruptStep (inv : SystemInv s) (stepped : s.step a = some s') :
    InterruptStep s s' a := by
  obtain ⟨_, effect | ⟨fault, _, rfl⟩⟩ := State.step_cases stepped
  · exact effect.interruptStep inv
  · exact .same rfl rfl

end Steps

end Libtcr
