import Libtcr.SystemInvariant

/-! Whose calls a step concerns: a thread that is inside a sleeping call goes on with it
only by its own steps. -/

set_option autoImplicit false

namespace Libtcr

open State

def SameCallsOf (t : Tid) (s s' : State) : Prop :=
  s'.frames t = s.frames t ∧ ∀ e, e.owner = t → s'.result e = s.result e

theorem SameCallsOf.unchanged {t : Tid} {s s' : State} (frames : s'.frames = s.frames)
    (result : s'.result = s.result) : SameCallsOf t s s' :=
  ⟨by rw [frames], fun e _ => by rw [result]⟩

section Others

variable {s s' : State} {w : WorkerId} {t u : Tid}

theorem SameCallsOf.pushFrame {call : Call} {e : EventId} {pc : Pc} {saved : Option EventId}
    (other : u ≠ t) (frames : s'.frames = s.frames) (result : s'.result = s.result) :
    SameCallsOf t s (s'.pushFrame u call e pc saved) :=
  ⟨by simp [State.pushFrame, Function.update_of_ne (Ne.symm other), frames],
    fun e _ => by rw [← result]; rfl⟩

theorem SameCallsOf.setFrame {f : Frame} (other : u ≠ t) (frames : s'.frames = s.frames)
    (result : s'.result = s.result) : SameCallsOf t s (s'.setFrame u f) :=
  ⟨by simp [State.setFrame, Function.update_of_ne (Ne.symm other), frames],
    fun e _ => by rw [← result]; rfl⟩

theorem SameCallsOf.endEvent {e : EventId} {rv : Rv} (other : e.owner ≠ t)
    (frames : s'.frames = s.frames) (result : s'.result = s.result) :
    SameCallsOf t s (s'.endEvent e rv) := by
  refine ⟨by simp [State.endEvent, frames], fun x own => ?_⟩
  have different : x ≠ e := by
    rintro rfl
    exact other own
  simp [State.endEvent, different, result]

theorem SameCallsOf.returnCall {f : Frame} {rv : Rv} (other : u ≠ t) (owner : f.e.owner = u)
    (frames : s'.frames = s.frames) (result : s'.result = s.result) :
    SameCallsOf t s (s'.returnCall u f rv) := by
  have ended : SameCallsOf t s (s'.endEvent f.e rv) :=
    .endEvent (owner.trans_ne other) frames result
  refine ⟨?_, ended.2⟩
  simp [State.returnCall, Function.update_of_ne (Ne.symm other), frames]

theorem SameCallsOf.returnIntr {f : Frame} {cause : Option EventId} (other : u ≠ t)
    (owner : f.e.owner = u) (frames : s'.frames = s.frames) (result : s'.result = s.result) :
    SameCallsOf t s (s'.returnIntr u f cause) := by
  have returned : SameCallsOf t s (s'.returnCall u f .intr) :=
    .returnCall other owner frames result
  exact ⟨returned.1, returned.2⟩

theorem runOrQueue_calls {e : EventId} {chosen : Option Tid} (ran : RunOrQueue s w e chosen s') :
    s'.frames = s.frames ∧ s'.result = s.result := by
  obtain ⟨_, _, _, _, _, _, _, rfl⟩ := ran.frame
  exact ⟨rfl, rfl⟩

theorem finishWait_calls {e : EventId} {rv : Bool} (finished : FinishWait s w u e rv s') :
    s'.frames = s.frames ∧ s'.result = s.result := by
  obtain ⟨_, _, _, _, _, _, _, rfl⟩ := finished.frame
  exact ⟨rfl, rfl⟩

theorem tcWaitqWakeupOne_calls (s : State) (wq : Waitq) :
    (s.tcWaitqWakeupOne wq).1.frames = s.frames ∧ (s.tcWaitqWakeupOne wq).1.result = s.result := by
  obtain ⟨_, _, _, frame⟩ := tcWaitqWakeupOne_frame s wq
  rw [frame]
  exact ⟨rfl, rfl⟩

theorem State.UserEffect.sameCalls {op : UserOp} (effect : UserEffect s w u op s')
    (other : u ≠ t) : SameCallsOf t s s' := by
  cases effect with
  | wakeupOne k =>
      obtain ⟨frames, result⟩ := tcWaitqWakeupOne_calls s (.user k)
      exact .unchanged frames result
  | subscribe g n _ _ subscribed =>
      obtain ⟨_, rfl⟩ := tcSignalSubscribe_ok subscribed
      exact .unchanged rfl rfl
  | unlock m _ =>
      obtain ⟨frames, result⟩ := tcWaitqWakeupOne_calls s (.mutex m)
      exact .unchanged frames result
  | threadPost _ s₁ _ added =>
      obtain ⟨_, rfl⟩ := addEventCr_ok added
      exact .unchanged rfl rfl
  | yield n s₁ _ added =>
      obtain ⟨_, rfl⟩ := addEventCr_ok added
      exact .pushFrame other rfl rfl
  | waitFdFailed n g mask priority ctl s₁ _ refused =>
      cases refused <;> exact .endEvent other rfl rfl
  | waitFd n g mask priority ctl s₁ _ added =>
      cases added
      exact .pushFrame other rfl rfl
  | waitqWait n k s₁ _ prepared =>
      obtain ⟨_, rfl⟩ := tcWaitqPrepareToWait_ok prepared
      exact .pushFrame other rfl rfl
  | threadWait n v d id s₁ _ prepared =>
      obtain ⟨_, rfl⟩ := tcWaitqPrepareToWait_ok prepared
      exact .pushFrame other rfl rfl
  | threadNa n v d id _ => exact .endEvent other rfl rfl
  | waitEvent n k _ => exact .pushFrame other rfl rfl
  | waitEventLoop n k _ => exact .pushFrame other rfl rfl
  | lock n m _ _ => exact .pushFrame other rfl rfl
  | _ => exact .unchanged rfl rfl

theorem State.FrameEffect.sameCalls {f : Frame} (effect : FrameEffect s w u f s')
    (other : u ≠ t) (owner : f.e.owner = u) : SameCallsOf t s s' := by
  cases effect with
  | pushed _ => exact .setFrame other rfl rfl
  | scheduled _ _ scheduled => cases scheduled <;> exact .setFrame other rfl rfl
  | yieldIntr _ _ _ _ _ => exact .returnIntr other owner rfl rfl
  | yieldDone _ _ _ => exact .returnCall other owner rfl rfl
  | fdIntr fd _ _ _ _ _ => exact .returnIntr other owner rfl rfl
  | fdDone fd rv _ _ _ _ => exact .returnCall other owner rfl rfl
  | interrupted s₁ _ _ finished =>
      obtain ⟨frames, result⟩ := finishWait_calls finished
      exact .returnIntr other owner frames result
  | again s₁ _ _ finished =>
      obtain ⟨frames, result⟩ := finishWait_calls finished
      exact .setFrame other frames result
  | woken s₁ _ _ _ finished =>
      obtain ⟨frames, result⟩ := finishWait_calls finished
      exact .returnCall other owner frames result
  | prepared wq s₁ _ _ _ prepared =>
      obtain ⟨_, rfl⟩ := tcWaitqPrepareToWait_ok prepared
      exact .setFrame other rfl rfl
  | held s₁ rv _ finished =>
      obtain ⟨frames, result⟩ := finishWait_calls finished
      exact .returnCall other owner frames result
  | acquired m _ _ _ => exact .returnCall other owner rfl rfl
  | owned m _ _ _ => exact .returnCall other owner rfl rfl
  | taken m _ _ _ => exact .setFrame other rfl rfl
  | turned pc _ => exact .setFrame other rfl rfl

end Others

theorem State.Effect.inside {s s' : State} {a : Action} (effect : s.Effect a s')
    (inv : SystemInv s) {t : Tid} {f : Frame} {rest : List Frame}
    (frames : s.frames t = f :: rest) (inside : f.inCondition = false) :
    SameCallsOf t s s' ∨ (∃ w, a = .enter w ∧ s.mode w = .enter t ∧ s' = s.enterThread w t) ∨
      ∃ w, a = .advance w ∧ s.mode w = .thread t ∧ FrameEffect s w t f s' := by
  have owner : ∀ {u : Tid} {g : Frame} {rest : List Frame}, s.frames u = g :: rest →
      g.e.owner = u := by
    intro u g rest frames
    obtain ⟨⟨n, auto⟩, _⟩ := (inv.thread u).frame g (by simp [State.view, frames])
    rw [auto, EventId.owner]
  have top : ∀ {g : Frame} {rest : List Frame}, s.frames t = g :: rest → g = f := by
    intro g rest' again
    exact (List.cons.inj (again.symm.trans frames)).1
  cases effect with
  | searched w scan _ => exact .inl (.unchanged rfl rfl)
  | queued w scan x s₁ _ _ ran =>
      obtain ⟨frames, result⟩ := runOrQueue_calls ran
      exact .inl (.unchanged frames result)
  | reaped w scan x u s₁ _ _ _ ran =>
      obtain ⟨frames, result⟩ := runOrQueue_calls ran
      exact .inl (.unchanged frames result)
  | chosen w scan x u s₁ immediateFd _ _ _ ran =>
      obtain ⟨frames, result⟩ := runOrQueue_calls ran
      exact .inl (.unchanged frames result)
  | reported w g em _ _ =>
      obtain ⟨moved, choice, handled⟩ :=
        handleReport_spec (fun f => inv.lists.lists.nodup (.fd f)) w g em
      obtain ⟨errHup, fdEpEvents, equal⟩ := handled.effect
      rw [equal]
      exact .inl (.unchanged rfl rfl)
  | reportQueued w g x s₁ _ _ ran =>
      obtain ⟨frames, result⟩ := runOrQueue_calls ran
      exact .inl (.unchanged frames result)
  | reportChosen w g x u s₁ _ _ ran =>
      obtain ⟨frames, result⟩ := runOrQueue_calls ran
      exact .inl (.unchanged frames result)
  | entered w u enter =>
      by_cases same : u = t
      · exact .inr (.inl ⟨w, rfl, same ▸ enter, same ▸ rfl⟩)
      · refine .inl ⟨?_, fun _ _ => rfl⟩
        simp [enterThread, Ne.symm same]
  | left w u _ => exact .inl (.unchanged rfl rfl)
  | freed w u _ => exact .inl (.unchanged rfl rfl)
  | aio w k _ => exact .inl (.unchanged rfl rfl)
  | user w u op _ _ user effect =>
      by_cases same : u = t
      · subst same
        simp [inUserCode, frames, inside] at user
      · exact .inl (effect.sameCalls same)
  | returned w value u g rest' k _ frames' call pc =>
      by_cases same : u = t
      · subst same
        obtain rfl := top frames'
        simp [Frame.inCondition, call, pc] at inside
      · exact .inl (.returnCall same (owner frames') rfl rfl)
  | evaluated w value u g rest' pc _ frames' condition turned =>
      by_cases same : u = t
      · subst same
        obtain rfl := top frames'
        simp [condition] at inside
      · exact .inl (.setFrame same rfl rfl)
  | advanced w u g rest' _ on frames' effect =>
      by_cases same : u = t
      · subst same
        obtain rfl := top frames'
        exact .inr (.inr ⟨w, rfl, on, effect⟩)
      · exact .inl (effect.sameCalls same (owner frames'))
  | died w u _ _ empty effect =>
      cases effect with
      | settled _ => exact .inl (.unchanged rfl rfl)
      | announced _ => exact .inl (.unchanged rfl rfl)
      | exits s₁ _ added =>
          obtain ⟨_, rfl⟩ := addEventCr_ok added
          exact .inl (.unchanged rfl rfl)

/-! ## The owner of a mutex -/

section Owner

variable {s s' : State} {w : WorkerId} {t : Tid} {m : MutexId}

theorem runOrQueue_owner {e : EventId} {chosen : Option Tid} (ran : RunOrQueue s w e chosen s') :
    s'.owner = s.owner := by
  obtain ⟨_, _, _, _, _, _, _, rfl⟩ := ran.frame
  rfl

theorem finishWait_owner {e : EventId} {rv : Bool} (finished : FinishWait s w t e rv s') :
    s'.owner = s.owner := by
  obtain ⟨_, _, _, _, _, _, _, rfl⟩ := finished.frame
  rfl

theorem tcWaitqWakeupOne_owner (s : State) (wq : Waitq) :
    (s.tcWaitqWakeupOne wq).1.owner = s.owner := by
  obtain ⟨_, _, _, frame⟩ := tcWaitqWakeupOne_frame s wq
  rw [frame]

private theorem update_owner {owner : MutexId → Option Tid} {m' : MutexId} (free : owner m' = none)
    (after : Option Tid) :
    Function.update owner m' after m = owner m ∨ owner m = none := by
  by_cases same : m = m'
  · exact .inr (same ▸ free)
  · exact .inl (Function.update_of_ne same _ _)

theorem State.UserEffect.owner {op : UserOp} (effect : UserEffect s w t op s') (m : MutexId) :
    s'.owner m = s.owner m ∨ s.owner m = none ∨ op = .unlock m ∧ s.held t m = true := by
  cases effect with
  | wakeupOne k => exact .inl (congrFun (tcWaitqWakeupOne_owner s (.user k)) m)
  | subscribe g n _ _ subscribed =>
      obtain ⟨_, rfl⟩ := tcSignalSubscribe_ok subscribed
      exact .inl rfl
  | locked m' free => exact (update_owner free _).imp_right .inl
  | unlock m' held =>
      by_cases same : m = m'
      · exact .inr (.inr ⟨same ▸ rfl, same ▸ held⟩)
      · exact .inl (Function.update_of_ne same _ _)
  | threadPost _ s₁ _ added =>
      obtain ⟨_, rfl⟩ := addEventCr_ok added
      exact .inl rfl
  | yield n s₁ _ added =>
      obtain ⟨_, rfl⟩ := addEventCr_ok added
      exact .inl rfl
  | waitFdFailed n g mask priority ctl s₁ _ refused => cases refused <;> exact .inl rfl
  | waitFd n g mask priority ctl s₁ _ added =>
      cases added
      exact .inl rfl
  | waitqWait n k s₁ _ prepared =>
      obtain ⟨_, rfl⟩ := tcWaitqPrepareToWait_ok prepared
      exact .inl rfl
  | threadWait n v d id s₁ _ prepared =>
      obtain ⟨_, rfl⟩ := tcWaitqPrepareToWait_ok prepared
      exact .inl rfl
  | _ => exact .inl rfl

theorem State.FrameEffect.owner {f : Frame} (effect : FrameEffect s w t f s') (m : MutexId) :
    s'.owner m = s.owner m ∨ s.owner m = none := by
  cases effect with
  | scheduled _ _ scheduled => cases scheduled <;> exact .inl rfl
  | interrupted s₁ _ _ finished => exact .inl (congrFun (finishWait_owner finished) m)
  | again s₁ _ _ finished => exact .inl (congrFun (finishWait_owner finished) m)
  | woken s₁ _ _ _ finished => exact .inl (congrFun (finishWait_owner finished) m)
  | prepared wq s₁ _ _ _ prepared =>
      obtain ⟨_, rfl⟩ := tcWaitqPrepareToWait_ok prepared
      exact .inl rfl
  | held s₁ rv _ finished => exact .inl (congrFun (finishWait_owner finished) m)
  | acquired m' _ _ free => exact update_owner free _
  | taken m' _ _ free => exact update_owner free _
  | _ => exact .inl rfl

end Owner

/-- A mutex gets an owner when it is free, and changes hands when its holder unlocks it. -/
theorem State.Effect.owner {s s' : State} {a : Action} (effect : s.Effect a s')
    (inv : ListInv s) (m : MutexId) :
    s'.owner m = s.owner m ∨ s.owner m = none ∨
      ∃ w t, a = .user w (.unlock m) ∧ s.mode w = .thread t ∧ s.inUserCode t = true ∧
        s.held t m = true := by
  cases effect with
  | queued w scan x s₁ _ _ ran => exact .inl (congrFun (runOrQueue_owner ran) m)
  | reaped w scan x u s₁ _ _ _ ran => exact .inl (congrFun (runOrQueue_owner ran) m)
  | chosen w scan x u s₁ immediateFd _ _ _ ran => exact .inl (congrFun (runOrQueue_owner ran) m)
  | reported w g em _ _ =>
      obtain ⟨moved, choice, handled⟩ := handleReport_spec (fun f => inv.lists.nodup (.fd f)) w g em
      obtain ⟨errHup, fdEpEvents, equal⟩ := handled.effect
      rw [equal]
      exact .inl rfl
  | reportQueued w g x s₁ _ _ ran => exact .inl (congrFun (runOrQueue_owner ran) m)
  | reportChosen w g x u s₁ _ _ ran => exact .inl (congrFun (runOrQueue_owner ran) m)
  | user w u op _ on user effect =>
      rcases effect.owner m with same | free | ⟨rfl, held⟩
      · exact .inl same
      · exact .inr (.inl free)
      · exact .inr (.inr ⟨w, u, rfl, on, user, held⟩)
  | advanced w u g rest _ _ _ effect => exact (effect.owner m).imp_right .inl
  | died w u _ _ _ effect =>
      cases effect with
      | settled _ => exact .inl rfl
      | announced _ => exact .inl rfl
      | exits s₁ _ added =>
          obtain ⟨_, rfl⟩ := addEventCr_ok added
          exact .inl rfl
  | _ => exact .inl rfl

end Libtcr
