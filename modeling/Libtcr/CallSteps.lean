import Libtcr.ArrivalProperties
import Libtcr.MutexProperties

/-! How the sleeping calls of one thread go on, step by step: what the functions that are
built from them (`tc_rw_lock`, `tc_sleep`, the aio calls) can rely on. -/

set_option autoImplicit false

namespace Libtcr

open State

def UserOp.begins : UserOp → Option Call
  | .yield _ => some .yield
  | .waitFd _ f _ _ _ => some (.fd f)
  | .waitqWait _ k => some (.waitq k)
  | .threadWait _ u _ _ => some (.thread u)
  | .waitEvent _ k | .waitEventLoop _ k => some (.cond k)
  | .lock _ m => some (.mutex m)
  | _ => none

inductive CondMove : Action → Pc → Pc → Prop where
  | notYet (w : WorkerId) : CondMove (.condition w false) .test0 .prep
  | prepared (w : WorkerId) : CondMove (.advance w) .prep .test
  | isTrue (w : WorkerId) : CondMove (.condition w true) .test .holds
  | isFalse (w : WorkerId) : CondMove (.condition w false) .test .pushed
  | slept (w : WorkerId) : CondMove (.advance w) .pushed .asleep
  | resumed (w : WorkerId) : CondMove (.advance w) .pushed .woke
  | again (w : WorkerId) : CondMove (.advance w) .woke .prep

inductive CondReturn : Action → Pc → Rv → Prop where
  | atOnce (w : WorkerId) : CondReturn (.condition w true) .test0 .ok
  | held (w : WorkerId) : CondReturn (.advance w) .holds .ok
  | interrupted (w : WorkerId) : CondReturn (.advance w) .woke .intr

/-- What a step is for the calls of thread `t`. -/
inductive CallStep (s : State) (t : Tid) : Action → State → Prop where
  | idle (a : Action) (s' : State) (calls : SameCallsOf t s s') (held : s'.held t = s.held t) :
      CallStep s t a s'
  | entered (w : WorkerId) (f : Frame) (rest : List Frame) (s' : State)
      (enter : s.mode w = .enter t) (frames : s.frames t = f :: rest)
      (after : s'.frames t = { f with pc := .woke } :: rest) (asleep : f.pc = .asleep)
      (result : s'.result = s.result) (held : s'.held = s.held) : CallStep s t (.enter w) s'
  | user (w : WorkerId) (op : UserOp) (s' : State) (on : s.mode w = .thread t)
      (code : s.inUserCode t = true) (effect : UserEffect s w t op s') :
      CallStep s t (.user w op) s'
  | moved (w : WorkerId) (f g : Frame) (rest : List Frame) (a : Action) (s' : State)
      (on : s.mode w = .thread t) (by_ : a = .advance w ∨ ∃ value, a = .condition w value)
      (frames : s.frames t = f :: rest) (after : s'.frames t = g :: rest) (event : g.e = f.e)
      (call : g.call = f.call) (cond : ∀ k, f.call = .cond k → CondMove a f.pc g.pc)
      (result : s'.result = s.result) (held : s'.held = s.held) : CallStep s t a s'
  | returned (w : WorkerId) (f : Frame) (rest : List Frame) (rv : Rv) (a : Action) (s' : State)
      (on : s.mode w = .thread t) (by_ : a = .advance w ∨ ∃ value, a = .condition w value)
      (frames : s.frames t = f :: rest) (after : s'.frames t = rest)
      (cond : ∀ k, f.call = .cond k → CondReturn a f.pc rv)
      (lock : ∀ m, f.call = .mutex m → rv = .ok ∨ rv = .intr)
      (result : s'.result = Function.update s.result f.e (some rv))
      (locked : ∀ m, f.call = .mutex m → rv = .ok → s'.held t m = true)
      (held : ∀ m, f.call ≠ .mutex m ∨ rv ≠ .ok → s'.held t m = s.held t m) :
      CallStep s t a s'

section Own

variable {s s' : State} {w : WorkerId} {t : Tid} {f : Frame} {rest : List Frame}

private theorem finishWait_held {e : EventId} {rv : Bool} (finished : FinishWait s w t e rv s') :
    s'.held = s.held := by
  obtain ⟨_, _, _, _, _, _, _, rfl⟩ := finished.frame
  rfl

theorem CallStep.setFrame {s₁ : State} {g : Frame} {a : Action} (on : s.mode w = .thread t)
    (by_ : a = .advance w ∨ ∃ value, a = .condition w value) (frames : s.frames t = f :: rest)
    (same : s₁.frames = s.frames) (event : g.e = f.e) (call : g.call = f.call)
    (cond : ∀ k, f.call = .cond k → CondMove a f.pc g.pc) (result : s₁.result = s.result)
    (held : s₁.held = s.held) : CallStep s t a (s₁.setFrame t g) :=
  .moved w f g rest a _ on by_ frames (by simp [State.setFrame, same, frames]) event call cond
    result held

theorem CallStep.returnCall {s₁ : State} {rv : Rv} {a : Action} (on : s.mode w = .thread t)
    (by_ : a = .advance w ∨ ∃ value, a = .condition w value) (frames : s.frames t = f :: rest)
    (same : s₁.frames = s.frames) (cond : ∀ k, f.call = .cond k → CondReturn a f.pc rv)
    (lock : ∀ m, f.call = .mutex m → rv = .ok ∨ rv = .intr)
    (result : s₁.result = s.result) (held : s₁.held = s.held) :
    CallStep s t a (s₁.returnCall t f rv) := by
  refine .returned w f rest rv a _ on by_ frames (by simp [State.returnCall, same, frames]) cond
    lock (by simp [State.returnCall, endEvent, result]) (fun m call ok => ?_) (fun m other => ?_)
  · simp [State.returnCall, call, ok]
  · obtain ⟨call, e, pc, saved⟩ := f
    cases call with
    | mutex m' =>
        cases rv with
        | ok =>
            have different : m ≠ m' := by
              rintro rfl
              simp at other
            simp [State.returnCall, different, held]
        | _ => simp [State.returnCall, held]
    | _ => simp [State.returnCall, held]

theorem CallStep.returnIntr {s₁ : State} {cause : Option EventId} {a : Action}
    (on : s.mode w = .thread t) (by_ : a = .advance w ∨ ∃ value, a = .condition w value)
    (frames : s.frames t = f :: rest) (same : s₁.frames = s.frames)
    (cond : ∀ k, f.call = .cond k → CondReturn a f.pc .intr) (result : s₁.result = s.result)
    (held : s₁.held = s.held) : CallStep s t a (s₁.returnIntr t f cause) := by
  refine .returned w f rest .intr a _ on by_ frames (by simp [State.returnIntr, State.returnCall,
    same, frames]) cond (by simp) (by simp [State.returnIntr, State.returnCall, endEvent, result])
    (by simp) (fun m _ => ?_)
  cases call : f.call <;> simp [State.returnIntr, State.returnCall, call, held]

private theorem waitqWoke_loop (on : s.mode w = .thread t) (frames : s.frames t = f :: rest)
    (pc : f.pc = .woke) (done : s.waitqWoke w t f true = .ok s') :
    CallStep s t (.advance w) s' := by
  unfold waitqWoke at done
  split at done
  · cases done
  · next s₁ finished =>
    cases done
    have finished := tcWaitqFinishWait_ok finished
    obtain ⟨same, result⟩ := finishWait_calls finished
    exact .returnIntr on (.inl rfl) frames same (fun _ _ => pc ▸ .interrupted w) result
      (finishWait_held finished)
  · next s₁ finished =>
    cases done
    have finished := tcWaitqFinishWait_ok finished
    obtain ⟨same, result⟩ := finishWait_calls finished
    exact .setFrame on (.inl rfl) frames same rfl rfl (fun _ _ => pc ▸ .again w) result
      (finishWait_held finished)

private theorem tcScheduler_calls (on : s.mode w = .thread t) (frames : s.frames t = f :: rest)
    (pc : f.pc = .pushed) (scheduled : TcScheduler s w t f s') :
    CallStep s t (.advance w) s' := by
  cases scheduled with
  | slept _ => exact .setFrame on (.inl rfl) frames rfl rfl rfl (fun _ _ => pc ▸ .slept w) rfl rfl
  | signalled e _ _ _ _ =>
      exact .setFrame on (.inl rfl) frames rfl rfl rfl (fun _ _ => pc ▸ .resumed w) rfl rfl
  | resumed e _ _ _ _ _ =>
      exact .setFrame on (.inl rfl) frames rfl rfl rfl (fun _ _ => pc ▸ .resumed w) rfl rfl

theorem State.FrameEffect.callStep (effect : FrameEffect s w t f s') (on : s.mode w = .thread t)
    (frames : s.frames t = f :: rest) (other : ∀ k, f.call ≠ .cond k) :
    CallStep s t (.advance w) s' := by
  have move : ∀ {pc}, ∀ k, f.call = .cond k → CondMove (.advance w) f.pc pc :=
    fun k call => absurd call (other k)
  have back : ∀ {rv}, ∀ k, f.call = .cond k → CondReturn (.advance w) f.pc rv :=
    fun k call => absurd call (other k)
  cases effect with
  | pushed _ => exact .setFrame on (.inl rfl) frames rfl rfl rfl move rfl rfl
  | scheduled _ pc scheduled => exact tcScheduler_calls on frames pc scheduled
  | yieldIntr _ _ _ _ _ => exact .returnIntr on (.inl rfl) frames rfl back rfl rfl
  | yieldDone _ _ _ => exact .returnCall on (.inl rfl) frames rfl back (by simp) rfl rfl
  | fdIntr fd _ _ _ _ _ => exact .returnIntr on (.inl rfl) frames rfl back rfl rfl
  | fdDone fd rv _ call _ _ =>
      exact .returnCall on (.inl rfl) frames rfl back (by simp [call]) rfl rfl
  | interrupted s₁ _ _ finished =>
      obtain ⟨same, result⟩ := finishWait_calls finished
      exact .returnIntr on (.inl rfl) frames same back result (finishWait_held finished)
  | again s₁ _ _ finished =>
      obtain ⟨same, result⟩ := finishWait_calls finished
      exact .setFrame on (.inl rfl) frames same rfl rfl move result (finishWait_held finished)
  | woken s₁ _ _ _ finished =>
      obtain ⟨same, result⟩ := finishWait_calls finished
      exact .returnCall on (.inl rfl) frames same back (by simp) result (finishWait_held finished)
  | prepared wq s₁ _ _ _ prepared =>
      obtain ⟨_, rfl⟩ := tcWaitqPrepareToWait_ok prepared
      exact .setFrame on (.inl rfl) frames rfl rfl rfl move rfl rfl
  | held s₁ rv _ finished =>
      obtain ⟨same, result⟩ := finishWait_calls finished
      exact .returnCall on (.inl rfl) frames same back (by simp) result (finishWait_held finished)
  | acquired m _ _ _ => exact .returnCall on (.inl rfl) frames rfl back (by simp) rfl rfl
  | owned m _ _ _ => exact .returnCall on (.inl rfl) frames rfl back (by simp) rfl rfl
  | taken m _ _ _ => exact .setFrame on (.inl rfl) frames rfl rfl rfl move rfl rfl
  | turned pc _ => exact .setFrame on (.inl rfl) frames rfl rfl rfl move rfl rfl

private theorem advanceFrame_callStep (inv : SystemInv s) (on : s.mode w = .thread t)
    (frames : s.frames t = f :: rest) (done : s.advanceFrame w t f = some (.ok s')) : CallStep s t (.advance w) s' := by
  by_cases cond : ∃ k, f.call = .cond k
  · obtain ⟨k, call⟩ := cond
    have admits := (inv.control t).admits f rest (by simpa [State.view] using frames)
    obtain ⟨call', e, pc, saved⟩ := f
    dsimp only at call
    subst call
    cases pc with
    | pushed => exact tcScheduler_calls on frames rfl (tcScheduler_ok (Option.some.inj done))
    | woke => exact waitqWoke_loop on frames rfl (Option.some.inj done)
    | prep =>
        simp only [advanceFrame, prepareFrame] at done
        split at done
        · cases done
        · next s₁ prepared =>
          obtain ⟨_, rfl⟩ := tcWaitqPrepareToWait_ok prepared
          cases done
          exact .setFrame on (.inl rfl) frames rfl rfl rfl (fun _ _ => .prepared w) rfl rfl
    | holds =>
        simp only [advanceFrame] at done
        split at done
        · cases done
        · next rv s₁ finished =>
          cases done
          have finished := tcWaitqFinishWait_ok finished
          obtain ⟨same, result⟩ := finishWait_calls finished
          exact .returnCall on (.inl rfl) frames same (fun _ _ => .held w) (by simp) result
            (finishWait_held finished)
    | queued => cases admits
    | _ => cases done
  · exact (advanceFrame_ok done).callStep on frames fun k call => cond ⟨k, call⟩

private theorem conditionFrame_callStep {value : Bool} (on : s.mode w = .thread t)
    (frames : s.frames t = f :: rest) (done : s.conditionFrame t f value = some (.ok s')) :
    CallStep s t (.condition w value) s' := by
  obtain ⟨call, e, pc, saved⟩ := f
  cases call with
  | cond k =>
      cases pc with
      | test0 =>
          cases value with
          | true =>
              cases done
              exact .returnCall on (.inr ⟨true, rfl⟩) frames rfl (fun _ _ => .atOnce w) (by simp) rfl
                rfl
          | false =>
              cases done
              exact .setFrame on (.inr ⟨false, rfl⟩) frames rfl rfl rfl (fun _ _ => .notYet w) rfl rfl
      | test =>
          cases value with
          | true =>
              cases done
              exact .setFrame on (.inr ⟨true, rfl⟩) frames rfl rfl rfl (fun _ _ => .isTrue w) rfl rfl
          | false =>
              cases done
              exact .setFrame on (.inr ⟨false, rfl⟩) frames rfl rfl rfl (fun _ _ => .isFalse w) rfl
                rfl
      | _ => cases done
  | _ => cases pc <;> cases done

end Own

/-! ## The mutexes of the other threads -/

section Held

variable {s s' : State} {w : WorkerId} {t u : Tid}

private theorem runOrQueue_held {e : EventId} {chosen : Option Tid}
    (ran : RunOrQueue s w e chosen s') : s'.held = s.held := by
  obtain ⟨_, _, _, _, _, _, _, rfl⟩ := ran.frame
  rfl

theorem tcWaitqWakeupOne_held (s : State) (wq : Waitq) :
    (s.tcWaitqWakeupOne wq).1.held = s.held := by
  obtain ⟨_, _, _, frame⟩ := tcWaitqWakeupOne_frame s wq
  rw [frame]

theorem State.UserEffect.held {op : UserOp} (effect : UserEffect s w u op s') (m : MutexId) :
    s'.held t m = s.held t m ∨ u = t ∧ (op = .trylock m ∨ op = .unlock m) := by
  have update : ∀ (m' : MutexId) (value : Bool),
      Function.update s.held u (Function.update (s.held u) m' value) t m = s.held t m ∨
        u = t ∧ m' = m := by
    intro m' value
    by_cases thread : t = u
    · by_cases mutex : m = m'
      · exact .inr ⟨thread.symm, mutex.symm⟩
      · exact .inl (by simp [thread, mutex])
    · exact .inl (by simp [thread])
  cases effect with
  | wakeupOne q => exact .inl (by rw [tcWaitqWakeupOne_held])
  | subscribe g n _ _ subscribed =>
      obtain ⟨_, rfl⟩ := tcSignalSubscribe_ok subscribed
      exact .inl rfl
  | locked m' _ =>
      rcases update m' true with same | ⟨thread, rfl⟩
      · exact .inl same
      · exact .inr ⟨thread, .inl rfl⟩
  | unlock m' _ =>
      rcases update m' false with same | ⟨thread, rfl⟩
      · exact .inl same
      · exact .inr ⟨thread, .inr rfl⟩
  | threadPost v s₁ _ added =>
      obtain ⟨_, rfl⟩ := addEventCr_ok added
      exact .inl rfl
  | yield n s₁ _ added =>
      obtain ⟨_, rfl⟩ := addEventCr_ok added
      exact .inl rfl
  | waitFdFailed n g mask priority ctl s₁ _ refused => cases refused <;> exact .inl rfl
  | waitFd n g mask priority ctl s₁ _ added =>
      cases added
      exact .inl rfl
  | waitqWait n q s₁ _ prepared =>
      obtain ⟨_, rfl⟩ := tcWaitqPrepareToWait_ok prepared
      exact .inl rfl
  | threadWait n v d id s₁ _ prepared =>
      obtain ⟨_, rfl⟩ := tcWaitqPrepareToWait_ok prepared
      exact .inl rfl
  | _ => exact .inl rfl

private theorem returnCall_held_other {s₁ : State} {f : Frame} {rv : Rv} (other : u ≠ t)
    (held : s₁.held = s.held) : (s₁.returnCall u f rv).held t = s.held t := by
  obtain ⟨call, e, pc, saved⟩ := f
  cases call <;> cases rv <;> simp [State.returnCall, Ne.symm other, held]

private theorem State.FrameEffect.held_other {f : Frame} (effect : FrameEffect s w u f s')
    (other : u ≠ t) : s'.held t = s.held t := by
  cases effect with
  | scheduled _ _ scheduled => cases scheduled <;> rfl
  | yieldIntr _ _ _ _ _ => exact (returnCall_held_other other rfl :)
  | yieldDone _ _ _ => exact returnCall_held_other other rfl
  | fdIntr fd _ _ _ _ _ => exact (returnCall_held_other other rfl :)
  | fdDone fd rv _ _ _ _ => exact returnCall_held_other other rfl
  | interrupted s₁ _ _ finished => exact (returnCall_held_other other (finishWait_held finished) :)
  | again s₁ _ _ finished => exact congrFun (finishWait_held finished) t
  | woken s₁ _ _ _ finished => exact returnCall_held_other other (finishWait_held finished)
  | prepared wq s₁ _ _ _ prepared =>
      obtain ⟨_, rfl⟩ := tcWaitqPrepareToWait_ok prepared
      rfl
  | held s₁ rv _ finished => exact returnCall_held_other other (finishWait_held finished)
  | acquired m _ _ _ => exact returnCall_held_other other rfl
  | owned m _ _ _ => exact returnCall_held_other other rfl
  | _ => rfl

end Held

theorem State.act_callStep {s s' : State} {a : Action} (inv : SystemInv s)
    (done : s.act a = some (.ok s')) (t : Tid) : CallStep s t a s' := by
  have owner : ∀ {u : Tid} {g : Frame} {rest : List Frame}, s.frames u = g :: rest →
      g.e.owner = u :=
    fun frames => (inv.thread _).event_owner (by simp [State.view, frames])
  cases act_ok done with
  | queued w scan x s₁ _ _ ran =>
      obtain ⟨frames, result⟩ := runOrQueue_calls ran
      exact .idle _ _ (.unchanged frames result) (congrFun (runOrQueue_held ran) t)
  | reaped w scan x u s₁ _ _ _ ran =>
      obtain ⟨frames, result⟩ := runOrQueue_calls ran
      exact .idle _ _ (.unchanged frames result) (congrFun (runOrQueue_held ran) t)
  | chosen w scan x u s₁ immediateFd _ _ _ ran =>
      obtain ⟨frames, result⟩ := runOrQueue_calls ran
      exact .idle _ _ (.unchanged frames result) (congrFun (runOrQueue_held ran) t)
  | reported w g em _ _ =>
      obtain ⟨moved, choice, handled⟩ :=
        handleReport_spec (fun f => inv.lists.lists.nodup (.fd f)) w g em
      obtain ⟨errHup, fdEpEvents, equal⟩ := handled.effect
      rw [equal]
      exact .idle _ _ (.unchanged rfl rfl) rfl
  | reportQueued w g x s₁ _ _ ran =>
      obtain ⟨frames, result⟩ := runOrQueue_calls ran
      exact .idle _ _ (.unchanged frames result) (congrFun (runOrQueue_held ran) t)
  | reportChosen w g x u s₁ _ _ ran =>
      obtain ⟨frames, result⟩ := runOrQueue_calls ran
      exact .idle _ _ (.unchanged frames result) (congrFun (runOrQueue_held ran) t)
  | entered w u enter =>
      by_cases same : u = t
      · subst same
        cases frames : s.frames u with
        | nil => exact .idle _ _ ⟨by simp [enterThread, frames], fun _ _ => rfl⟩ rfl
        | cons f rest =>
            have asleep : f.pc = .asleep := by
              rcases (inv.thread u).entering w _ (by simp [State.view, placeOf, enter]; rfl) with
                ⟨_, empty⟩ | ⟨_, g, rest', again, asleep⟩
              · simp [State.view, frames] at empty
              · obtain ⟨rfl, _⟩ : f = g ∧ rest = rest' := by simpa [State.view, frames] using again
                exact asleep
            exact .entered w f rest _ enter frames (by simp [enterThread, frames]) asleep rfl rfl
      · exact .idle _ _ ⟨by simp [enterThread, Ne.symm same], fun _ _ => rfl⟩ rfl
  | user w u op _ on code effect =>
      by_cases same : u = t
      · exact .user w op s' (same ▸ on) (same ▸ code) (same ▸ effect)
      · refine .idle _ _ (effect.sameCalls same) (funext fun m => ?_)
        rcases effect.held (t := t) m with held | ⟨equal, _⟩
        · exact held
        · exact absurd equal same
  | returned w value u g rest k on frames call pc =>
      by_cases same : u = t
      · subst same
        simp only [act, on, frames] at done
        exact conditionFrame_callStep on frames done
      · exact .idle _ _ (.returnCall same (owner frames) rfl rfl) (returnCall_held_other same rfl)
  | evaluated w value u g rest pc on frames condition turned =>
      by_cases same : u = t
      · subst same
        simp only [act, on, frames] at done
        exact conditionFrame_callStep on frames done
      · exact .idle _ _ (.setFrame same rfl rfl) rfl
  | advanced w u g rest _ on frames effect =>
      by_cases same : u = t
      · subst same
        simp only [act, on, frames] at done
        exact advanceFrame_callStep inv on frames done
      · exact .idle _ _ (effect.sameCalls same (owner frames)) (effect.held_other same)
  | died w u _ _ empty effect =>
      cases effect with
      | settled _ => exact .idle _ _ (.unchanged rfl rfl) rfl
      | announced _ => exact .idle _ _ (.unchanged rfl rfl) rfl
      | exits s₁ _ added =>
          obtain ⟨_, rfl⟩ := addEventCr_ok added
          exact .idle _ _ (.unchanged rfl rfl) rfl
  | _ => exact .idle _ _ (.unchanged rfl rfl) rfl

/-! ## What a call of the library begins -/

theorem State.UserEffect.frames {s s' : State} {w : WorkerId} {t : Tid} {op : UserOp}
    (effect : UserEffect s w t op s') : s'.frames t = s.frames t ∨
      ∃ call n pc, op.begins = some call ∧
        s'.frames t = ⟨call, .auto t n, pc, s.eventStack t⟩ :: s.frames t := by
  cases effect with
  | wakeupOne q => exact .inl (congrFun (tcWaitqWakeupOne_calls s (.user q)).1 t)
  | subscribe g n _ _ subscribed =>
      obtain ⟨_, rfl⟩ := tcSignalSubscribe_ok subscribed
      exact .inl rfl
  | unlock m _ => exact .inl (congrFun (tcWaitqWakeupOne_calls s (.mutex m)).1 t)
  | threadPost u s₁ _ added =>
      obtain ⟨_, rfl⟩ := addEventCr_ok added
      exact .inl rfl
  | yield n s₁ _ added =>
      obtain ⟨_, rfl⟩ := addEventCr_ok added
      exact .inr ⟨_, n, .queued, rfl, by simp [pushFrame, attachEvent, tcEventInit]⟩
  | waitFdFailed n g mask priority ctl s₁ _ refused => cases refused <;> exact .inl rfl
  | waitFd n g mask priority ctl s₁ _ added =>
      cases added
      exact .inr ⟨_, n, .queued, rfl, by simp [pushFrame, attachEvent, tcEventInit]⟩
  | waitqWait n q s₁ _ prepared =>
      obtain ⟨_, rfl⟩ := tcWaitqPrepareToWait_ok prepared
      exact .inr ⟨_, n, .pushed, rfl,
        by simp [pushFrame, attachEvent, tcEventInit, tcEventOnTcStack]⟩
  | threadWait n u d id s₁ _ prepared =>
      obtain ⟨_, rfl⟩ := tcWaitqPrepareToWait_ok prepared
      exact .inr ⟨_, n, .pushed, rfl,
        by simp [pushFrame, attachEvent, tcEventInit, tcEventOnTcStack]⟩
  | waitEvent n q _ => exact .inr ⟨_, n, .test0, rfl, by simp [pushFrame, tcEventInit]⟩
  | waitEventLoop n q _ => exact .inr ⟨_, n, .prep, rfl, by simp [pushFrame, tcEventInit]⟩
  | lock n m _ _ => exact .inr ⟨_, n, .cas0, rfl, by simp [pushFrame, tcEventInit]⟩
  | _ => exact .inl rfl

theorem SystemInv.frame_of_resting {s : State} (inv : SystemInv s) {e : EventId} {k : EventList}
    (on : s.el e = some k) (rests : k.resting = true) :
    ∃ f ∈ s.frames e.owner, f.e = e ∧ f.call.home = k := by
  have thread := inv.thread e.owner
  have here : (s.view e.owner).el e = some k := by simpa [State.view, State.el] using on
  have placed : (s.view e.owner).el e ≠ none := by simp [here]
  have event : (s.view e.owner).flags e ≠ .signal := by
    intro signal
    obtain ⟨n, sub⟩ := thread.sub_of_signal rfl signal
    have at_ := thread.subs n (by rw [← sub]; exact thread.live e placed)
    rw [← sub, here] at at_
    rcases at_ with same | same | same <;>
      · obtain rfl := Option.some.inj same
        cases rests
  rcases thread.frame_of_event placed event with ⟨f, member, rfl⟩ | self
  · refine ⟨f, member, rfl, ?_⟩
    have at_ := (thread.located f member).placed placed
    rw [Placed, here] at at_
    rcases at_ with same | same | same
    · exact (Option.some.inj same).symm
    · obtain rfl := Option.some.inj same
      cases rests
    · obtain rfl := Option.some.inj same
      cases rests
  · obtain ⟨rfl, _⟩ := thread.selfEvent k (self ▸ here)
    cases rests

theorem SystemInv.result_none {s : State} (inv : SystemInv s) {t : Tid} {f : Frame}
    (member : f ∈ s.frames t) : s.result f.e = none := by
  obtain ⟨⟨n, auto⟩, live⟩ := (inv.thread t).frame f (by simpa [State.view] using member)
  have none := inv.results t n (by simp [← auto, live])
  simpa [State.view, auto] using none

theorem SystemInv.result_stays {s s' : State} {a : Action} {e : EventId} {t : Tid} {n : Nat} {rv : Rv}
    (inv : SystemInv s) (stepped : s.step a = some s') (auto : e = .auto t n) (result : s.result e = some rv) :
    s'.result e = some rv := by
  rw [auto] at result ⊢
  have stays := (inv.returned (.next .refl trivial stepped) (inv.ended result)).2
  exact stays.trans result

/-! ## What a thread does not do -/

section Avoids

variable {s s' : State} {a : Action} {w : WorkerId} {t u : Tid} {m : MutexId}

/-- A thread that begins only calls of some kind is only in calls of that kind. -/
theorem CallStep.calls_all (step : CallStep s t a s') (kind : Call → Prop)
    (all : ∀ f ∈ s.frames t, kind f.call)
    (begins : ∀ w op call, a = .user w op → s.mode w = .thread t → op.begins = some call → kind call) :
    ∀ f ∈ s'.frames t, kind f.call := by
  cases step with
  | idle _ _ calls _ =>
      rw [calls.1]
      exact all
  | entered w f rest _ _ frames after _ _ _ =>
      rw [frames] at all
      rw [after]
      simpa using all
  | user w op _ on _ effect =>
      rcases effect.frames with same | ⟨call, n, pc, begun, frames⟩
      · rwa [same]
      · rw [frames]
        exact List.forall_mem_cons.mpr ⟨begins w op call rfl on begun, all⟩
  | moved w f g rest _ _ _ _ frames after _ call _ _ _ =>
      rw [frames] at all
      rw [after]
      simpa [call] using all
  | returned w f rest rv _ _ _ _ frames after _ _ _ _ _ =>
      rw [frames] at all
      rw [after]
      exact (List.forall_mem_cons.mp all).2

/-- A thread that is not in `tc_mutex_lock` gets and loses a mutex by `tc_mutex_trylock` and
`tc_mutex_unlock` only. -/
theorem CallStep.held_same (step : CallStep s t a s') (noLock : ∀ f ∈ s.frames t, f.call ≠ .mutex m)
    (other : ∀ w, s.mode w = .thread t → a ≠ .user w (.trylock m) ∧ a ≠ .user w (.unlock m)) :
    s'.held t m = s.held t m := by
  cases step with
  | idle _ _ _ held => exact congrFun held m
  | entered w f rest _ _ _ _ _ _ held => rw [held]
  | user w op _ on _ effect =>
      rcases effect.held (t := t) m with same | ⟨_, rfl | rfl⟩
      · exact same
      · exact absurd rfl (other w on).1
      · exact absurd rfl (other w on).2
  | moved w f g rest _ _ _ _ _ _ _ _ _ _ held => rw [held]
  | returned w f rest rv _ _ _ _ frames _ _ _ _ _ held =>
      exact held m (.inl (noLock f (by simp [frames])))

theorem CallStep.idle_other (step : CallStep s u a s') (on : s.mode w = .thread t) (other : u ≠ t)
    (by_ : (∃ op, a = .user w op) ∨ ∃ value, a = .condition w value) :
    SameCallsOf u s s' ∧ s'.held u = s.held u := by
  have apart : ∀ {w'}, s.mode w' = .thread u → w' ≠ w := by
    rintro w' on' rfl
    exact other (Mode.thread.inj (on'.symm.trans on))
  cases step with
  | idle _ _ calls held => exact ⟨calls, held⟩
  | entered w' f rest _ _ _ _ _ _ _ => rcases by_ with ⟨_, equal⟩ | ⟨_, equal⟩ <;> cases equal
  | user w' op _ on' _ _ =>
      rcases by_ with ⟨_, equal⟩ | ⟨_, equal⟩ <;> cases equal
      exact absurd rfl (apart on')
  | moved w' f g rest _ _ on' by' _ _ _ _ _ _ _ =>
      rcases by' with rfl | ⟨_, rfl⟩ <;> rcases by_ with ⟨_, equal⟩ | ⟨_, equal⟩ <;> cases equal
      exact absurd rfl (apart on')
  | returned w' f rest rv _ _ on' by' _ _ _ _ _ _ _ =>
      rcases by' with rfl | ⟨_, rfl⟩ <;> rcases by_ with ⟨_, equal⟩ | ⟨_, equal⟩ <;> cases equal
      exact absurd rfl (apart on')

end Avoids

end Libtcr
