import Libtcr.StepProperties

/-! Which steps put an event on a list on which it rests until it is woken. -/

set_option autoImplicit false

namespace Libtcr

open State

/-! ## A step with its action -/

theorem State.step_act {s s' : State} {a : Action} (stepped : s.step a = some s') :
    s.act a = some (.ok s') ∨
      ∃ fault, s.act a = some (.error fault) ∧ s' = { s with fault := some fault } := by
  unfold State.step at stepped
  split at stepped
  · split at stepped
    · cases stepped
    · next done =>
      cases stepped
      exact .inl done
    · next fault failed =>
      cases stepped
      exact .inr ⟨fault, failed, rfl⟩
  · cases stepped

theorem State.step_of_act {s s' : State} {a : Action} (running : s.fault = none) (done : s.act a = some (.ok s')) :
    s.step a = some s' := by
  rw [State.step, if_pos running, done]

section Call

variable {σ : Type} {s : State} {a : Action} {after ended : State → σ} {x : σ}

theorem State.call_cases (called : s.call a after ended = some x) :
    (∃ sys, s.act a = some (.ok sys) ∧ x = after sys) ∨
      ∃ fault, s.act a = some (.error fault) ∧ x = ended { s with fault := some fault } := by
  unfold State.call at called
  split at called
  · cases called
  · next sys done =>
    cases called
    exact .inl ⟨sys, done, rfl⟩
  · next fault failed =>
    cases called
    exact .inr ⟨fault, failed, rfl⟩

theorem State.call_step (called : s.call a after ended = some x) (running : s.fault = none) :
    (∃ sys, s.act a = some (.ok sys) ∧ s.step a = some sys ∧ x = after sys) ∨
      ∃ fault, s.step a = some { s with fault := some fault } ∧
        x = ended { s with fault := some fault } := by
  obtain ⟨sys, done, moved⟩ | ⟨fault, failed, moved⟩ := State.call_cases called
  · exact .inl ⟨sys, done, step_of_act running done, moved⟩
  · exact .inr ⟨fault, by rw [State.step, if_pos running, failed], moved⟩

end Call

/-! ## Arrivals -/

/-- The lists on which the sleeping calls queue their events, `common.immediate` apart. -/
def EventList.resting : EventList → Bool
  | .fd _ | .waiters (.user _) | .waiters (.exit _) | .waiters (.mutex _) => true
  | .immediate | .pending _ | .waiters (.signal _) => false

inductive Arrives (s : State) (e : EventId) (k : EventList) : Action → Prop where
  | waitFd (w : WorkerId) (t : Tid) (n : Nat) (f : FdId) (mask : Mask) (priority ctl : Bool)
      (on : s.mode w = .thread t) (event : e = .auto t n) (list : k = .fd f) :
      Arrives s e k (.user w (.waitFd n f mask priority ctl))
  | waitqWait (w : WorkerId) (t : Tid) (n q : Nat) (on : s.mode w = .thread t)
      (event : e = .auto t n) (list : k = .waiters (.user q)) :
      Arrives s e k (.user w (.waitqWait n q))
  | threadWait (w : WorkerId) (t : Tid) (n : Nat) (u : Tid) (d : DomainId) (id : BitVec 32)
      (on : s.mode w = .thread t) (event : e = .auto t n) (list : k = .waiters (.exit u)) :
      Arrives s e k (.user w (.threadWait n u d id))
  | prepared (w : WorkerId) (t : Tid) (f : Frame) (rest : List Frame) (on : s.mode w = .thread t)
      (frames : s.frames t = f :: rest) (pc : f.pc = .prep) (queue : f.call.isLeaf = false)
      (event : e = f.e) (list : k = f.call.home) : Arrives s e k (.advance w)

section Came

variable {s s' : State} {e x : EventId} {k : EventList}

private theorem ne_of_resting {other : EventList} (rests : k.resting = true)
    (active : other.resting = false) : some other ≠ some k := by
  rintro same
  obtain rfl := Option.some.inj same
  simp [rests] at active

theorem came_same (after : s'.el e = some k) (lists : s'.lists = s.lists) : s.el e = some k := by
  rwa [State.el, lists] at after

theorem came_update {l : Option EventList} (after : s'.el e = some k)
    (el : s'.lists.el = Function.update s.lists.el x l) (other : l ≠ some k) :
    s.el e = some k := by
  rw [State.el, el] at after
  by_cases same : e = x
  · subst same
    exact absurd (by simpa using after) other
  · simpa [same, State.el] using after

private theorem came_woken (moved : List EventId) (after : s'.el e = some k)
    (el : ∀ e, s'.lists.el e = if e ∈ moved then some .immediate else s.lists.el e)
    (rests : k.resting = true) : s.el e = some k := by
  rw [State.el, el] at after
  split at after
  · obtain rfl := Option.some.inj after
    cases rests
  · exact after

theorem came_wakeupAll {q : Waitq} (after : s'.el e = some k)
    (lists : s'.lists = (s.tcWaitqWakeupAll q).lists) (rests : k.resting = true) :
    s.el e = some k := by
  refine came_woken (s.events (.waiters q)) after (fun e => ?_) rests
  rw [lists, tcWaitqWakeupAll_lists]
  exact (IntrusiveLists.movesTo_front EventList.immediate).foldl_el s.lists _ e

theorem came_wakeupOne {q : Waitq} (after : s'.el e = some k)
    (lists : s'.lists = (s.tcWaitqWakeupOne q).1.lists) (rests : k.resting = true) :
    s.el e = some k := by
  cases queue : s.events (.waiters q) with
  | nil => exact came_same after (by rw [lists, tcWaitqWakeupOne_nil queue])
  | cons y es =>
      refine came_update (x := y) (l := some .immediate) after ?_ (ne_of_resting rests rfl)
      rw [lists, tcWaitqWakeupOne_cons queue]
      simp [iwiImmediate]

private theorem came_runOrQueue {w : WorkerId} {tcfd : Option FdId} {chosen : Option Tid}
    (after : s'.el e = some k) (ran : RunOrQueue (s.served w tcfd) w x chosen s')
    (rests : k.resting = true) : s.el e = some k := by
  cases ran with
  | exits _ _ => exact came_update after rfl (by simp)
  | queued k' _ _ _ _ _ =>
      exact came_update (x := x) (l := some (.pending (s.tc x))) after
        (by simp [relocateEvent, served]) (ne_of_resting rests rfl)
  | signalled k' _ _ _ _ =>
      exact came_update (x := x) (l := some (.waiters (.signal (s.signal x)))) after
        (by simp [relocateEvent, served]) (ne_of_resting rests rfl)
  | selected k' _ _ _ _ _ => exact came_update after rfl (by simp)

private theorem came_finishWait {w : WorkerId} {t : Tid} {rv : Bool} {s₁ : State}
    (after : s'.el e = some k) (finished : FinishWait s w t x rv s₁) (lists : s'.lists = s₁.lists)
    (rests : k.resting = true) : s.el e = some k := by
  cases finished with
  | expected _ _ => exact came_update after (by rw [lists]; rfl) (by simp)
  | requeued y _ _ _ _ =>
      have removed : (s.removeEventHoldingLocks x).el e = some k := by
        refine came_update (x := y) (l := some (.pending t)) after ?_ (ne_of_resting rests rfl)
        rw [lists]
        simp [attachEvent]
      exact came_update removed rfl (by simp)
  | interrupted y _ _ _ _ => exact came_update after (by rw [lists]; rfl) (by simp)

end Came

section Effects

variable {s s' : State} {w : WorkerId} {t : Tid} {e : EventId} {k : EventList}

theorem State.UserEffect.arrives {op : UserOp} (effect : UserEffect s w t op s')
    (on : s.mode w = .thread t) (after : s'.el e = some k) (rests : k.resting = true) :
    s.el e = some k ∨ Arrives s e k (.user w op) := by
  have fresh : ∀ (n : Nat) (home : EventList),
      s'.lists.el = Function.update s.lists.el (.auto t n) (some home) →
      s.el e = some k ∨ e = .auto t n ∧ k = home := by
    intro n home el
    by_cases list : k = home
    · by_cases event : e = .auto t n
      · exact .inr ⟨event, list⟩
      · rw [State.el, el, Function.update_of_ne event] at after
        exact .inl after
    · refine .inl (came_update after el ?_)
      rintro same
      exact list (Option.some.inj same).symm
  cases effect with
  | wakeupAll q => exact .inl (came_wakeupAll (q := .user q) after rfl rests)
  | wakeupOne q => exact .inl (came_wakeupOne (q := .user q) after rfl rests)
  | fire g => exact .inl (came_wakeupAll (q := .signal g) after rfl rests)
  | subscribe g n _ _ subscribed =>
      obtain ⟨_, rfl⟩ := tcSignalSubscribe_ok subscribed
      exact .inl (came_update after rfl (ne_of_resting rests rfl))
  | unsubscribe u n _ => exact .inl (came_update after rfl (by simp))
  | unlock m _ => exact .inl (came_wakeupOne (q := .mutex m) after rfl rests)
  | threadPost u s₁ _ added =>
      obtain ⟨_, rfl⟩ := addEventCr_ok added
      exact .inl (came_update after rfl (ne_of_resting rests rfl))
  | yield n s₁ _ added =>
      obtain ⟨_, rfl⟩ := addEventCr_ok added
      exact .inl (came_update after rfl (ne_of_resting rests rfl))
  | waitFdFailed n g mask priority ctl s₁ _ refused =>
      cases refused with
      | errHup => exact .inl (came_same after rfl)
      | failed _ _ =>
          refine .inl (came_update (x := .auto t n) (l := none) after ?_ (by simp))
          simp [endEvent, detachEvent, unlinkEvent, attachEvent, tcEventInit]
  | waitFd n g mask priority ctl s₁ _ added =>
      cases added with
      | armed _ _ =>
          rcases fresh n (.fd g) rfl with before | ⟨event, list⟩
          · exact .inl before
          · exact .inr (.waitFd w t n g mask priority ctl on event list)
  | waitqWait n q s₁ _ prepared =>
      obtain ⟨_, rfl⟩ := tcWaitqPrepareToWait_ok prepared
      rcases fresh n (.waiters (.user q)) rfl with before | ⟨event, list⟩
      · exact .inl before
      · exact .inr (.waitqWait w t n q on event list)
  | threadWait n u d id s₁ _ prepared =>
      obtain ⟨_, rfl⟩ := tcWaitqPrepareToWait_ok prepared
      rcases fresh n (.waiters (.exit u)) rfl with before | ⟨event, list⟩
      · exact .inl before
      · exact .inr (.threadWait w t n u d id on event list)
  | _ => exact .inl (came_same after rfl)

theorem State.FrameEffect.arrives {f : Frame} {rest : List Frame} (effect : FrameEffect s w t f s')
    (on : s.mode w = .thread t) (frames : s.frames t = f :: rest) (after : s'.el e = some k)
    (rests : k.resting = true) : s.el e = some k ∨ Arrives s e k (.advance w) := by
  cases effect with
  | scheduled _ _ scheduled =>
      cases scheduled with
      | slept _ => exact .inl (came_same after rfl)
      | signalled x _ _ _ _ =>
          refine .inl (came_update (x := x) (l := some (.waiters (.signal (s.signal x)))) after
            ?_ (ne_of_resting rests rfl))
          simp [setFrame, relocateEvent]
      | resumed x _ _ _ _ _ => exact .inl (came_update after rfl (by simp))
  | yieldIntr _ _ _ _ _ => exact .inl (came_update after rfl (by simp))
  | fdIntr _ _ _ _ _ _ => exact .inl (came_update after rfl (by simp))
  | interrupted s₁ _ _ finished => exact .inl (came_finishWait after finished rfl rests)
  | again s₁ _ _ finished => exact .inl (came_finishWait after finished rfl rests)
  | woken s₁ _ _ _ finished => exact .inl (came_finishWait after finished rfl rests)
  | prepared wq s₁ pc queue home prepared =>
      obtain ⟨_, rfl⟩ := tcWaitqPrepareToWait_ok prepared
      have el : (({ s.attachEvent f.e (.waiters wq) t with
          flags := Function.update s.flags f.e .ready
          epEvents := Function.update s.epEvents f.e 0
          wokenByEvent := Function.update s.wokenByEvent w none }.tcEventOnTcStack f.e t).setFrame t
            { f with pc := f.call.afterPrepare, saved := s.eventStack t }).lists.el =
          Function.update s.lists.el f.e (some (.waiters wq)) := rfl
      by_cases event : e = f.e
      · rw [State.el, el, event, Function.update_self] at after
        exact .inr (.prepared w t f rest on frames pc queue event
          ((Option.some.inj after).symm.trans home.symm))
      · rw [State.el, el, Function.update_of_ne event] at after
        exact .inl after
  | held s₁ rv _ finished => exact .inl (came_finishWait after finished rfl rests)
  | _ => exact .inl (came_same after rfl)

/-- An event on a list on which it rests was there before, or the call it was made for has
just queued it. -/
theorem State.Effect.arrives {a : Action} (effect : s.Effect a s') (inv : ListInv s)
    (after : s'.el e = some k) (rests : k.resting = true) :
    s.el e = some k ∨ Arrives s e k a := by
  cases effect with
  | queued w scan x s₁ _ _ ran => exact .inl (came_runOrQueue after ran rests)
  | reaped w scan x u s₁ _ _ _ ran => exact .inl (came_runOrQueue (show s₁.el e = some k from after) ran rests)
  | chosen w scan x u s₁ immediateFd _ _ _ ran =>
      exact .inl (came_runOrQueue (show s₁.el e = some k from after) ran rests)
  | reported w g em _ _ =>
      obtain ⟨moved, choice, handled⟩ := handleReport_spec (fun f => inv.lists.nodup (.fd f)) w g em
      obtain ⟨errHup, fdEpEvents, equal⟩ := handled.effect
      refine .inl (came_woken moved after (fun e => ?_) rests)
      rw [equal]
      exact (IntrusiveLists.movesTo_back EventList.immediate).foldl_el s.lists moved e
  | reportQueued w g x s₁ _ _ ran => exact .inl (came_runOrQueue (show s₁.el e = some k from after) ran rests)
  | reportChosen w g x u s₁ _ _ ran => exact .inl (came_runOrQueue (show s₁.el e = some k from after) ran rests)
  | aio w q _ => exact .inl (came_wakeupAll (q := .user q) after rfl rests)
  | user w u op _ on _ effect => exact effect.arrives on after rests
  | advanced w u f rest _ on frames effect => exact effect.arrives on frames after rests
  | died w u _ _ _ effect =>
      cases effect with
      | settled _ => exact .inl (came_same after rfl)
      | announced _ => exact .inl (came_wakeupAll (q := .exit u) after rfl rests)
      | exits s₁ _ added =>
          obtain ⟨_, rfl⟩ := addEventCr_ok added
          exact .inl (came_update after rfl (ne_of_resting rests rfl))
  | _ => exact .inl (came_same after rfl)

end Effects

end Libtcr
