import Libtcr.Waitq
import Libtcr.SchedulerProperties

/-! The outcomes of the functions on wait queues. -/

set_option autoImplicit false

namespace Libtcr.State

inductive FinishWait (s : State) (w : WorkerId) (t : Tid) (e : EventId) : Bool → State → Prop where
  | expected (top : s.eventStack t = some e)
      (woken : s.wokenByEvent w = none ∨ s.wokenByEvent w = some e) :
      FinishWait s w t e false { s.removeEventHoldingLocks e with
        eventStack := Function.update s.eventStack t (s.nextInStack e)
        wokenByEvent := Function.update s.wokenByEvent w none }
  | requeued (x : EventId) (woken : s.wokenByEvent w = some x) (live : s.life x = .live)
      (signal : s.flags x = .signal)
      (active : s.el e = some (.pending t) ∨ s.el e = some .immediate) :
      FinishWait s w t e false
        { ((s.removeEventHoldingLocks e).removeEventHoldingLocks x).attachEvent x (.pending t) t with
          wokenByEvent := Function.update s.wokenByEvent w none
          eventStack := Function.update s.eventStack t (s.nextInStack e) }
  | interrupted (x : EventId) (woken : s.wokenByEvent w = some x) (live : s.life x = .live)
      (signal : s.flags x = .signal)
      (inactive : s.el e ≠ some (.pending t) ∧ s.el e ≠ some .immediate) :
      FinishWait s w t e true (s.removeEventHoldingLocks e)

private theorem removeEventHoldingLocks_frame (s : State) (e : EventId) :
    ∃ lists count negative refcnt, s.removeEventHoldingLocks e = { s with
      lists := lists
      immediateCount := count
      immediateNegative := negative
      refcnt := refcnt } :=
  ⟨_, _, _, _, rfl⟩

theorem FinishWait.frame {s s' : State} {w : WorkerId} {t : Tid} {e : EventId} {rv : Bool}
    (finished : FinishWait s w t e rv s') :
    ∃ tc lists count negative refcnt stack woken, s' = { s with
      tc := tc
      lists := lists
      immediateCount := count
      immediateNegative := negative
      refcnt := refcnt
      eventStack := stack
      wokenByEvent := woken } := by
  obtain ⟨lists, count, negative, refcnt, removed⟩ := removeEventHoldingLocks_frame s e
  cases finished with
  | expected _ _ =>
      rw [removed]
      exact ⟨_, _, _, _, _, _, _, rfl⟩
  | requeued x _ _ _ _ =>
      rw [removed]
      obtain ⟨_, _, _, _, again⟩ := removeEventHoldingLocks_frame { s with
        lists := lists, immediateCount := count, immediateNegative := negative, refcnt := refcnt } x
      rw [again]
      exact ⟨_, _, _, _, _, _, _, rfl⟩
  | interrupted x _ _ _ _ =>
      rw [removed]
      exact ⟨_, _, _, _, _, _, _, rfl⟩

@[simp] theorem removeEventHoldingLocks_el (s : State) (e : EventId) :
    (s.removeEventHoldingLocks e).lists.el = Function.update s.lists.el e none := rfl

private theorem removeEventHoldingLocks_stack (s : State) (e : EventId) :
    (s.removeEventHoldingLocks e).wokenByEvent = s.wokenByEvent ∧
      (s.removeEventHoldingLocks e).eventStack = s.eventStack ∧
      (s.removeEventHoldingLocks e).nextInStack = s.nextInStack :=
  ⟨rfl, rfl, rfl⟩

private theorem attachEvent_stack (s : State) (e : EventId) (k : EventList) (t : Tid) :
    (s.attachEvent e k t).wokenByEvent = s.wokenByEvent ∧
      (s.attachEvent e k t).eventStack = s.eventStack ∧
      (s.attachEvent e k t).nextInStack = s.nextInStack :=
  ⟨rfl, rfl, rfl⟩

theorem tcWaitqFinishWait_ok {s s' : State} {w : WorkerId} {t : Tid} {e : EventId} {rv : Bool}
    (finished : s.tcWaitqFinishWait w t e = .ok (rv, s')) : FinishWait s w t e rv s' := by
  unfold tcWaitqFinishWait at finished
  split at finished
  · next expected =>
    cases finished
    exact .expected expected.1 expected.2
  · split at finished
    · cases finished
    · next x woken =>
      split at finished
      · cases finished
      · next live =>
        split at finished
        · cases finished
        · next signal =>
          have live : s.life x = .live := by simpa using live
          have signal : s.flags x = .signal := by simpa using signal
          split at finished
          · next active =>
            split at finished
            · cases finished
            · next s₁ added =>
              obtain ⟨_, rfl⟩ := addEvent_ok added
              obtain ⟨woke, stack, next⟩ := removeEventHoldingLocks_stack s e
              obtain ⟨woke', stack', next'⟩ :=
                removeEventHoldingLocks_stack (s.removeEventHoldingLocks e) x
              simp only [attachEvent_stack, woke', stack', next', woke, stack, next] at finished
              cases finished
              exact .requeued x woken live signal (by simpa [isActive] using active)
          · next inactive =>
            cases finished
            exact .interrupted x woken live signal (by simpa [isActive] using inactive)

theorem tcWaitqFinishWait_error {s : State} {w : WorkerId} {t : Tid} {e : EventId} {fault : Fault}
    (failed : s.tcWaitqFinishWait w t e = .error fault) :
    ¬(s.eventStack t = some e ∧ (s.wokenByEvent w = none ∨ s.wokenByEvent w = some e)) ∧
      (fault = .nullWokenByEvent ∧ s.wokenByEvent w = none ∨
        ∃ x, s.wokenByEvent w = some x ∧
          (fault = .useAfterFree ∧ s.life x ≠ .live ∨ fault = .assertSignal ∧ s.flags x ≠ .signal)) := by
  unfold tcWaitqFinishWait at failed
  split at failed
  · cases failed
  · next unexpected =>
    refine ⟨unexpected, ?_⟩
    split at failed
    · next woken => exact .inl ⟨(Except.error.inj failed).symm, woken⟩
    · next x woken =>
      refine .inr ⟨x, woken, ?_⟩
      split at failed
      · next dead => exact .inl ⟨(Except.error.inj failed).symm, dead⟩
      · split at failed
        · next event => exact .inr ⟨(Except.error.inj failed).symm, event⟩
        · split at failed
          · split at failed
            · next refused =>
              -- the event has just been taken off its list
              have contra := (addEvent_error refused).1
              simp [el] at contra
            · cases failed
          · cases failed

theorem tcWaitqPrepareToWait_ok {s s' : State} {w : WorkerId} {t : Tid} {e : EventId} {wq : Waitq}
    (prepared : s.tcWaitqPrepareToWait w t e wq = .ok s') : s.el e = none ∧
      s' = { s.attachEvent e (.waiters wq) t with
        flags := Function.update s.flags e .ready
        epEvents := Function.update s.epEvents e 0
        wokenByEvent := Function.update s.wokenByEvent w none }.tcEventOnTcStack e t := by
  unfold tcWaitqPrepareToWait at prepared
  split at prepared
  · cases prepared
  · next s₁ added =>
    obtain ⟨free, rfl⟩ := addEvent_ok added
    exact ⟨free, (Except.ok.inj prepared).symm⟩

theorem tcWaitqPrepareToWait_error {s : State} {w : WorkerId} {t : Tid} {e : EventId} {wq : Waitq}
    {fault : Fault} (failed : s.tcWaitqPrepareToWait w t e wq = .error fault) :
    s.el e ≠ none ∧ fault = .stillOnList := by
  unfold tcWaitqPrepareToWait at failed
  split at failed
  · next refused =>
    obtain rfl := Except.error.inj failed
    exact addEvent_error refused
  · cases failed

theorem tcSignalSubscribe_ok {s s' : State} {w : WorkerId} {t : Tid} {e : EventId} {g : SignalId}
    (subscribed : s.tcSignalSubscribe w t e g = .ok s') : s.el e = none ∧
      s' = { (s.tcEventInit e (s.workerDomain w)).attachEvent e (.waiters (.signal g)) t with
        signal := Function.update s.signal e g
        flags := Function.update s.flags e .signal
        wokenByEvent := Function.update s.wokenByEvent w none
        sss := Function.update s.sss g (e :: s.sss g)
        fires := Function.update s.fires e 0
        interrupts := Function.update s.interrupts e 0 } := by
  unfold tcSignalSubscribe at subscribed
  split at subscribed
  · cases subscribed
  · next s₁ added =>
    obtain ⟨free, rfl⟩ := addEvent_ok added
    exact ⟨free, (Except.ok.inj subscribed).symm⟩

theorem tcSignalSubscribe_error {s : State} {w : WorkerId} {t : Tid} {e : EventId} {g : SignalId}
    {fault : Fault} (failed : s.tcSignalSubscribe w t e g = .error fault) :
    s.el e ≠ none ∧ fault = .stillOnList := by
  unfold tcSignalSubscribe at failed
  split at failed
  · next refused =>
    obtain rfl := Except.error.inj failed
    obtain ⟨on, rfl⟩ := addEvent_error refused
    exact ⟨on, rfl⟩
  · cases failed

/-! ## Waking -/

private theorem foldl_wakeupAllTurn (s : State) (es : List EventId) (acc : WakeupAll) :
    (es.foldl s.wakeupAllTurn acc).lists =
        es.foldl (fun lists e => (lists.remove e).pushFront e .immediate) acc.lists ∧
      (es.foldl s.wakeupAllTurn acc).immediateCount = acc.immediateCount + es.length := by
  induction es generalizing acc with
  | nil => simp
  | cons e es ih =>
      obtain ⟨lists, count⟩ := ih (s.wakeupAllTurn acc e)
      refine ⟨lists, ?_⟩
      rw [List.foldl_cons, count, List.length_cons]
      simp only [wakeupAllTurn]
      omega

theorem tcWaitqWakeupAll_lists (s : State) (wq : Waitq) :
    (s.tcWaitqWakeupAll wq).lists = (s.events (.waiters wq)).foldl
      (fun lists e => (lists.remove e).pushFront e .immediate) s.lists :=
  (foldl_wakeupAllTurn s _ _).1

theorem tcWaitqWakeupAll_count (s : State) (wq : Waitq) :
    (s.tcWaitqWakeupAll wq).immediateCount =
      s.immediateCount + (s.events (.waiters wq)).length :=
  (foldl_wakeupAllTurn s _ _).2

theorem tcWaitqWakeupOne_nil {s : State} {wq : Waitq} (empty : s.events (.waiters wq) = []) :
    s.tcWaitqWakeupOne wq = (s, none) := by
  simp [tcWaitqWakeupOne, empty]

theorem tcWaitqWakeupOne_cons {s : State} {wq : Waitq} {e : EventId} {es : List EventId}
    (queue : s.events (.waiters wq) = e :: es) :
    s.tcWaitqWakeupOne wq = ({ s with
      lists := (s.lists.remove e).pushFront e .immediate
      immediateCount := s.immediateCount + 1 }.iwiImmediate (s.domain e), some e) := by
  simp [tcWaitqWakeupOne, queue]

theorem tcWaitqWakeupOne_frame (s : State) (wq : Waitq) :
    ∃ lists count fd, (s.tcWaitqWakeupOne wq).1 = { s with
      lists := lists
      immediateCount := count
      immediateFd := fd } := by
  unfold tcWaitqWakeupOne
  split
  · exact ⟨_, _, _, rfl⟩
  · exact ⟨_, _, _, rfl⟩

theorem tcWaitqWakeupOne_mode (s : State) (wq : Waitq) :
    (s.tcWaitqWakeupOne wq).1.mode = s.mode := by
  obtain ⟨_, _, _, frame⟩ := tcWaitqWakeupOne_frame s wq
  rw [frame]

end Libtcr.State
