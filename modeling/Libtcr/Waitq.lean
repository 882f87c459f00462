import Libtcr.EventLists

/-! Wait queues, and what is built from them: signals and the hand-over of a
mutex. -/

set_option autoImplicit false

namespace Libtcr.State

/-- `_tc_waitq_prepare_to_wait` of an event that is not a signal's, with the
assignments of `tc_waitq_prepare_to_wait`. -/
def tcWaitqPrepareToWait (s : State) (w : WorkerId) (t : Tid) (e : EventId) (wq : Waitq) :
    Result :=
  match s.addEvent e (.waiters wq) t with
  | .error fault => .error fault
  | .ok s' => .ok ({ s' with
      flags := Function.update s'.flags e .ready
      epEvents := Function.update s'.epEvents e 0
      wokenByEvent := Function.update s'.wokenByEvent w none }.tcEventOnTcStack e t)

/-- The event is active: it has been moved to one of the two lists from which the
thread is woken. -/
def isActive (s : State) (t : Tid) (e : EventId) : Bool :=
  decide (s.el e = some (.pending t) ∨ s.el e = some .immediate)

def tcWaitqFinishWait (s : State) (w : WorkerId) (t : Tid) (e : EventId) :
    Except Fault (Bool × State) :=
  if s.eventStack t = some e ∧ (s.wokenByEvent w = none ∨ s.wokenByEvent w = some e) then
    -- Optimal case - the event that got active was the one we expected.
    .ok (false, { s.removeEventHoldingLocks e with
      eventStack := Function.update s.eventStack t (s.nextInStack e)
      wokenByEvent := Function.update s.wokenByEvent w none })
  else
    match s.wokenByEvent w with
    | none => .error .nullWokenByEvent
    | some x =>
      if s.life x ≠ .live then .error .useAfterFree
      else if s.flags x ≠ .signal then .error .assertSignal
      else if s.isActive t e then
        -- We got a signal, but the expected event got active, too.
        match ((s.removeEventHoldingLocks e).removeEventHoldingLocks x).addEvent x
            (.pending t) t with
        | .error fault => .error fault
        | .ok s' => .ok (false, { s' with
            wokenByEvent := Function.update s'.wokenByEvent w none
            eventStack := Function.update s'.eventStack t (s'.nextInStack e) })
      else .ok (true, s.removeEventHoldingLocks e)

/-- `tc_waitq_wakeup_one_owner`: the new state and, unless the queue was empty, the
event that was woken. -/
def tcWaitqWakeupOne (s : State) (wq : Waitq) : State × Option EventId :=
  match s.events (.waiters wq) with
  | [] => (s, none)
  | e :: _ =>
    ({ s with
      lists := (s.lists.remove e).pushFront e .immediate
      immediateCount := s.immediateCount + 1 }.iwiImmediate (s.domain e), some e)

structure WakeupAll where
  lists : IntrusiveLists EventId EventList
  immediateCount : Int
  signalsSinceLastQuery : Tid → Int
  immediateFd : DomainId → Nat
  alerted : List DomainId

/-- One turn of the loop of `tc_waitq_wakeup_all`. A domain for which there is no
room in `alerted` is notified at once. -/
def wakeupAllTurn (s : State) (acc : WakeupAll) (e : EventId) : WakeupAll where
  lists := (acc.lists.remove e).pushFront e .immediate
  immediateCount := acc.immediateCount + 1
  signalsSinceLastQuery :=
    if s.flags e = .signal then
      Function.update acc.signalsSinceLastQuery (s.tc e)
        (acc.signalsSinceLastQuery (s.tc e) + 1)
    else acc.signalsSinceLastQuery
  immediateFd :=
    if s.domain e ∉ acc.alerted ∧ ¬ acc.alerted.length < 10 then
      Function.update acc.immediateFd (s.domain e) (acc.immediateFd (s.domain e) + 1)
    else acc.immediateFd
  alerted :=
    if s.domain e ∉ acc.alerted ∧ acc.alerted.length < 10 then acc.alerted ++ [s.domain e]
    else acc.alerted

/-- `tc_waitq_wakeup_all`. The loop takes the first event until none is left. -/
def tcWaitqWakeupAll (s : State) (wq : Waitq) : State :=
  let acc := (s.events (.waiters wq)).foldl s.wakeupAllTurn
    ⟨s.lists, s.immediateCount, s.signalsSinceLastQuery, s.immediateFd, []⟩
  { s with
    lists := acc.lists
    immediateCount := acc.immediateCount
    signalsSinceLastQuery := acc.signalsSinceLastQuery
    immediateFd := acc.alerted.foldl (fun fd d => Function.update fd d (fd d + 1))
      acc.immediateFd }

/-- The subscriptions of a signal that have not been cancelled. -/
def Subscribed (s : State) (g : SignalId) (e : EventId) : Prop :=
  (∃ t n, e = .sub t n) ∧ s.life e = .live ∧ s.signal e = g

instance (s : State) (g : SignalId) (e : EventId) : Decidable (s.Subscribed g e) :=
  match e with
  | .sub t n =>
    decidable_of_iff (s.life (.sub t n) = .live ∧ s.signal (.sub t n) = g)
      ⟨fun both => ⟨⟨t, n, rfl⟩, both⟩, fun subscribed => subscribed.2⟩
  | .auto _ _ | .self _ => .isFalse (fun ⟨⟨_, _, equal⟩, _⟩ => nomatch equal)

def tcSignalFire (s : State) (g : SignalId) : State :=
  { s.tcWaitqWakeupAll (.signal g) with
    fires := fun e => if s.Subscribed g e then s.fires e + 1 else s.fires e }

/-- `tc_signal_subscribe`. Its second critical section only links the subscription
into `s->sss`, which is read by nobody but the owner of the subscription. -/
def tcSignalSubscribe (s : State) (w : WorkerId) (t : Tid) (e : EventId) (g : SignalId) :
    Result :=
  match (s.tcEventInit e (s.workerDomain w)).addEvent e (.waiters (.signal g)) t with
  | .error fault => .error fault
  | .ok s' => .ok { s' with
      signal := Function.update s'.signal e g
      flags := Function.update s'.flags e .signal
      wokenByEvent := Function.update s'.wokenByEvent w none
      sss := Function.update s'.sss g (e :: s'.sss g)
      fires := Function.update s'.fires e 0
      interrupts := Function.update s'.interrupts e 0 }

/-- `tc_signal_unsubscribe`: with the locks of all three lists the event can be on
held, it is taken off, and its memory is overwritten and given back. -/
def tcSignalUnsubscribe (s : State) (e : EventId) : State :=
  { s.removeEventHoldingLocks e with
    sss := Function.update s.sss (s.signal e) ((s.sss (s.signal e)).erase e)
    life := Function.update s.life e .dead }

/-- `signal_cancel_pending`: `_cancel_signal` frees the subscription inside
`CIRCLEQ_FOREACH`, which then reads the link of the freed event. -/
def signalCancelPending (s : State) (t : Tid) : Result :=
  if (s.events .immediate).any (fun e => s.tc e = t ∧ s.flags e = .signal) then
    .error .useAfterFree
  else if (s.events (.pending t)).any (fun e => s.flags e = .signal) then
    .error .useAfterFree
  else .ok s

/-- The compare-and-swap of `m_owner` from `NULL` to `t`. -/
def casOwner (s : State) (m : MutexId) (t : Tid) : Option State :=
  if s.owner m = none then some { s with owner := Function.update s.owner m (some t) }
  else none

def tcMutexUnlock (s : State) (t : Tid) (m : MutexId) : Result :=
  if s.owner m = none then .error .unlockedMutex
  else .ok { (s.tcWaitqWakeupOne (.mutex m)).1 with
    owner := Function.update s.owner m ((s.tcWaitqWakeupOne (.mutex m)).2.map s.tc)
    held := Function.update s.held t (Function.update (s.held t) m false) }

end Libtcr.State
