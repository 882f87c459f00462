import Libtcr.EventLists

/-! Waiting for file descriptors: which waiters a report of epoll wakes, and how
the event mask is kept in step with the waiters. The selection reads of an event
only its mask, whether it has priority, and whether its thread belongs to the
worker that handles the report, so it is stated for any type of waiters. -/

set_option autoImplicit false

namespace Libtcr

section Selection

variable {α : Type} [DecidableEq α] (epEvents : α → Mask) (priority here : α → Bool)

/-- The loop of `matching_event`: the variables `em`, `in`, `out` and `ew`. -/
def matchLoop (em : Mask) (inn out ew : Option α) : List α → Option α × Option α × Option α
  | [] => (inn, out, ew)
  | e :: es =>
    let hitIn := em &&& epEvents e &&& EPOLLIN ≠ 0
    let inn' := if hitIn then (if here e ∨ priority e ∨ inn = none then some e else inn) else inn
    let ew' := if hitIn ∧ here e then some e else ew
    let em' := if hitIn ∧ priority e then em &&& ~~~EPOLLIN else em
    let hitOut := em' &&& epEvents e &&& EPOLLOUT ≠ 0
    let out' := if hitOut then (if here e ∨ priority e ∨ out = none then some e else out) else out
    let ew'' := if hitOut ∧ here e then some e else ew'
    let em'' := if hitOut ∧ priority e then em' &&& ~~~EPOLLOUT else em'
    if em'' = 0 then (inn', out', ew'') else matchLoop em'' inn' out' ew'' es

/-- `matching_event`: the event that is moved to `common.immediate`, and the event
that is returned. -/
def matchingEvent (em : Mask) (es : List α) : Option α × Option α :=
  match matchLoop epEvents priority here em none none none es with
  | (inn, out, some ew) => (if some ew = inn then out else inn, some ew)
  | (some inn, some out, none) => (some inn, some out)
  | (some inn, none, none) => (none, some inn)
  | (none, out, none) => (none, out)

/-- The loop of `wakeup_all_events`: the variables `ew` and `ex`, and the events
moved to `common.immediate`. -/
def wakeupLoop (ew ex : Option α) (moved : List α) : List α → Option α × Option α × List α
  | [] => (ew, ex, moved)
  | e :: es =>
    if ew = none ∧ here e then wakeupLoop (some e) ex moved es
    else if ex = none then wakeupLoop ew (some e) moved es
    else wakeupLoop ew ex (moved ++ [e]) es

/-- `wakeup_all_events`: the events that are moved to `common.immediate`, in this
order, and the event that is returned. -/
def wakeupAllEvents (es : List α) : List α × Option α :=
  match wakeupLoop here none none [] es with
  | (some ew, some ex, moved) => (moved ++ [ex], some ew)
  | (some ew, none, moved) => (moved, some ew)
  | (none, ex, moved) => (moved, ex)

def calcEpollEventMask (es : List α) : Mask :=
  es.foldl (fun em e => em ||| epEvents e) 0

end Selection

namespace State

/-- `e->tc->worker_nr == worker->nr`. -/
def here (s : State) (w : WorkerId) (e : EventId) : Bool :=
  decide (s.workerNr (s.tc e) = w)

/-- `arm`: the cached mask. Its result is that of `epoll_ctl`, which is not called
when the mask is the cached one. -/
def arm (s : State) (f : FdId) : State :=
  { s with
    fdEpEvents := Function.update s.fdEpEvents f
      (calcEpollEventMask s.epEvents (s.events (.fd f))) }

/-- Keep the lock of the event list of `f` when there is an event to run. -/
def keepReport (s : State) (w : WorkerId) (f : FdId) (choice : Option EventId) : State :=
  { s with
    fdLock := if choice.isSome then Function.update s.fdLock f true else s.fdLock
    mode := match choice with
      | none => s.mode
      | some e => Function.update s.mode w (.report f e) }

/-- The part of `scheduler_part2` that handles a report for the `tc_fd` `f`, from
taking the lock of its event list to the test of `e`. -/
def handleReport (s : State) (w : WorkerId) (f : FdId) (em : Mask) : State :=
  let es := s.events (.fd f)
  if s.errHup f ∨ em &&& (EPOLLERR ||| EPOLLHUP) ≠ 0 then
    let choice := wakeupAllEvents (s.here w) es
    { s.moveToImmediate choice.1 with
      errHup := Function.update s.errHup f true }.keepReport w f choice.2
  else
    let choice := matchingEvent s.epEvents (fun e => s.flags e = .priority) (s.here w) em es
    let s' := s.moveToImmediate choice.1.toList
    let left := s'.events (.fd f)
    { s' with
      -- Rearm unless nobody, or only the event just found, is left.
      fdEpEvents := Function.update s.fdEpEvents f
        (if left ≠ [] ∧ (left.head? ≠ choice.2 ∨ left.getLast? ≠ choice.2) then
          calcEpollEventMask s'.epEvents left
        else 0) }.keepReport w f choice.2

/-- `add_event_fd`: the result of the call and the new state. `ctl` is the result of
`epoll_ctl` should `arm` call it. -/
def addEventFd (s : State) (t : Tid) (e : EventId) (f : FdId) (mask : Mask)
    (flags : EventFlag) (ctl : Bool) : Except Fault (Bool × State) :=
  if s.errHup f then .ok (false, s)
  else
    match { s with
        epEvents := Function.update s.epEvents e mask
        flags := Function.update s.flags e flags }.addEvent e (.fd f) t with
    | .error fault => .error fault
    | .ok s' =>
      let same := calcEpollEventMask s'.epEvents (s'.events (.fd f)) = s'.fdEpEvents f
      if same ∨ ctl then .ok (true, s'.arm f)
      else
        match (s'.arm f).removeEventFrom e (.fd f) with
        | .error fault => .error fault
        | .ok s'' => .ok (false, s'')

/-- The critical section of `_tc_fd_unregister`. -/
def tcFdUnregister (s : State) (f : FdId) : Result :=
  if s.events (.fd f) ≠ [] then .error .fdEventsLeft
  else .ok { s with errHup := Function.update s.errHup f true }

end State

end Libtcr
