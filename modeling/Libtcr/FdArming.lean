import Libtcr.Fd
import Libtcr.Lib.Transition

/-! One `tc_fd` and the kernel's side of it, in smaller steps than the transition system of
the whole library: `arm` reads the cached mask, stores it and calls `epoll_ctl` in steps of
its own, between which other threads may clear the cached mask without the lock and the
kernel may report events. A thread is in at most one call of `tc_wait_fd`, so its identity
stands for the event of the call. -/

set_option autoImplicit false

namespace Libtcr

inductive ArmPc where
  | compare
  | store (mask : Mask)
  | modify (mask : Mask)
  | armed
  deriving DecidableEq, Repr

/-- A critical section of `tcfd->events.lock`, with the point that its owner has reached. In
`scheduler_part2`, `e` is the event that `matching_event` or `wakeup_all_events` returned. -/
inductive FdSection where
  | addEventFd (t : Tid) (pc : ArmPc)
  | tcRearm (t : Tid) (pc : ArmPc)
  | matched (w : WorkerId) (e : Option Tid)
  | rearm (w : WorkerId) (e : Option Tid) (pc : ArmPc)
  | run (w : WorkerId) (e : Option Tid)
  deriving DecidableEq, Repr

inductive WaiterPc where
  | outside
  | adding
  | rearming
  | waiting
  | woken (interrupted : Bool)
  /-- About to return, or to remove its event first. -/
  | cleared (interrupted : Bool)
  deriving DecidableEq, Repr

inductive ReporterPc where
  | idle
  | reported (em : Mask)
  | locked
  deriving DecidableEq, Repr

structure FdState where
  -- the event of each thread
  epEvents : Tid → Mask
  priority : Tid → Bool
  -- struct tc_fd; `lock` is the critical section that owns the lock of its event list
  events : List Tid
  cached : Mask
  errHup : Bool
  lock : Option FdSection
  -- the mask in the kernel, unless a report under EPOLLONESHOT has disabled it
  kernel : Option Mask
  waiter : Tid → WaiterPc
  reporter : WorkerId → ReporterPc

inductive FdAction where
  | addEventFd (t : Tid) (mask : Mask) (priority : Bool)
  | tcRearm (t : Tid)
  | locked
  | wake (t : Tid) (interrupted : Bool)
  | clear (t : Tid)
  | finish (t : Tid)
  | report (w : WorkerId) (em : Mask)
  /-- `here` tells for which events `e->tc->worker_nr == worker->nr`. -/
  | handle (w : WorkerId) (here : Tid → Bool)

namespace FdState

def initial : FdState where
  epEvents _ := 0
  priority _ := false
  events := []
  cached := 0
  errHup := false
  lock := none
  kernel := some 0
  waiter _ := .outside
  reporter _ := .idle

def neededMask (s : FdState) : Mask := calcEpollEventMask s.epEvents s.events

/-- One step of `arm`. The system call succeeds. -/
def armStep (s : FdState) : ArmPc → FdState × ArmPc
  | .compare => (s, if s.neededMask = s.cached then .armed else .store s.neededMask)
  | .store mask => ({ s with cached := mask }, .modify mask)
  | .modify mask => ({ s with kernel := some mask }, .armed)
  | .armed => (s, .armed)

def lockedStep (s : FdState) : FdSection → FdState
  | .addEventFd t .armed =>
    { s with lock := none, waiter := Function.update s.waiter t .waiting }
  | .addEventFd t pc =>
    { (s.armStep pc).1 with lock := some (.addEventFd t (s.armStep pc).2) }
  | .tcRearm t .armed =>
    { s with lock := none, waiter := Function.update s.waiter t .outside }
  | .tcRearm t pc => { (s.armStep pc).1 with lock := some (.tcRearm t (s.armStep pc).2) }
  | .matched w e =>
    { s with
      cached := 0
      lock := some (if s.events ≠ [] ∧ (s.events.head? ≠ e ∨ s.events.getLast? ≠ e) then
        .rearm w e .compare else .run w e) }
  | .rearm w e .armed => { s with lock := some (.run w e) }
  | .rearm w e pc => { (s.armStep pc).1 with lock := some (.rearm w e (s.armStep pc).2) }
  | .run w e =>
    { s with
      events := match e with
        | none => s.events
        | some t => s.events.erase t
      lock := none
      reporter := Function.update s.reporter w .idle }

/-- `scheduler_part2` from taking the lock to the result `e` of the search for an event. In
the last branch of the source, an `EPOLLERR` or `EPOLLHUP` that wakes nobody removes the
file descriptor from the epoll set. -/
def handle (s : FdState) (w : WorkerId) (em : Mask) (here : Tid → Bool) : FdState :=
  let s := { s with reporter := Function.update s.reporter w .locked }
  if s.errHup ∨ em &&& (EPOLLERR ||| EPOLLHUP) ≠ 0 then
    let choice := wakeupAllEvents here s.events
    { s with
      errHup := true
      events := s.events.filter (· ∉ choice.1)
      kernel :=
        if choice.2 = none ∧ em &&& (EPOLLERR ||| EPOLLHUP) ≠ 0 then none else s.kernel
      lock := some (.run w choice.2) }
  else
    let choice := matchingEvent s.epEvents s.priority here em s.events
    { s with
      events := s.events.filter (some · ≠ choice.1)
      lock := some (.matched w choice.2) }

def step (s : FdState) : FdAction → Option FdState
  | .addEventFd t mask priority =>
    if s.waiter t = .outside ∧ s.lock = none then
      if s.errHup then some s
      else some { s with
        epEvents := Function.update s.epEvents t (mask ||| EPOLLONESHOT)
        priority := Function.update s.priority t priority
        events := s.events ++ [t]
        lock := some (.addEventFd t .compare)
        waiter := Function.update s.waiter t .adding }
    else none
  | .tcRearm t =>
    if s.waiter t = .outside ∧ s.lock = none then
      some { s with
        lock := some (.tcRearm t .compare)
        waiter := Function.update s.waiter t .rearming }
    else none
  | .locked => s.lock.map s.lockedStep
  | .wake t interrupted =>
    -- Its own event wakes a thread only after it has been taken off the list.
    if s.waiter t = .waiting ∧ (interrupted = true ∨ t ∉ s.events) then
      some { s with waiter := Function.update s.waiter t (.woken interrupted) }
    else none
  | .clear t =>
    match s.waiter t with
    | .woken interrupted =>
      some { s with cached := 0, waiter := Function.update s.waiter t (.cleared interrupted) }
    | _ => none
  | .finish t =>
    match s.waiter t with
    | .cleared false => some { s with waiter := Function.update s.waiter t .outside }
    | .cleared true =>
      -- remove_event takes the lock of the list that the event is on.
      if t ∈ s.events then
        if s.lock = none then
          some { s with
            events := s.events.erase t
            waiter := Function.update s.waiter t .outside }
        else none
      else some { s with waiter := Function.update s.waiter t .outside }
    | _ => none
  | .report w em =>
    match s.kernel with
    | none => none
    | some mask =>
      if s.reporter w = .idle ∧ em &&& ~~~(mask ||| EPOLLERR ||| EPOLLHUP) = 0 ∧ em ≠ 0 then
        some { s with
          kernel := if mask &&& EPOLLONESHOT ≠ 0 then none else s.kernel
          reporter := Function.update s.reporter w (.reported em) }
      else none
  | .handle w here =>
    match s.reporter w with
    | .reported em => if s.lock = none then some (s.handle w em here) else none
    | _ => none

end FdState

/-- The states of a `tc_fd` that any number of threads and workers can reach. -/
def FdReachable : FdState → Prop := Transition.Run FdState.step Transition.always .initial

end Libtcr
