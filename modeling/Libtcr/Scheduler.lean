import Libtcr.Waitq
import Libtcr.Fd

/-! The scheduler: which thread an event wakes, going to sleep and being entered. -/

set_option autoImplicit false

namespace Libtcr.State

/-- `run_or_queue` on worker `w`: the thread to switch to, if any. -/
def runOrQueue (s : State) (w : WorkerId) (e : EventId) : Except Fault (Option Tid × State) :=
  let t := s.tc e
  if s.el e = none then .error .notOnList
  else if s.flags e = .exiting then
    match s.removeEventFrom e .immediate with
    | .error fault => .error fault
    | .ok s' => .ok (some t, s')
  else if s.running t ∨
      (s.flags e ≠ .signal ∧ s.eventStack t ≠ none ∧ s.eventStack t ≠ some e) then
    -- Some event, but not the top-most event of this thread.
    match { s with
        tcfd := if s.flags e = EventFlag.signal then s.tcfd
          else Function.update s.tcfd e (s.wokenByTcfd w) }.moveEvent e (.pending t) with
    | .error fault => .error fault
    | .ok s' => .ok (none, s')
  else
    match (if s.flags e = .signal then s.moveEvent e (.waiters (.signal (s.signal e)))
      else .ok (s.detachEvent e)) with
    | .error fault => .error fault
    | .ok s' => .ok (some t, { s' with
        running := Function.update s'.running t true
        wokenByEvent := Function.update s'.wokenByEvent w (some e) })

/-- The worker a pass of `_run_immediate` looks for. -/
inductive Scan where
  | own
  | free
  | any
  deriving DecidableEq, Repr

/-- `wanted` in `_run_immediate`, with the test of the domain. -/
def wanted (s : State) (w : WorkerId) (scan : Scan) (e : EventId) : Bool :=
  decide (s.domain e = s.workerDomain w) &&
    match scan with
    | .any => true
    | .own => decide (s.workerNr (s.tc e) = w)
    | .free => decide (s.workerNr (s.tc e) = -1) || !s.affine (s.tc e)

/-- The traversal of `common.immediate` in `_run_immediate` up to the first wanted
event. -/
def searchImmediate (s : State) (w : WorkerId) (scan : Scan) :
    List EventId → Except Fault (Option EventId)
  | [] => .ok none
  | e :: es =>
    if s.domain e ≠ s.threadDomain (s.tc e) then .error .assertDomain
    else if s.wanted w scan e then .ok (some e)
    else s.searchImmediate w scan es

/-- One turn of the search loop of `_run_immediate`, with the immediate lock held. -/
def runImmediate (s : State) (w : WorkerId) (scan : Scan) : Result :=
  let s := { s with wokenByTcfd := Function.update s.wokenByTcfd w none }
  match s.searchImmediate w scan (s.events .immediate) with
  | .error fault => .error fault
  | .ok none => .ok s
  | .ok (some e) =>
    match s.runOrQueue w e with
    | .error fault => .error fault
    | .ok (none, s') => .ok s'
    | .ok (some t, s') =>
      if s.flags e = .exiting then
        .ok { s' with mode := Function.update s'.mode w (.free t) }
      else
        .ok { s' with
          immediateFd :=
            if s'.events .immediate = [] then s'.immediateFd
            else Function.update s'.immediateFd (s'.workerDomain w)
              (s'.immediateFd (s'.workerDomain w) + 1)
          mode := Function.update s'.mode w (.enter t) }

/-- `scheduler_part2` from `worker->woken_by_tcfd = tcfd` to the release of the lock. -/
def runReported (s : State) (w : WorkerId) (f : FdId) (e : EventId) : Result :=
  if s.life e ≠ .live then .error .useAfterFree
  else
    match { s with wokenByTcfd := Function.update s.wokenByTcfd w (some f) }.runOrQueue w e with
    | .error fault => .error fault
    | .ok (chosen, s') => .ok { s' with
        fdLock := Function.update s'.fdLock f false
        mode := Function.update s'.mode w (match chosen with
          | none => .sched
          | some t => .enter t) }

/-- The search of `tc_scheduler` through the pending events of a thread: the event at
the top of its stack, or else the last of the signals. -/
def searchPending (s : State) (top : EventId) (sig : Option EventId) :
    List EventId → Option EventId
  | [] => sig
  | e :: es =>
    if e = top then some e
    else s.searchPending top (if s.flags e = .signal then some e else sig) es

/-- The event that `tc_scheduler` returns with, unless it goes to sleep. -/
def pendingEvent (s : State) (t : Tid) : Option EventId :=
  match s.eventStack t with
  | none => (s.events (.pending t)).head?
  | some top => s.searchPending top none (s.events (.pending t))

def setFrame (s : State) (t : Tid) (f : Frame) : State :=
  { s with frames := Function.update s.frames t (f :: (s.frames t).tail) }

/-- `tc_scheduler`, called by thread `t` on worker `w` for its top frame `f`. -/
def tcScheduler (s : State) (w : WorkerId) (t : Tid) (f : Frame) : Result :=
  match s.pendingEvent t with
  | some e =>
    match (if s.flags e = .signal then s.moveEvent e (.waiters (.signal (s.signal e)))
      else s.removeEventFrom e (.pending t)) with
    | .error fault => .error fault
    | .ok s' => .ok ({ s' with
        wokenByEvent := Function.update s'.wokenByEvent w (some e)
        wokenByTcfd := Function.update s'.wokenByTcfd w (s'.tcfd e) }.setFrame t
          { f with pc := .woke })
  | none =>
    .ok ({ s with
      running := Function.update s.running t false
      mode := Function.update s.mode w (.leave t) }.setFrame t { f with pc := .asleep })

/-- The end of `_switch_to` and `switch_to` for thread `t`: its coroutine is entered,
at its start in `tc_setup`, or inside `tc_scheduler`. -/
def enterThread (s : State) (w : WorkerId) (t : Tid) : State :=
  { s with
    workerNr :=
      if s.workerNr t = w ∨ s.affine t then s.workerNr
      else Function.update s.workerNr t w
    runningLock := Function.update s.runningLock t true
    mode := Function.update s.mode w (.thread t)
    wokenByEvent :=
      if s.status t = .posted then Function.update s.wokenByEvent w none
      else s.wokenByEvent
    status :=
      if s.status t = .posted then Function.update s.status t .alive else s.status
    frames := Function.update s.frames t (match s.frames t with
      | [] => []
      | f :: rest => { f with pc := .woke } :: rest) }

def tcThreadFree (s : State) (w : WorkerId) (t : Tid) : Result :=
  if s.events (.waiters (.exit t)) ≠ [] then .error .exitWaitersLeft
  else .ok ({ s with
    status := Function.update s.status t .dead
    life := Function.update s.life (.self t) .dead
    mode := Function.update s.mode w .sched }.iwiImmediate (s.threadDomain t))

end Libtcr.State
