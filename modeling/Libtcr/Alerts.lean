import Libtcr.System

/-! How the workers of a domain wake each other: the eventfd `immediate_fd`, for which all of
them wait, and the loop of `scheduler_part2`. The steps are those of the library, in more
detail: a worker goes through `scheduler_part2` and `run_immediate` statement by statement, and
a call of `_iwi_immediate` that is made without the lock of `common.immediate` is a step of its
own. -/

set_option autoImplicit false

namespace Libtcr

/-- Where a worker is in `scheduler_part2`, or where it goes on once the thread it executes has
called `tc_scheduler`. -/
inductive SchedPc where
  /-- At the head of the loop of `run_immediate`, with `did` set. -/
  | turn (i : Nat)
  /-- In `_run_immediate`. `i` is that of the next turn, `did` that of the searches before. -/
  | search (i : Nat) (scan : State.Scan) (did : Bool)
  | poll (haveWork : Bool)
  | blocked
  /-- `IWI_IMMEDIATE` has been reported; about to read `immediate_fd`. -/
  | rearm
  | arm
  | aio
  deriving DecidableEq, Repr

structure AlertState where
  sys : State
  counter : DomainId → Nat
  /-- `epoll_wait` reports `immediate_fd`. -/
  armed : DomainId → Bool
  /-- The calls of `_iwi_immediate` that a worker has yet to make. -/
  owed : WorkerId → List DomainId
  pc : WorkerId → SchedPc
  -- history: the worker that has put an event on `common.immediate`
  queuedBy : EventId → WorkerId

/-- What ends a call of `epoll_wait` other than a report for a `tc_fd`. -/
inductive EpollResult where
  | timeout
  | blocks
  | sync
  | immediate
  | asyncIo
  deriving DecidableEq, Repr

inductive AlertAction where
  | act (a : Action)
  | iwi (w : WorkerId)
  | turn (w : WorkerId)
  | epoll (w : WorkerId) (result : EpollResult)
  | read (w : WorkerId)
  | arm (w : WorkerId)
  | handled (w : WorkerId)
  deriving DecidableEq, Repr

def AlertAction.worker : AlertAction → WorkerId
  | .act a => a.worker
  | .iwi w | .turn w | .epoll w _ | .read w | .arm w | .handled w => w

namespace State

def wakeupAllLoop (s : State) (wq : Waitq) : WakeupAll :=
  (s.events (.waiters wq)).foldl s.wakeupAllTurn
    ⟨s.lists, s.immediateCount, s.signalsSinceLastQuery, s.immediateFd, []⟩

def wakeupOneOwes (s : State) (wq : Waitq) : List DomainId :=
  ((s.events (.waiters wq)).head?.map s.domain).toList

/-- The calls of `_iwi_immediate` at the end of an action, without the lock of
`common.immediate`. -/
def owes (s : State) : Action → List DomainId
  | .user w op =>
    match op with
    | .wakeupAll k => (s.wakeupAllLoop (.user k)).alerted
    | .wakeupOne k => s.wakeupOneOwes (.user k)
    | .fire g => (s.wakeupAllLoop (.signal g)).alerted
    | .unlock m => s.wakeupOneOwes (.mutex m)
    | .threadPost u => [s.threadDomain u]
    | .exitMain => [s.workerDomain w]
    | _ => []
  | .die w =>
    match s.mode w with
    | .thread t =>
      if s.status t = .settled then (s.wakeupAllLoop (.exit t)).alerted
      else if s.status t = .announced then [s.workerDomain w]
      else []
    | _ => []
  | .free w =>
    match s.mode w with
    | .free t => [s.threadDomain t]
    | _ => []
  | .aio _ k => (s.wakeupAllLoop (.user k)).alerted
  | _ => []

end State

/-- Where a worker goes on after `_run_immediate`. -/
def SchedPc.after (i : Nat) (scan : State.Scan) (did found : Bool) : SchedPc :=
  match scan with
  | .own => .search i .free found
  | .free => .search i .any (found || did)
  | .any => if found || did then .turn i else .poll false

namespace AlertState

/-- A worker calls `_iwi_immediate` before it goes on, except that `tc_thread_pool_new` posts
all its threads first. -/
def mayCall (s : AlertState) (a : Action) : Bool :=
  s.owed a.worker = [] ||
    match a with
    | .user w (.threadNew _ d _ _) => s.owed w = [d]
    | .user w (.threadPost u) => s.owed w = [s.sys.threadDomain u]
    | _ => false

def ready (s : AlertState) : Action → Bool
  | .runImmediate w scan =>
    match s.pc w with
    | .search _ scan' _ => scan' = scan
    | _ => false
  | .report w _ _ =>
    match s.pc w with
    | .poll _ | .blocked => true
    | _ => false
  | .aio w _ => s.pc w = .aio
  | _ => true

/-- Where the worker goes on after the action, which leads to `sys`. -/
def pcAfter (s : AlertState) (a : Action) (sys : State) : SchedPc :=
  match a with
  | .runImmediate w scan =>
    match s.pc w with
    | .search i _ did =>
      match s.sys.searchImmediate w scan (s.sys.events .immediate), sys.mode w with
      | .ok none, _ => .after i scan did false
      -- switch_to; _run_immediate returns 1 once the thread is left
      | _, .enter _ => .after i scan did true
      | _, _ => s.pc w
    | pc => pc
  | .report _ _ _ => .turn 4
  | _ => s.pc a.worker

/-- The state after an action of the library, which leads to `sys`. `immediateFd` counts the
calls of `_iwi_immediate`; those that are not owed have been made with the lock held. -/
def acted (s : AlertState) (a : Action) (sys : State) : AlertState :=
  { s with
    sys := sys
    counter := fun d =>
      s.counter d + (sys.immediateFd d - s.sys.immediateFd d - (s.sys.owes a).count d)
    owed := if s.owed a.worker = [] then Function.update s.owed a.worker (s.sys.owes a) else s.owed
    pc := Function.update s.pc a.worker (s.pcAfter a sys)
    queuedBy := fun e =>
      if sys.el e = some .immediate ∧ s.sys.el e ≠ some .immediate then a.worker
      else s.queuedBy e }

def setPc (s : AlertState) (w : WorkerId) (pc : SchedPc) : AlertState :=
  { s with pc := Function.update s.pc w pc }

def turn (nrOfWorkers : DomainId → Int) (s : AlertState) (w : WorkerId) : Option AlertState :=
  match s.pc w with
  | .turn 0 => some (s.setPc w (.poll true))
  | .turn (i + 1) =>
    -- To reduce lock contention, only search the immediate queue if there are few threads.
    if s.sys.immediateCount < nrOfWorkers (s.sys.workerDomain w) * 2 then
      some (s.setPc w (.search i .own false))
    else some (s.setPc w (.search i .any true))
  | _ => none

/-- `epoll_wait`, up to the next statement of `scheduler_part2` that matters. -/
def epoll (s : AlertState) (w : WorkerId) (result : EpollResult) : Option AlertState :=
  match s.pc w, result with
  | .poll true, .timeout => some (s.setPc w (.turn 4))
  | .poll false, .blocks => some (s.setPc w .blocked)
  | .poll _, .sync | .blocked, .sync => some (s.setPc w (.turn 4))
  | .poll _, .asyncIo | .blocked, .asyncIo => some (s.setPc w .aio)
  | .poll _, .immediate | .blocked, .immediate =>
    if 0 < s.counter (s.sys.workerDomain w) ∧ s.armed (s.sys.workerDomain w) = true then
      some { s.setPc w .rearm with
        armed := Function.update s.armed (s.sys.workerDomain w) false }
    else none
  | _, _ => none

/-- The worker is in `scheduler_part2` and has nothing to finish. -/
def schedules (s : AlertState) (w : WorkerId) : Bool :=
  s.sys.fault = none && s.sys.mode w = .sched && s.owed w = []

def step (nrOfWorkers : DomainId → Int) (s : AlertState) : AlertAction → Option AlertState
  | .act a =>
    if s.sys.fault = none ∧ s.mayCall a = true ∧ s.ready a = true then
      s.sys.call a (s.acted a) fun sys => { s with sys := sys }
    else none
  | .iwi w =>
    match s.owed w with
    | d :: ds =>
      if s.sys.fault = none then some { s with
        counter := Function.update s.counter d (s.counter d + 1)
        owed := Function.update s.owed w ds }
      else none
    | [] => none
  | .turn w => if s.schedules w then s.turn nrOfWorkers w else none
  | .epoll w result => if s.schedules w then s.epoll w result else none
  | .read w =>
    if s.schedules w = true ∧ s.pc w = .rearm ∧ 0 < s.counter (s.sys.workerDomain w) then
      some { s.setPc w .arm with counter := Function.update s.counter (s.sys.workerDomain w) 0 }
    else none
  | .arm w =>
    if s.schedules w = true ∧ s.pc w = .arm then
      some { s.setPc w (.turn 4) with
        armed := Function.update s.armed (s.sys.workerDomain w) true }
    else none
  | .handled w =>
    if s.schedules w = true ∧ s.pc w = .aio then some (s.setPc w (.turn 4)) else none

def initial (workers : Nat) (domainOf : WorkerId → DomainId) : AlertState where
  sys := .initial workers domainOf
  counter _ := 0
  armed _ := true
  owed _ := []
  pc _ := .turn 4
  queuedBy _ := 0

end AlertState

def AlertRun (nrOfWorkers : DomainId → Int) (workers : Nat) (domainOf : WorkerId → DomainId)
    (ok : AlertState → AlertAction → Prop) : AlertState → Prop :=
  Transition.Run (AlertState.step nrOfWorkers) ok (.initial workers domainOf)

end Libtcr
