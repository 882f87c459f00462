import Libtcr.Scheduler
import Libtcr.Lib.Transition

/-! The library as a transition system. A step is one critical section, one
compare-and-swap or one unprotected access of one worker. The application is
arbitrary: at every point where code of the application runs, which includes the
conditions of `tc_waitq_wait_event`, any call of the library may follow. So the
functions built from the sleeping primitives (`tc_sleep`, the reader/writer locks,
the aio calls) are among the behaviours of the application. -/

set_option autoImplicit false

namespace Libtcr

/-- A call of the library by the running thread. The number `n` names the event
object of the call; `ctl` is the result of `epoll_ctl`. -/
inductive UserOp where
  | wakeupAll (k : Nat)
  | wakeupOne (k : Nat)
  | fire (g : SignalId)
  | subscribe (g : SignalId) (n : Nat)
  | unsubscribe (u : Tid) (n : Nat)
  | trylock (m : MutexId)
  | unlock (m : MutexId)
  | threadNew (u : Tid) (d : DomainId) (nr : Int) (affine : Bool)
  | threadPost (u : Tid)
  | rearm (f : FdId)
  | unregisterFd (f : FdId)
  | yield (n : Nat)
  | waitFd (n : Nat) (f : FdId) (mask : Mask) (priority : Bool) (ctl : Bool)
  | waitqWait (n : Nat) (k : Nat)
  | threadWait (n : Nat) (u : Tid) (d : DomainId) (id : BitVec 32)
  | waitEvent (n : Nat) (k : Nat)
  | waitEventLoop (n : Nat) (k : Nat)
  | lock (n : Nat) (m : MutexId)
  | dieUnlink
  | exitMain
  deriving DecidableEq, Repr

/-- The steps of worker `w`. -/
inductive Action where
  | runImmediate (w : WorkerId) (scan : State.Scan)
  | report (w : WorkerId) (f : FdId) (em : Mask)
  | runReported (w : WorkerId)
  | enter (w : WorkerId)
  | leave (w : WorkerId)
  | free (w : WorkerId)
  | aio (w : WorkerId) (k : Nat)
  | user (w : WorkerId) (op : UserOp)
  | condition (w : WorkerId) (value : Bool)
  | advance (w : WorkerId)
  | die (w : WorkerId)
  deriving DecidableEq, Repr

def Action.worker : Action → WorkerId
  | .runImmediate w _ | .report w _ _ | .runReported w | .enter w | .leave w | .free w | .aio w _
  | .user w _ | .condition w _ | .advance w | .die w => w

def Action.makes : Action → Bool
  | .user _ (.threadNew _ _ _ _) | .user _ (.threadPost _) => true
  | _ => false

namespace State

/-- The running thread executes code of the application. -/
def inUserCode (s : State) (t : Tid) : Bool :=
  (s.status t = .alive || s.status t = .unlinked) &&
    match s.frames t with
    | [] => true
    | f :: _ => f.inCondition

def pushFrame (s : State) (t : Tid) (call : Call) (e : EventId) (pc : Pc)
    (saved : Option EventId) : State :=
  { s with frames := Function.update s.frames t (⟨call, e, pc, saved⟩ :: s.frames t) }

def endEvent (s : State) (e : EventId) (rv : Rv) : State :=
  { s with
    life := Function.update s.life e .dead
    result := Function.update s.result e (some rv) }

def returnCall (s : State) (t : Tid) (f : Frame) (rv : Rv) : State :=
  { s.endEvent f.e rv with
    frames := Function.update s.frames t (s.frames t).tail
    held := match f.call, rv with
      | .mutex m, .ok => Function.update s.held t (Function.update (s.held t) m true)
      | _, _ => s.held }

/-- Return `RV_INTR` because of the event `cause`. -/
def returnIntr (s : State) (t : Tid) (f : Frame) (cause : Option EventId) : State :=
  { s.returnCall t f .intr with
    interrupts := match cause with
      | none => s.interrupts
      | some x => Function.update s.interrupts x (s.interrupts x + 1) }

/-- `tc_sched_yield` after `tc_scheduler`. -/
def yieldWoke (s : State) (w : WorkerId) (t : Tid) (f : Frame) : Option State :=
  let pop (s : State) : State :=
    { s with eventStack := Function.update s.eventStack t (s.nextInStack f.e) }
  if s.wokenByEvent w ≠ some f.e then
    (s.removeEvent f.e).map fun s' => (pop s').returnIntr t f (s'.wokenByEvent w)
  else
    some ((pop { s with wokenByEvent := Function.update s.wokenByEvent w none }).returnCall t f .ok)

/-- `_tc_wait_fd` after `tc_scheduler`. -/
def waitFdWoke (s : State) (w : WorkerId) (t : Tid) (f : Frame) (fd : FdId) : Option State :=
  let s' := { s with
    wokenByEvent := Function.update s.wokenByEvent w none
    eventStack := Function.update s.eventStack t (s.nextInStack f.e)
    fdEpEvents := Function.update s.fdEpEvents fd 0 }
  if s.wokenByEvent w ≠ some f.e then
    (s'.removeEvent f.e).map fun s'' => s''.returnIntr t f (s.wokenByEvent w)
  else some (s'.returnCall t f (if s.errHup fd then .failed else .ok))

/-- A wait-queue call after `tc_scheduler`: `tc_waitq_finish_wait`, and then the
return or, in `__tc_wait_event`, the next turn of the loop. -/
def waitqWoke (s : State) (w : WorkerId) (t : Tid) (f : Frame) (loop : Bool) : Result :=
  match s.tcWaitqFinishWait w t f.e with
  | .error fault => .error fault
  | .ok (true, s') => .ok (s'.returnIntr t f (s.wokenByEvent w))
  | .ok (false, s') =>
    .ok (if loop then s'.setFrame t { f with pc := .prep } else s'.returnCall t f .ok)

/-- `tc_waitq_prepare_to_wait` of a call in the loop of `__tc_wait_event`. -/
def prepareFrame (s : State) (w : WorkerId) (t : Tid) (f : Frame) (wq : Waitq) (next : Pc) :
    Result :=
  match s.tcWaitqPrepareToWait w t f.e wq with
  | .error fault => .error fault
  | .ok s' => .ok (s'.setFrame t { f with pc := next, saved := s.eventStack t })

/-- The next step of the top frame `f` of thread `t`, outside application code. -/
def advanceFrame (s : State) (w : WorkerId) (t : Tid) (f : Frame) : Option Result :=
  match f.pc, f.call with
  | .queued, _ =>
    some (.ok ((s.tcEventOnTcStack f.e t).setFrame t
      { f with pc := .pushed, saved := s.eventStack t }))
  | .pushed, _ => some (s.tcScheduler w t f)
  | .woke, .yield => (s.yieldWoke w t f).map .ok
  | .woke, .fd fd => (s.waitFdWoke w t f fd).map .ok
  | .woke, .waitq _ | .woke, .thread _ => some (s.waitqWoke w t f false)
  | .woke, .cond _ | .woke, .mutex _ => some (s.waitqWoke w t f true)
  | .prep, .cond k => some (s.prepareFrame w t f (.user k) .test)
  | .prep, .mutex m => some (s.prepareFrame w t f (.mutex m) .own)
  | .holds, _ =>
    -- The result of tc_waitq_finish_wait is not looked at.
    match s.tcWaitqFinishWait w t f.e with
    | .error fault => some (.error fault)
    | .ok (_, s') => some (.ok (s'.returnCall t f .ok))
  | .cas0, .mutex m =>
    match s.casOwner m t with
    | some s' => some (.ok (s'.returnCall t f .ok))
    | none => some (.ok (s.setFrame t { f with pc := .own1 }))
  | .own1, .mutex m =>
    if s.owner m = some t then some (.ok (s.returnCall t f .ok))
    else some (.ok (s.setFrame t { f with pc := .cas1 }))
  | .cas1, .mutex m =>
    match s.casOwner m t with
    | some s' => some (.ok (s'.returnCall t f .ok))
    | none => some (.ok (s.setFrame t { f with pc := .prep }))
  | .own, .mutex m =>
    some (.ok (s.setFrame t { f with pc := if s.owner m = some t then .holds else .cas }))
  | .cas, .mutex m =>
    match s.casOwner m t with
    | some s' => some (.ok (s'.setFrame t { f with pc := .holds }))
    | none => some (.ok (s.setFrame t { f with pc := .pushed }))
  | _, _ => none

def conditionFrame (s : State) (t : Tid) (f : Frame) (value : Bool) : Option Result :=
  match f.pc, f.call, value with
  | .test0, .cond _, true => some (.ok (s.returnCall t f .ok))
  | .test0, .cond _, false => some (.ok (s.setFrame t { f with pc := .prep }))
  | .test, .cond _, true => some (.ok (s.setFrame t { f with pc := .holds }))
  | .test, .cond _, false => some (.ok (s.setFrame t { f with pc := .pushed }))
  | _, _, _ => none

/-- The next station of `tc_die` after the thread has been unlinked. -/
def dieStep (s : State) (w : WorkerId) (t : Tid) : Option Result :=
  match s.status t with
  | .unlinked =>
    if s.refcnt t > 0 then
      match s.signalCancelPending t with
      | .error fault => some (.error fault)
      | .ok s' =>
        if s'.refcnt t > 0 then some (.error .refcntLeft)
        else some (.ok { s' with status := Function.update s'.status t .settled })
    else some (.ok { s with status := Function.update s.status t .settled })
  | .settled =>
    some (.ok { s.tcWaitqWakeupAll (.exit t) with
      status := Function.update s.status t .announced })
  | .announced =>
    match s.addEventCr (.self t) .exiting t with
    | .error fault => some (.error fault)
    | .ok s' => some (.ok ({ s' with
        status := Function.update s'.status t .exiting
        mode := Function.update s'.mode w (.leave t) }.iwiImmediate (s'.workerDomain w)))
  | _ => none

/-- `_tc_thread_setup` and `_tc_thread_insert`. -/
def tcThreadNew (s : State) (u : Tid) (d : DomainId) (nr : Int) (affine : Bool) : State :=
  let id := if s.lastThreadId d + 1 = 0 then 1 else s.lastThreadId d + 1
  { s.tcEventInit (.self u) d with
    status := Function.update s.status u .created
    threadDomain := Function.update s.threadDomain u d
    workerNr := Function.update s.workerNr u nr
    affine := Function.update s.affine u affine
    listed := Function.update s.listed u true
    lastThreadId := Function.update s.lastThreadId d id
    threadId := Function.update s.threadId u id }

def userStep (s : State) (w : WorkerId) (t : Tid) (op : UserOp) : Option Result :=
  let unusedAuto (n : Nat) : Prop := s.life (.auto t n) = .unused
  match op with
  | .wakeupAll k => some (.ok (s.tcWaitqWakeupAll (.user k)))
  | .wakeupOne k => some (.ok (s.tcWaitqWakeupOne (.user k)).1)
  | .fire g => some (.ok (s.tcSignalFire g))
  | .subscribe g n =>
    if s.life (.sub t n) = .unused then some (s.tcSignalSubscribe w t (.sub t n) g) else none
  | .unsubscribe u n =>
    if s.life (.sub u n) = .live then some (.ok (s.tcSignalUnsubscribe (.sub u n))) else none
  | .trylock m =>
    match s.casOwner m t with
    | some s' => some (.ok { s' with
        held := Function.update s'.held t (Function.update (s'.held t) m true) })
    | none => some (.ok s)
  | .unlock m => if s.held t m then some (s.tcMutexUnlock t m) else none
  | .threadNew u d nr affine =>
    if s.status u = .unused then some (.ok (s.tcThreadNew u d nr affine)) else none
  | .threadPost u =>
    if s.status u = .created then
      match s.addEventCr (.self u) .ready u with
      | .error fault => some (.error fault)
      | .ok s' => some (.ok ({ s' with
          status := Function.update s'.status u .posted }.iwiImmediate (s'.threadDomain u)))
    else none
  | .rearm f => if s.fdLock f then none else some (.ok (s.arm f))
  | .unregisterFd f => if s.fdLock f then none else some (s.tcFdUnregister f)
  | .yield n =>
    if unusedAuto n then
      match (s.tcEventInit (.auto t n) (s.workerDomain w)).addEventCr (.auto t n) .ready t with
      | .error fault => some (.error fault)
      | .ok s' => some (.ok (s'.pushFrame t .yield (.auto t n) .queued (s.eventStack t)))
    else none
  | .waitFd n f mask priority ctl =>
    if unusedAuto n ∧ s.fdLock f = false then
      match (s.tcEventInit (.auto t n) (s.workerDomain w)).addEventFd t (.auto t n) f
          (mask ||| EPOLLONESHOT) (if priority then .priority else .ready) ctl with
      | .error fault => some (.error fault)
      | .ok (false, s') => some (.ok (s'.endEvent (.auto t n) .failed))
      | .ok (true, s') => some (.ok (s'.pushFrame t (.fd f) (.auto t n) .queued (s.eventStack t)))
    else none
  | .waitqWait n k =>
    if unusedAuto n then
      match (s.tcEventInit (.auto t n) (s.workerDomain w)).tcWaitqPrepareToWait w t (.auto t n)
          (.user k) with
      | .error fault => some (.error fault)
      | .ok s' => some (.ok (s'.pushFrame t (.waitq k) (.auto t n) .pushed (s.eventStack t)))
    else none
  | .threadWait n u d id =>
    if unusedAuto n then
      -- _thread_valid, and the comparison of the id
      if s.listed u ∧ s.threadDomain u = d ∧ (id = 0 ∨ s.threadId u = id) then
        match (s.tcEventInit (.auto t n) (s.workerDomain w)).tcWaitqPrepareToWait w t (.auto t n)
            (.exit u) with
        | .error fault => some (.error fault)
        | .ok s' => some (.ok (s'.pushFrame t (.thread u) (.auto t n) .pushed (s.eventStack t)))
      else some (.ok ((s.tcEventInit (.auto t n) (s.workerDomain w)).endEvent (.auto t n) .threadNa))
    else none
  | .waitEvent n k =>
    if unusedAuto n then
      some (.ok ((s.tcEventInit (.auto t n) (s.workerDomain w)).pushFrame t (.cond k) (.auto t n)
        .test0 (s.eventStack t)))
    else none
  | .waitEventLoop n k =>
    if unusedAuto n then
      some (.ok ((s.tcEventInit (.auto t n) (s.workerDomain w)).pushFrame t (.cond k) (.auto t n)
        .prep (s.eventStack t)))
    else none
  | .lock n m =>
    if unusedAuto n then
      if s.owner m = some t then some (.error .recursiveLock)
      else some (.ok ((s.tcEventInit (.auto t n) (s.workerDomain w)).pushFrame t (.mutex m)
        (.auto t n) .cas0 (s.eventStack t)))
    else none
  | .dieUnlink =>
    if s.frames t = [] ∧ s.status t = .alive ∧ s.listed t then
      some (.ok { s with
        status := Function.update s.status t .unlinked
        listed := Function.update s.listed t false })
    else none
  | .exitMain =>
    if s.frames t = [] ∧ s.status t = .alive ∧ s.listed t = false then
      some (.ok ({ s with mode := Function.update s.mode w .off }.iwiImmediate (s.workerDomain w)))
    else none

/-- What an action does in a state in which the process still runs. -/
def act (s : State) : Action → Option Result
  | .runImmediate w scan =>
    if s.mode w = .sched then some (s.runImmediate w scan) else none
  | .report w f em =>
    if s.mode w = .sched ∧ s.fdLock f = false then some (.ok (s.handleReport w f em)) else none
  | .runReported w =>
    match s.mode w with
    | .report f e => some (s.runReported w f e)
    | _ => none
  | .enter w =>
    match s.mode w with
    | .enter t => if s.runningLock t then none else some (.ok (s.enterThread w t))
    | _ => none
  | .leave w =>
    match s.mode w with
    | .leave t => some (.ok { s with
        runningLock := Function.update s.runningLock t false
        mode := Function.update s.mode w .sched })
    | _ => none
  | .free w =>
    match s.mode w with
    | .free t => if s.runningLock t then none else some (s.tcThreadFree w t)
    | _ => none
  | .aio w k =>
    if s.mode w = .sched then some (.ok (s.tcWaitqWakeupAll (.user k))) else none
  | .user w op =>
    match s.mode w with
    | .thread t => if s.inUserCode t then s.userStep w t op else none
    | _ => none
  | .condition w value =>
    match s.mode w with
    | .thread t =>
      match s.frames t with
      | f :: _ => s.conditionFrame t f value
      | [] => none
    | _ => none
  | .advance w =>
    match s.mode w with
    | .thread t =>
      match s.frames t with
      | f :: _ => s.advanceFrame w t f
      | [] => none
    | _ => none
  | .die w =>
    match s.mode w with
    | .thread t => if s.frames t = [] then s.dieStep w t else none
    | _ => none

/-- One step. A fault ends the process: the state stays as it was, with the fault
noted, and no step follows. -/
def step (s : State) (a : Action) : Option State :=
  if s.fault = none then
    match s.act a with
    | none => none
    | some (.ok s') => some s'
    | some (.error fault) => some { s with fault := some fault }
  else none

/-- A step of the library inside a function that is built on it, whose state is `after` the
step. The process may end in it. -/
def call {σ : Type} (s : State) (a : Action) (after ended : State → σ) : Option σ :=
  match s.act a with
  | none => none
  | some (.ok sys) => some (after sys)
  | some (.error fault) => some (ended { s with fault := some fault })

end State

def Reachable (workers : Nat) (domainOf : WorkerId → DomainId) : State → Prop :=
  Transition.Run State.step Transition.always (.initial workers domainOf)

end Libtcr
