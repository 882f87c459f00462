import Libtcr.State
import Libtcr.Lib.LockMachine

/-! The spin locks of `threaded_cr.c`, and in which order its functions take them. A function is
given by the locks that it takes and releases; between them it looks at the lists on which the
events are, which decides in `remove_event`, `remove_event_holding_locks` and `run_or_queue` what it
takes next. What else it looks at is left open: there the function may go on either way. No function
sleeps or switches to another thread with one of these locks, so that a worker begins each of them
without any. Not modelled are the lock `running` of a thread and `tc_signal_destroy`. -/

set_option autoImplicit false

namespace Libtcr

open LockMachine (Cmd)

/-- An object of type `struct event`: the member `e` of a thread, the automatic variable of
`tc_sched_yield`, of `_tc_wait_fd` and of a call that waits on a wait queue, and the member of a
subscription. The last three come with the list on which they are queued first. -/
inductive EventObject where
  | self (t : Tid)
  | yield (t : Tid) (n : Nat)
  | fd (t : Tid) (n : Nat) (f : FdId)
  | wait (t : Tid) (n : Nat) (wq : Waitq)
  | sub (t : Tid) (n : Nat) (g : SignalId)
  deriving DecidableEq, Repr

namespace EventObject

def owner : EventObject → Tid
  | .self t | .yield t _ | .fd t _ _ | .wait t _ _ | .sub t _ _ => t

def home : EventObject → EventList
  | .self _ | .yield _ _ => .immediate
  | .fd _ _ f => .fd f
  | .wait _ _ wq => .waiters wq
  | .sub _ _ g => .waiters (.signal g)

end EventObject

inductive SpinLock where
  | domain (d : DomainId)
  | timer (d : DomainId)
  | sync (d : DomainId)
  | workerList (d : DomainId)
  | list (el : EventList)
  deriving DecidableEq, Repr

inductive LockClass where
  | domain
  | timer
  | fd
  | immediate
  | pending
  | waiters
  | sync
  | workerList
  deriving DecidableEq, Repr

def SpinLock.lockClass : SpinLock → LockClass
  | .domain _ => .domain
  | .timer _ => .timer
  | .sync _ => .sync
  | .workerList _ => .workerList
  | .list .immediate => .immediate
  | .list (.pending _) => .pending
  | .list (.waiters _) => .waiters
  | .list (.fd _) => .fd

/-- The order in which locks of different classes are taken. -/
def LockClass.rank : LockClass → Nat
  | .domain => 0
  | .timer => 1
  | .fd => 2
  | .immediate => 3
  | .pending => 4
  | .waiters => 5
  | .sync => 6
  | .workerList => 7

/-- What the functions do between their lock operations. -/
inductive LockInstr where
  | add (e : EventObject) (el : EventList)
  /-- `_add_event` in `add_event_fd`, unless the fd is dead or cannot be armed. -/
  | addArmed (t : Tid) (n : Nat) (f : FdId)
  | move (e : EventObject) (el : EventList)
  | removeEvent (e : EventObject)
  /-- `remove_event` has locked `el`. -/
  | recheck (e : EventObject) (el : EventList)
  | removeHolding (e : EventObject) (els : List EventList)
  | runOrQueue (e : EventObject)
  | deliver (e : EventObject)
  | search
  /-- `run_or_queue` has returned to `_run_immediate`. -/
  | found
  | resume (t : Tid)
  | wakeOne (wq : Waitq)
  | wakeAll (wq : Waitq)
  /-- `wakeup_all_events` and `matching_event` in `scheduler_part2`. -/
  | matching (f : FdId)
  | valid (t : Tid) (n : Nat) (u : Tid)
  /-- `tc_waitq_finish_wait` holds its locks; `worker->woken_by_event` is `.sub t m g`. -/
  | finish (t : Tid) (n : Nat) (wq : Waitq) (m : Nat) (g : SignalId)
  /-- The loops of `signal_cancel_pending`. -/
  | cancel (t : Tid) (el : EventList)
  | newMaster
  | sleepers
  deriving DecidableEq, Repr

/-- What the model leaves open. -/
inductive LockChoice where
  | no
  | yes
  | again
  | event (e : EventObject)
  | last (e : EventObject)
  | queue (wq : Waitq)
  deriving DecidableEq, Repr

abbrev LockCmd := Cmd SpinLock LockInstr

def critical (l : SpinLock) : List LockCmd := [.lock l, .unlock l]

def tcWaitqWakeupAllLocks (wq : Waitq) : List LockCmd :=
  [.lock (.list .immediate), .lock (.list (.waiters wq)), .run (.wakeAll wq),
    .unlock (.list (.waiters wq)), .unlock (.list .immediate)]

def tcWaitqWakeupOneOwnerLocks (wq : Waitq) : List LockCmd :=
  [.lock (.list .immediate), .lock (.list (.waiters wq)), .run (.wakeOne wq),
    .unlock (.list (.waiters wq)), .unlock (.list .immediate)]

def prepareToWaitLocks (wq : Waitq) (e : EventObject) : List LockCmd :=
  [.lock (.list (.pending e.owner)), .lock (.list (.waiters wq)), .run (.add e (.waiters wq)),
    .unlock (.list (.waiters wq)), .unlock (.list (.pending e.owner))]

def runOrQueueLocks (e : EventObject) : List LockCmd :=
  match e with
  | .sub t _ g =>
    [.lock (.list (.pending t)), .lock (.list (.waiters (.signal g))), .run (.deliver e),
      .unlock (.list (.waiters (.signal g))), .unlock (.list (.pending t))]
  | _ => [.lock (.list (.pending e.owner)), .run (.deliver e), .unlock (.list (.pending e.owner))]

abbrev EventPlaces := EventObject → Option EventList

namespace EventPlaces

/-- `_add_event` ends the process if the event is on a list. -/
def add (d : EventPlaces) (e : EventObject) (el : EventList) : Option EventPlaces :=
  if d e = none then some (Function.update d e (some el)) else none

/-- `move_event` asserts that the event is on another list. -/
def move (d : EventPlaces) (e : EventObject) (el : EventList) : Option EventPlaces :=
  match d e with
  | some el' => if el' = el then none else some (Function.update d e (some el))
  | none => none

def remove (d : EventPlaces) (e : EventObject) (el : EventList) : Option EventPlaces :=
  if d e = some el then some (Function.update d e none) else none

def wakeAll (d : EventPlaces) (wq : Waitq) : EventPlaces := fun e =>
  if d e = some (.waiters wq) then some .immediate else d e

end EventPlaces

def LockInstr.exec (d : EventPlaces) : LockInstr → LockChoice → Option (EventPlaces × List LockCmd)
  | .add e el, _ => (d.add e el).map (·, [])
  | .addArmed t n f, .yes => (d.add (.fd t n f) (.fd f)).map (·, [])
  | .addArmed _ _ _, .no => some (d, [])
  | .move e el, _ => (d.move e el).map (·, [])
  | .removeEvent e, _ =>
    match d e with
    | none => some (d, [.run (.removeEvent e)])
    | some el => some (d, [.lock (.list el), .run (.recheck e el)])
  | .recheck e el, _ =>
    if d e = some el then some (Function.update d e none, [.unlock (.list el)])
    else some (d, [.unlock (.list el), .run (.removeEvent e)])
  | .removeHolding e els, _ =>
    match d e with
    | none => some (d, [])
    | some el =>
      if el ∈ els then some (Function.update d e none, []) else some (d, [.run (.removeEvent e)])
  -- EF_EXITING
  | .runOrQueue (.self t), .yes => (d.remove (.self t) .immediate).map (·, [])
  | .runOrQueue e, _ => if d e = none then none else some (d, runOrQueueLocks e)
  -- the thread runs, or waits for another event
  | .deliver e, .no => (d.move e (.pending e.owner)).map (·, [])
  | .deliver (.sub t n g), .yes => (d.move (.sub t n g) (.waiters (.signal g))).map (·, [])
  | .deliver e, .yes => if d e = none then none else some (Function.update d e none, [])
  | .search, .no => some (d, [])
  | .search, .event e =>
    if d e = some .immediate then some (d, [.run (.runOrQueue e), .run .found]) else none
  -- queued; to be freed; to be switched to
  | .found, .no => some (d, [.run .search])
  | .found, .again =>
    some (d, [.unlock (.list .immediate), .lock (.list .immediate), .run .search])
  | .found, .yes => some (d, [])
  | .resume _, .no => some (d, [])
  | .resume t, .event (.sub u n g) =>
    if d (.sub u n g) = some (.pending t) then
      some (d, [.lock (.list (.waiters (.signal g))), .run (.move (.sub u n g) (.waiters (.signal g))),
        .unlock (.list (.waiters (.signal g)))])
    else none
  | .resume t, .event e => (d.remove e (.pending t)).map (·, [])
  | .wakeOne _, .no => some (d, [])
  | .wakeOne wq, .event e =>
    if d e = some (.waiters wq) then some (Function.update d e (some .immediate), []) else none
  | .wakeAll wq, _ => some (d.wakeAll wq, [])
  | .matching _, .no => some (d, [])
  | .matching f, .event e =>
    if d e = some (.fd f) then
      some (d, [.lock (.list .immediate), .run (.move e .immediate), .unlock (.list .immediate),
        .run (.matching f)])
    else none
  | .matching f, .last e =>
    if d e = some (.fd f) then some (d, [.run (.runOrQueue e)]) else none
  | .valid _ _ _, .no => some (d, [])
  | .valid t n u, .yes => some (d, prepareToWaitLocks (.exit u) (.wait t n (.exit u)))
  | .finish t n wq _ _, .yes =>
    some (d, [.run (.removeHolding (.wait t n wq) [.pending t, .immediate])])
  | .finish t n wq m g, .no =>
    let wasActive := d (.wait t n wq) = some (.pending t) ∨ d (.wait t n wq) = some .immediate
    some (d, .run (.removeHolding (.wait t n wq) [.pending t, .immediate]) ::
      if wasActive then
        [.run (.removeHolding (.sub t m g) [.pending t, .immediate]), .run (.add (.sub t m g) (.pending t))]
      else [])
  | .cancel _ _, .no => some (d, [])
  | .cancel t el, .event (.sub u n g) =>
    if u = t then
      (d.remove (.sub u n g) el).map (·, critical (.list (.waiters (.signal g))) ++ [.run (.cancel t el)])
    else none
  | .newMaster, .no => some (d, [])
  | .newMaster, .queue wq => some (d, tcWaitqWakeupAllLocks wq)
  | .sleepers, .no => some (d, [])
  | .sleepers, .queue wq => some (d, tcWaitqWakeupAllLocks wq ++ [.run .sleepers])
  | _, _ => none

/-- The functions that take spin locks, and the parts of functions between which no lock is held. -/
inductive LockOp where
  | addEventFd (t : Tid) (n : Nat) (f : FdId)
  | addEventCr (e : EventObject)
  | tcEventOnTcStack (t : Tid)
  | removeEvent (e : EventObject)
  | runImmediate
  | tcScheduler (t : Tid)
  | handleReport (f : FdId)
  | tcRearm (f : FdId)
  | tcFdUnregister (f : FdId)
  | workerPrepareSleep (d : DomainId)
  | workerAfterSleep (d : DomainId)
  | storeForLaterFree (d : DomainId)
  | tcWorkerInit (d : DomainId)
  | tcReniceDomain (d : DomainId)
  | tcThreadInsert (d : DomainId)
  | poolInsert (d : DomainId)
  | poolFirst (d : DomainId)
  | dieUnlink (d : DomainId)
  | tcThreadWaitRef (t : Tid) (n : Nat) (u : Tid) (d : DomainId)
  | prepareToWait (t : Tid) (n : Nat) (wq : Waitq)
  | finishWait (t : Tid) (n : Nat) (wq : Waitq) (m : Nat) (g : SignalId)
  | wakeupOneOwner (wq : Waitq)
  | wakeupAll (wq : Waitq)
  | subscribe (t : Tid) (n : Nat) (g : SignalId)
  /-- With the signal that the subscription was made on. -/
  | unsubscribe (t : Tid) (n : Nat) (g : SignalId)
  | signalCancelPending (t : Tid)
  | insertIntoTimerList (d : DomainId)
  | reprogram (d : DomainId)
  | wakeSleepers (d : DomainId)
  | removeFromTimerListWakeup (d : DomainId)
  deriving DecidableEq, Repr

def LockOp.body : LockOp → List LockCmd
  | .addEventFd t n f =>
    [.lock (.list (.fd f)), .run (.addArmed t n f), .unlock (.list (.fd f))]
  | .addEventCr e =>
    [.lock (.list .immediate), .run (.add e .immediate), .unlock (.list .immediate)]
  | .tcEventOnTcStack t => critical (.list (.pending t))
  | .removeEvent e => [.run (.removeEvent e)]
  | .runImmediate => [.lock (.list .immediate), .run .search, .unlock (.list .immediate)]
  | .tcScheduler t =>
    [.lock (.list (.pending t)), .run (.resume t), .unlock (.list (.pending t))]
  | .handleReport f => [.lock (.list (.fd f)), .run (.matching f), .unlock (.list (.fd f))]
  | .tcRearm f | .tcFdUnregister f => critical (.list (.fd f))
  | .workerPrepareSleep d | .workerAfterSleep d | .storeForLaterFree d => critical (.sync d)
  | .tcWorkerInit d | .tcReniceDomain d => critical (.workerList d)
  | .tcThreadInsert d | .poolInsert d | .poolFirst d | .dieUnlink d => critical (.domain d)
  | .tcThreadWaitRef t n u d => [.lock (.domain d), .run (.valid t n u), .unlock (.domain d)]
  | .prepareToWait t n wq => prepareToWaitLocks wq (.wait t n wq)
  | .finishWait t n wq m g =>
    [.lock (.list .immediate), .lock (.list (.pending t)), .run (.finish t n wq m g),
      .unlock (.list (.pending t)), .unlock (.list .immediate)]
  | .wakeupOneOwner wq => tcWaitqWakeupOneOwnerLocks wq
  | .wakeupAll wq => tcWaitqWakeupAllLocks wq
  | .subscribe t n g =>
    prepareToWaitLocks (.signal g) (.sub t n g) ++ critical (.list (.waiters (.signal g)))
  | .unsubscribe t n g =>
    [.lock (.list .immediate), .lock (.list (.pending t)), .lock (.list (.waiters (.signal g))),
      .run (.removeHolding (.sub t n g) [.waiters (.signal g), .pending t, .immediate]),
      .unlock (.list (.waiters (.signal g))), .unlock (.list (.pending t)), .unlock (.list .immediate)]
  | .signalCancelPending t =>
    [.lock (.list .immediate), .run (.cancel t .immediate), .unlock (.list .immediate),
      .lock (.list (.pending t)), .run (.cancel t (.pending t)), .unlock (.list (.pending t))]
  | .insertIntoTimerList d | .reprogram d => critical (.timer d)
  | .wakeSleepers d => [.lock (.timer d), .run .sleepers, .unlock (.timer d)]
  | .removeFromTimerListWakeup d => [.lock (.timer d), .run .newMaster, .unlock (.timer d)]

def lockProgram : LockMachine.Program SpinLock EventPlaces LockInstr LockOp LockChoice where
  body := LockOp.body
  exec := LockInstr.exec

abbrev SpinState := LockMachine.State WorkerId SpinLock EventPlaces LockInstr

def SpinState.initial : SpinState where
  data _ := none
  holder _ := none
  code _ := []
  held _ := []

/-- The states that any number of workers reach that execute these functions. -/
def SpinReachable : SpinState → Prop :=
  Transition.Run (LockMachine.step lockProgram) Transition.always SpinState.initial

end Libtcr
