import Libtcr.State
import Libtcr.Lib.CircularList
import Libtcr.Lib.Transition

/-! The workers of one domain and the `tc_fd`s that `tc_unregister_fd` may not free at once:
a worker that has left `epoll_wait` may still have a pointer to one. A step is a critical
section of `sync_lock`, a system call, or one turn of the loop of `_process_free_list`. -/

set_option autoImplicit false

namespace Libtcr

/-- The objects of type `struct clist_entry`: `sleeping_workers` of the domain, and
`sleeping_chain` of each worker. -/
inductive SleepNode where
  | sleepingWorkers
  | sleepingChain (w : WorkerId)
  deriving DecidableEq, Repr

/-- Where a worker is. `running`: it executes threads, or looks for one to execute. -/
inductive SyncPc where
  | running
  /-- In `tc_unregister_fd`, `EPOLL_CTL_DEL` has returned. -/
  | unregistering (x : FdId)
  | sleeping
  /-- `epoll_wait` has returned the `tc_fd`; before `worker_after_sleep`. -/
  | reported (x : FdId)
  | woken
  | freeing (cur : List FdId)
  deriving DecidableEq, Repr

/-- The way of a `tc_fd` from `tc_register_fd` to `free`, a history variable. -/
inductive Stage where
  | unused
  | registered
  | removed (w : WorkerId)
  | stored
  | taken (w : WorkerId)
  | freed
  deriving DecidableEq, Repr

structure SyncState where
  -- struct tc_domain and struct worker_struct
  workers : Nat
  links : Links SleepNode
  isOnSleepingList : WorkerId → Bool
  mustSync : WorkerId → Bool
  syncBarrier : Int
  freeList : List FdId
  pc : WorkerId → SyncPc
  -- history: the stage of every `tc_fd`, and how often it has been freed
  stage : FdId → Stage
  freed : FdId → Nat

inductive SyncAction where
  | registerFd (w : WorkerId) (x : FdId)
  | unregisterFd (w : WorkerId) (x : FdId)
  | storeForLaterFree (w : WorkerId)
  | prepareSleep (w : WorkerId)
  | epollWait (w : WorkerId) (x : Option FdId)
  | afterSleep (w : WorkerId)
  | free (w : WorkerId)
  deriving DecidableEq, Repr

namespace SyncState

def initial (workers : Nat) : SyncState where
  workers := workers
  links := (⟨fun _ => .sleepingWorkers, fun _ => .sleepingWorkers⟩ : Links SleepNode).init
    .sleepingWorkers
  isOnSleepingList _ := false
  mustSync _ := false
  syncBarrier := 0
  freeList := []
  pc _ := .running
  stage _ := .unused
  freed _ := 0

/-- `_process_free_list` up to the release of the lock. -/
def processFreeList (s : SyncState) (w : WorkerId) : SyncState :=
  { s with
    freeList := []
    pc := Function.update s.pc w (.freeing s.freeList)
    stage := fun x => if x ∈ s.freeList then .taken w else s.stage x }

def workerPrepareSleep (s : SyncState) (w : WorkerId) : SyncState :=
  { s with
    links :=
      if s.isOnSleepingList w then s.links
      else s.links.insertAfter .sleepingWorkers (.sleepingChain w)
    isOnSleepingList := Function.update s.isOnSleepingList w true
    pc := Function.update s.pc w .sleeping }

/-- The part of `worker_after_sleep` before the test of `must_sync`. -/
def leaveSleepers (s : SyncState) (w : WorkerId) : SyncState :=
  if s.isOnSleepingList w then
    { s with
      links := s.links.remove (.sleepingChain w)
      isOnSleepingList := Function.update s.isOnSleepingList w false }
  else s

def workerAfterSleep (s : SyncState) (w : WorkerId) : SyncState :=
  let s := { s.leaveSleepers w with pc := Function.update s.pc w .running }
  if s.mustSync w then
    let s := { s with
      mustSync := Function.update s.mustSync w false
      syncBarrier := s.syncBarrier - 1 }
    if s.syncBarrier = 0 then s.processFreeList w else s
  else s

def markSleeper (s : SyncState) : SleepNode → SyncState
  | .sleepingWorkers => s
  | .sleepingChain w =>
    if s.mustSync w then s
    else { s with
      mustSync := Function.update s.mustSync w true
      syncBarrier := s.syncBarrier + 1
      isOnSleepingList := Function.update s.isOnSleepingList w false }

/-- `store_for_later_free` on the list of sleeping workers. It has no more elements than
there are workers. -/
def markSleepers (s : SyncState) : SyncState :=
  if s.links.isEmpty .sleepingWorkers then s
  else
    { s.links.forEach .sleepingWorkers markSleeper s.workers (s.links.next .sleepingWorkers) s with
      links := s.links.init .sleepingWorkers }

def storeForLaterFree (s : SyncState) (w : WorkerId) (x : FdId) : SyncState :=
  let s := { s with
    freeList := x :: s.freeList
    stage := Function.update s.stage x .stored
    pc := Function.update s.pc w .running }.markSleepers
  if s.syncBarrier ≠ 0 then s else s.processFreeList w

/-- One step of a worker. An event of a `tc_fd` is reported only while it is in the epoll
set. `tc_unregister_fd` is called once for a `tc_fd`. -/
def act (s : SyncState) : SyncAction → Option SyncState
  | .registerFd w x =>
    if s.pc w = .running ∧ s.stage x = .unused then
      some { s with stage := Function.update s.stage x .registered }
    else none
  | .unregisterFd w x =>
    if s.pc w = .running ∧ s.stage x = .registered then
      some { s with
        stage := Function.update s.stage x (.removed w)
        pc := Function.update s.pc w (.unregistering x) }
    else none
  | .storeForLaterFree w =>
    match s.pc w with
    | .unregistering x => some (s.storeForLaterFree w x)
    | _ => none
  | .prepareSleep w => if s.pc w = .running then some (s.workerPrepareSleep w) else none
  | .epollWait w none =>
    if s.pc w = .sleeping then some { s with pc := Function.update s.pc w .woken } else none
  | .epollWait w (some x) =>
    if s.pc w = .sleeping ∧ s.stage x = .registered then
      some { s with pc := Function.update s.pc w (.reported x) }
    else none
  | .afterSleep w =>
    match s.pc w with
    | .woken | .reported _ => some (s.workerAfterSleep w)
    | _ => none
  | .free w =>
    match s.pc w with
    | .freeing [] => some { s with pc := Function.update s.pc w .running }
    | .freeing (x :: rest) =>
      some { s with
        pc := Function.update s.pc w (.freeing rest)
        stage := Function.update s.stage x .freed
        freed := Function.update s.freed x (s.freed x + 1) }
    | _ => none

end SyncState

def SyncAction.worker : SyncAction → WorkerId
  | .registerFd w _ | .unregisterFd w _ | .storeForLaterFree w | .prepareSleep w
  | .epollWait w _ | .afterSleep w | .free w => w

def SyncState.step (s : SyncState) (a : SyncAction) : Option SyncState :=
  if a.worker < s.workers then s.act a else none

def SyncReachable (workers : Nat) : SyncState → Prop :=
  Transition.Run SyncState.step Transition.always (.initial workers)

end Libtcr
