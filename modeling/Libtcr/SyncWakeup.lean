import Libtcr.DeferredFree

/-! How `store_for_later_free` wakes the sleeping workers: the inner loop of `scheduler_part2`
around `epoll_wait`, and the signal `SIGNAL_FOR_WAKEUP`. -/

set_option autoImplicit false

namespace Libtcr

inductive EpollPc where
  | outside
  | entering
  | waiting
  | interrupted
  deriving DecidableEq, Repr

structure WakeupState where
  sync : SyncState
  epoll : WorkerId → EpollPc
  haveWork : WorkerId → Bool
  /-- The signals `SIGNAL_FOR_WAKEUP` that have been sent to a worker and not yet arrived. -/
  signals : WorkerId → Nat

inductive WakeupAction where
  | sync (a : SyncAction)
  | prepareSleep (w : WorkerId) (haveWork : Bool)
  | epollWait (w : WorkerId)
  /-- `epoll_wait` returns, with a `tc_fd` or with anything else. -/
  | epollReturns (w : WorkerId) (x : Option FdId)
  | arrive (w : WorkerId)
  | otherSignal (w : WorkerId)
  | testSync (w : WorkerId)
  deriving DecidableEq, Repr

namespace WakeupState

def setEpoll (s : WakeupState) (w : WorkerId) (pc : EpollPc) : WakeupState :=
  { s with epoll := Function.update s.epoll w pc }

/-- A step of the domain. `tgkill` is called for every worker whose `must_sync` gets set. -/
def syncStep (s : WakeupState) (a : SyncAction) : Option WakeupState :=
  (s.sync.step a).map fun sync => { s with
    sync := sync
    signals := fun w =>
      if sync.mustSync w && !s.sync.mustSync w then s.signals w + 1 else s.signals w }

/-- The steps of a domain that are not in the loop around `epoll_wait`. -/
def outsideLoop : SyncAction → Bool
  | .prepareSleep _ | .epollWait _ _ => false
  | _ => true

def step (s : WakeupState) : WakeupAction → Option WakeupState
  | .sync a => if outsideLoop a then s.syncStep a else none
  | .prepareSleep w haveWork =>
    (s.syncStep (.prepareSleep w)).map fun s => { s.setEpoll w .entering with
      haveWork := Function.update s.haveWork w haveWork }
  | .epollWait w => if s.epoll w = .entering then some (s.setEpoll w .waiting) else none
  | .epollReturns w x =>
    if s.epoll w = .waiting then
      (s.syncStep (.epollWait w x)).map fun s => s.setEpoll w .outside
    else none
  | .arrive w =>
    if 0 < s.signals w then
      let s := { s with signals := Function.update s.signals w (s.signals w - 1) }
      -- outside of epoll_wait the handler ignore_signal returns, and that is all
      some (if s.epoll w = .waiting then s.setEpoll w .interrupted else s)
    else none
  | .otherSignal w => if s.epoll w = .waiting then some (s.setEpoll w .interrupted) else none
  | .testSync w =>
    if s.epoll w = .interrupted then
      if s.sync.mustSync w then
        (s.syncStep (.epollWait w none)).map fun s => s.setEpoll w .outside
      else some (s.setEpoll w .entering)
    else none

def initial (workers : Nat) : WakeupState where
  sync := .initial workers
  epoll _ := .outside
  haveWork _ := false
  signals _ := 0

/-- Worker `w` has to synchronise and is blocked in `epoll_wait`, with no signal on its way. -/
def SleepsThrough (s : WakeupState) (w : WorkerId) : Prop :=
  s.sync.mustSync w = true ∧ s.epoll w = .waiting ∧ s.haveWork w = false ∧ s.signals w = 0

end WakeupState

def WakeupRun (workers : Nat) (ok : WakeupState → WakeupAction → Prop) : WakeupState → Prop :=
  Transition.Run WakeupState.step ok (.initial workers)

end Libtcr
