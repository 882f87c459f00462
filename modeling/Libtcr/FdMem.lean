import Libtcr.System

/-! A `tc_fd` in memory of the application: `tc_register_fd_mem_still_blocking` and
`tc_unregister_fd_mem`. The steps are those of the library. A report begins earlier here, with the
return of `epoll_wait`, and an unregistration with `EPOLL_CTL_DEL`. -/

set_option autoImplicit false

namespace Libtcr

/-- The way of a `tc_fd` through its registration. -/
inductive FdStage where
  | unused
  | registered
  | deleted
  | unregistered
  deriving DecidableEq, Repr

structure FdMemState where
  sys : State
  /-- The workers to which `epoll_wait` has returned a `tc_fd`, and that have not yet locked its
  event list, with the events. -/
  fetched : List (WorkerId × FdId × Mask)
  stage : FdId → FdStage
  /-- The `tc_fd` for which a thread is in `tc_unregister_fd_mem`, after `EPOLL_CTL_DEL`. -/
  deleting : Tid → Option FdId

inductive FdMemAction where
  | system (a : Action)
  | registerFdMem (w : WorkerId) (f : FdId)
  | epollWait (w : WorkerId) (f : FdId) (em : Mask)
  | epollCtlDel (w : WorkerId) (f : FdId)
  deriving DecidableEq, Repr

namespace FdMemState

/-- Worker `w` has no pointer to a `tc_fd` from `epoll_wait`. -/
def empty (s : FdMemState) (w : WorkerId) : Bool := s.fetched.all fun x => x.1 ≠ w

/-- The thread that worker `w` executes is outside `tc_unregister_fd_mem`. -/
def outside (s : FdMemState) (w : WorkerId) : Bool :=
  match s.sys.mode w with
  | .thread t => s.deleting t = none
  | _ => false

def allows (s : FdMemState) : Action → Bool
  | .report w f em => decide ((w, f, em) ∈ s.fetched)
  | .user w (.unregisterFd f) =>
    match s.sys.mode w with
    | .thread t => s.deleting t = some f
    | _ => false
  | .user w _ | .condition w _ | .die w => s.outside w
  | a => s.empty a.worker

def after (s : FdMemState) (sys : State) : Action → FdMemState
  | .report w f em => { s with sys := sys, fetched := s.fetched.erase (w, f, em) }
  | .user w (.unregisterFd f) =>
    match s.sys.mode w with
    | .thread t => { s with
        sys := sys
        stage := Function.update s.stage f .unregistered
        deleting := Function.update s.deleting t none }
    | _ => { s with sys := sys }
  | _ => { s with sys := sys }

def step (s : FdMemState) : FdMemAction → Option FdMemState
  | .system a =>
    if s.sys.fault = none ∧ s.allows a = true then
      s.sys.call a (s.after · a) fun sys => { s with sys := sys }
    else none
  | .registerFdMem w f =>
    if s.outside w ∧ s.stage f = .unused then
      some { s with stage := Function.update s.stage f .registered }
    else none
  | .epollWait w f em =>
    if s.sys.mode w = .sched ∧ s.empty w ∧ s.stage f = .registered then
      some { s with fetched := (w, f, em) :: s.fetched }
    else none
  | .epollCtlDel w f =>
    match s.sys.mode w with
    | .thread t =>
      if s.sys.inUserCode t = true ∧ s.deleting t = none ∧ s.stage f = .registered then some { s with
        stage := Function.update s.stage f .deleted
        deleting := Function.update s.deleting t (some f) }
      else none
    | _ => none

def initial (workers : Nat) (domainOf : WorkerId → DomainId) : FdMemState where
  sys := .initial workers domainOf
  fetched := []
  stage _ := .unused
  deleting _ := none

/-- No worker is between the return of `epoll_wait` with a `tc_fd` and the end of the handling of
that report, if `tc_unregister_fd_mem` has returned. -/
def Quiescent (s : FdMemState) : Prop :=
  ∀ f, s.stage f = .unregistered → ∀ w,
    (∀ em, (w, f, em) ∉ s.fetched) ∧ ∀ e, s.sys.mode w ≠ .report f e

end FdMemState

def FdMemRun (workers : Nat) (domainOf : WorkerId → DomainId)
    (ok : FdMemState → FdMemAction → Prop) : FdMemState → Prop :=
  Transition.Run FdMemState.step ok (.initial workers domainOf)

end Libtcr
