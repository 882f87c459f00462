import Libtcr.System

/-! Switching between coroutines, one access at a time. `_switch_to` takes the spinlock
`running` of the coroutine it enters, `cr_call` notes the caller and changes
`__cr_current`, and what the coroutine entered executes first, at the end of `_switch_to`,
at the start of `scheduler_part2` or in `tc_setup`, releases the spinlock of
`cr_caller()`. The steps `enter`, `leave` and `free` of the library are made of these. -/

set_option autoImplicit false

namespace Libtcr

/-- The coroutines: those of the threads, and `sched_p2` of every worker. -/
inductive Cr where
  | thread (t : Tid)
  | sched (w : WorkerId)
  deriving DecidableEq, Repr

inductive SwitchPc where
  | ready
  | locked
  /-- In the coroutine entered, about to release the spinlock of the one left. -/
  | called
  deriving DecidableEq, Repr

structure CrState where
  sys : State
  /-- The spinlock `running`. -/
  lock : Cr → Bool
  current : WorkerId → Option Cr
  caller : Cr → Option Cr
  pc : WorkerId → SwitchPc
  -- history: the coroutine a worker has left last, the threads that `tc_thread_free` has
  -- destroyed, and how often `run_or_queue` has selected a thread since `tc_scheduler`
  -- cleared its `TF_RUNNING`
  left : WorkerId → Option Cr
  destroyed : Tid → Bool
  selected : Tid → Nat

inductive CrAction where
  | system (a : Action)
  | acquire (w : WorkerId)
  | call (w : WorkerId)
  | release (w : WorkerId)
  | free (w : WorkerId)
  deriving DecidableEq, Repr

/-- The steps that are made of the steps of a switch. -/
def Action.switches : Action → Bool
  | .enter _ | .leave _ | .free _ => true
  | _ => false

namespace CrState

/-- The coroutine that worker `w` is switching to, and the step of the library that this
completes. -/
def target (s : CrState) (w : WorkerId) : Option (Cr × Action) :=
  match s.sys.mode w with
  | .enter t => some (.thread t, .enter w)
  | .leave _ => some (.sched w, .leave w)
  | _ => none

/-- `run_or_queue` has returned a thread to switch to, or `tc_scheduler` has cleared
`TF_RUNNING`. -/
def count (s : CrState) (a : Action) (sys : State) : Tid → Nat :=
  match a with
  | .runImmediate w _ | .runReported w =>
    match sys.mode w with
    | .enter t => Function.update s.selected t (s.selected t + 1)
    | _ => s.selected
  | .advance w =>
    match s.sys.mode w, sys.mode w with
    | .thread t, .leave _ => Function.update s.selected t 0
    | _, _ => s.selected
  | _ => s.selected

def step (s : CrState) : CrAction → Option CrState
  | .system a =>
    if a.switches then none
    else (s.sys.step a).map fun sys => { s with sys := sys, selected := s.count a sys }
  | .acquire w =>
    match s.target w with
    | some (c, _) =>
      if s.sys.fault = none ∧ s.pc w = .ready ∧ s.lock c = false then
        some { s with
          lock := Function.update s.lock c true
          pc := Function.update s.pc w .locked }
      else none
    | none => none
  | .call w =>
    match s.target w with
    | some (c, _) =>
      if s.sys.fault = none ∧ s.pc w = .locked then
        some { s with
          caller := Function.update s.caller c (s.current w)
          left := Function.update s.left w (s.current w)
          current := Function.update s.current w (some c)
          pc := Function.update s.pc w .called }
      else none
    | none => none
  | .release w =>
    match s.target w, (s.current w).bind s.caller with
    | some (_, a), some previous =>
      if s.pc w = .called then
        (s.sys.step a).map fun sys => { s with
          sys := sys
          lock := Function.update s.lock previous false
          pc := Function.update s.pc w .ready }
      else none
    | _, _ => none
  | .free w =>
    match s.sys.mode w with
    | .free t =>
      if s.lock (.thread t) then none
      else (s.sys.step (.free w)).map fun sys =>
        -- The process may end in tc_waitq_unregister.
        if sys.fault = none then { s with
          sys := sys
          lock := Function.update s.lock (.thread t) true
          destroyed := Function.update s.destroyed t true }
        else { s with sys := sys }
    | _ => none

/-- Every worker executes its main thread, whose spinlock it holds. -/
def initial (workers : Nat) (domainOf : WorkerId → DomainId) : CrState where
  sys := .initial workers domainOf
  lock c := match c with
    | .thread t => decide (t < workers)
    | .sched _ => false
  current w := if w < workers then some (.thread w) else none
  caller _ := none
  pc _ := .ready
  left _ := none
  destroyed _ := false
  selected _ := 0

/-- Worker `w` has taken the spinlock of thread `t` to enter it, executes it, or has not
yet released the spinlock after leaving it. A worker that has ended stays in the main
thread it has ended in. -/
def Occupies (s : CrState) (w : WorkerId) (t : Tid) : Prop :=
  s.sys.mode w = .enter t ∧ s.pc w ≠ .ready ∨ s.sys.mode w = .thread t ∨ s.sys.mode w = .leave t ∨
    s.sys.mode w = .off ∧ s.current w = some (.thread t)

end CrState

def CrReachable (workers : Nat) (domainOf : WorkerId → DomainId) : CrState → Prop :=
  Transition.Run CrState.step Transition.always (.initial workers domainOf)

end Libtcr
