import Libtcr.System

/-! The domains of the pthreads. `tc_this_pthread_domain` is a variable of a worker, and the field
`workerDomain` is its value. The functions that make threads and domains set it to another domain
between `WITH_OTHER_DOMAIN_BEGIN` and `WITH_OTHER_DOMAIN_END`. The domain that `start_pthreads` has
started worker `w` for is `domainOf w`. -/

set_option autoImplicit false

namespace Libtcr

abbrev PoolId := Nat

/-- Where a worker is between `WITH_OTHER_DOMAIN_BEGIN` and `WITH_OTHER_DOMAIN_END`. -/
inductive OtherPc where
  | makeRef
  | postRef (u : Tid)
  /-- At the head of the loop of `tc_thread_pool_new_in_domain`; `n` is
  `domain->nr_of_workers + excess`. -/
  | loop (p : PoolId) (i : Nat) (n : Int)
  | link (p : PoolId) (i : Nat) (n : Int) (u : Tid)
  | post (p : PoolId) (i : Nat) (n : Int) (u : Tid)
  | init (d : DomainId)
  /-- `_setup_domain` is done; `start_pthreads` will follow. -/
  | launch (d : DomainId)
  | finished
  deriving DecidableEq, Repr

structure DomainState where
  sys : State
  /-- `__prev_domain`, and where the worker is. -/
  other : WorkerId → Option (DomainId × OtherPc)
  /-- The domain on whose list of threads `_tc_thread_insert` has put the thread. -/
  insertedIn : Tid → DomainId
  -- struct tc_thread_pool, and the threads on its list
  poolDomain : PoolId → Option DomainId
  threadsChain : Tid → Option PoolId
  fdDomain : FdId → Option DomainId
  launched : DomainId → Bool
  started : WorkerId → Bool

inductive DomainAction where
  | act (a : Action)
  | tcRun (d : DomainId) (timer : FdId)
  | start (w : WorkerId)
  | registerFd (w : WorkerId) (f : FdId)
  | newRefInDomain (w : WorkerId) (d : DomainId)
  | poolNewInDomain (w : WorkerId) (p : PoolId) (excess : Int) (d : DomainId)
  | newDomain (w : WorkerId) (d : DomainId)
  /-- `_tc_thread_new` makes thread `u`, or fails. -/
  | make (w : WorkerId) (u : Option Tid)
  | link (w : WorkerId)
  | post (w : WorkerId)
  | init (w : WorkerId) (timer : FdId)
  | finish (w : WorkerId)
  deriving DecidableEq, Repr

namespace DomainState

/-- The thread that the worker executes may call a function of the library. -/
def calls (s : DomainState) (w : WorkerId) : Bool :=
  s.sys.fault = none && s.started w && s.other w = none &&
    match s.sys.mode w with
    | .thread t => s.sys.inUserCode t
    | _ => false

def withOtherDomainBegin (s : DomainState) (w : WorkerId) (d : DomainId) (pc : OtherPc) : DomainState :=
  { s with
    other := Function.update s.other w (some (s.sys.workerDomain w, pc))
    sys := { s.sys with workerDomain := Function.update s.sys.workerDomain w d } }

def withOtherDomainEnd (s : DomainState) (w : WorkerId) (prev : DomainId) : DomainState :=
  { s with
    other := Function.update s.other w none
    sys := { s.sys with workerDomain := Function.update s.sys.workerDomain w prev } }

def setPc (s : DomainState) (w : WorkerId) (prev : DomainId) (pc : OtherPc) : DomainState :=
  { s with other := Function.update s.other w (some (prev, pc)) }

/-- `_tc_thread_new`, which takes the domain from `tc_this_pthread_domain`. -/
def tcThreadNew (s : DomainState) (w : WorkerId) (u : Tid) (nr : Int) (affine : Bool) :
    Option DomainState :=
  (s.sys.step (.user w (.threadNew u (s.sys.workerDomain w) nr affine))).map fun sys => { s with
    sys := sys
    insertedIn := Function.update s.insertedIn u (s.sys.workerDomain w) }

/-- The list of the pool after a step: `tc_die` takes the thread off. -/
def chainAfter (s : DomainState) (a : Action) : Tid → Option PoolId :=
  match a, s.sys.mode a.worker with
  | .user _ .dieUnlink, .thread t => Function.update s.threadsChain t none
  | _, _ => s.threadsChain

/-- `epoll_wait` returns fds that are registered with the `efd` of the worker. -/
def reports (s : DomainState) : Action → Bool
  | .report w f _ => s.fdDomain f = some (s.sys.workerDomain w)
  | _ => true

/-- One step; `nrOfWorkers` is the field `nr_of_workers` of the domains. -/
def step (nrOfWorkers : DomainId → Int) (domainOf : WorkerId → DomainId) (s : DomainState) :
    DomainAction → Option DomainState
  | .act a =>
    if s.started a.worker ∧ s.other a.worker = none ∧ a.makes = false ∧ s.reports a then
      (s.sys.step a).map fun sys => { s with sys := sys, threadsChain := s.chainAfter a }
    else none
  | .tcRun d timer =>
    -- It initialises common.immediate, on which there must not be events.
    if s.sys.events .immediate = [] ∧ s.launched d = false ∧ s.fdDomain timer = none then
      some { s with
        fdDomain := Function.update s.fdDomain timer (some d)
        launched := Function.update s.launched d true }
    else none
  | .start w =>
    if s.started w = false ∧ s.launched (domainOf w) then some { s with
      sys := { s.sys with workerDomain := Function.update s.sys.workerDomain w (domainOf w) }
      other := Function.update s.other w none
      started := Function.update s.started w true }
    else none
  | .registerFd w f =>
    if s.calls w ∧ s.fdDomain f = none then some { s with
      fdDomain := Function.update s.fdDomain f (some (s.sys.workerDomain w)) }
    else none
  | .newRefInDomain w d => if s.calls w then some (s.withOtherDomainBegin w d .makeRef) else none
  | .poolNewInDomain w p excess d =>
    if s.calls w ∧ s.poolDomain p = none then some { s.withOtherDomainBegin w d
        (.loop p 0 (nrOfWorkers d + excess)) with
      poolDomain := Function.update s.poolDomain p (some d) }
    else none
  | .newDomain w d =>
    if s.calls w ∧ s.launched d = false then some (s.withOtherDomainBegin w d (.init d)) else none
  | .make w u =>
    match s.other w, u with
    | some (prev, .makeRef), some u =>
      (s.tcThreadNew w u (-1) false).map fun s' => s'.setPc w prev (.postRef u)
    | some (prev, .makeRef), none => some (s.setPc w prev .finished)
    | some (prev, .loop p i n), some u =>
      if i < n then
        let bound := decide (i < nrOfWorkers (s.sys.workerDomain w))
        (s.tcThreadNew w u (if bound then i else -1) bound).map fun s' =>
          s'.setPc w prev (.link p i n u)
      else none
    | some (prev, .loop p i n), none =>
      if i < n then some (s.setPc w prev (.loop p (i + 1) n)) else none
    | _, _ => none
  | .link w =>
    match s.other w with
    | some (prev, .link p i n u) => some { s.setPc w prev (.post p i n u) with
        threadsChain := Function.update s.threadsChain u (some p) }
    | _ => none
  | .post w =>
    match s.other w with
    | some (prev, .postRef u) => (s.sys.step (.user w (.threadPost u))).map fun sys =>
        { s with sys := sys }.setPc w prev .finished
    | some (prev, .post p i n u) => (s.sys.step (.user w (.threadPost u))).map fun sys =>
        { s with sys := sys }.setPc w prev (.loop p (i + 1) n)
    | _ => none
  | .init w timer =>
    match s.other w with
    | some (prev, .init d) =>
      if s.fdDomain timer = none then some { s.setPc w prev (.launch d) with
        fdDomain := Function.update s.fdDomain timer (some (s.sys.workerDomain w)) }
      else none
    | _ => none
  | .finish w =>
    match s.other w with
    | some (prev, .finished) => some (s.withOtherDomainEnd w prev)
    | some (prev, .loop _ i n) => if i < n then none else some (s.withOtherDomainEnd w prev)
    | some (prev, .launch d) => some { s.withOtherDomainEnd w prev with
        launched := Function.update s.launched d true }
    | _ => none

def initial (workers : Nat) (domainOf : WorkerId → DomainId) : DomainState where
  sys := .initial workers domainOf
  other _ := none
  insertedIn := domainOf
  poolDomain _ := none
  threadsChain _ := none
  fdDomain _ := none
  launched _ := false
  started _ := false

/-- An fd is waited on only by threads of the domain that has registered it. -/
def waitsAtHome (s : DomainState) : DomainAction → Bool
  | .act (.user w (.waitFd _ f _ _ _)) =>
    match s.sys.mode w with
    | .thread t => s.fdDomain f = some (s.sys.threadDomain t)
    | _ => true
  | _ => true

end DomainState

def DomainReachable (nrOfWorkers : DomainId → Int) (workers : Nat) (domainOf : WorkerId → DomainId) :
    DomainState → Prop :=
  Transition.Run (DomainState.step nrOfWorkers domainOf) (fun s a => s.waitsAtHome a = true)
    (.initial workers domainOf)

end Libtcr
