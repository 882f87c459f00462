import Libtcr.System
import Libtcr.Domains

/-! Thread pools: `tc_thread_pool_new_in_domain` fills the list of a pool, `tc_die` takes a thread
off it, and `tc_thread_pool_wait` waits for the first thread on it until it is empty, with a call of
`tc_sleep` after each. It keeps a pointer to the thread while it does not hold the lock of the
domain, and the memory of a thread that has been freed may be given to the next one. -/

set_option autoImplicit false

namespace Libtcr

/-- Where a thread is in the functions for pools, and in those for a single thread. -/
inductive PoolPc where
  | outside
  | posts (u : Tid)
  /-- At the head of the loop of `tc_thread_pool_new_in_domain`; `n` is
  `domain->nr_of_workers + excess`. -/
  | making (p : PoolId) (i : Nat) (n : Int)
  | linking (p : PoolId) (i : Nat) (n : Int) (u : Tid)
  | posting (p : PoolId) (i : Nat) (n : Int) (u : Tid)
  | looking (p : PoolId) (rv : Rv)
  | joining (p : PoolId) (v : Tid) (rv : Rv)
  | joined (p : PoolId) (e : EventId) (rv : Rv)
  | sleeping (p : PoolId) (rv : Rv)
  | returns (p : PoolId) (rv : Rv)
  /-- In `tc_thread_wait`, with the pointer to `u`. -/
  | waits (u : Tid) (e : EventId)
  | waited (u : Tid)
  deriving DecidableEq, Repr

inductive Maker where
  | threadNew
  | poolNew (p : PoolId)
  deriving DecidableEq, Repr

structure PoolState where
  sys : State
  /-- The memory of a thread, and the thread that was made last in some memory. -/
  address : Tid → Nat
  object : Nat → Option Tid
  -- struct tc_thread_pool; `filled` says that `tc_thread_pool_new_in_domain` has returned
  poolDomain : PoolId → Option DomainId
  list : PoolId → List Tid
  filled : PoolId → Bool
  pc : Tid → PoolPc
  /-- The sleeping calls that were active when `tc_thread_pool_wait` was called. -/
  depth : Tid → Nat
  -- history: who has made a thread, the interruptions of a thread before its call of
  -- tc_thread_pool_wait, and the threads on whose exit_waiters such calls for a pool have queued
  -- their events
  made : Tid → Option Maker
  since : Tid → Nat → Nat
  enqueued : List (PoolId × Tid)

inductive PoolAction where
  | act (a : Action)
  | newRef (w : WorkerId) (u : Tid) (d : DomainId) (address : Nat)
  | poolNew (w : WorkerId) (p : PoolId) (excess : Int) (d : DomainId)
  /-- `_tc_thread_new` makes thread `u` in the memory `address`, or fails. -/
  | make (w : WorkerId) (u : Option Tid) (address : Nat)
  | link (w : WorkerId)
  | post (w : WorkerId)
  | fill (w : WorkerId)
  | poolWait (w : WorkerId) (p : PoolId)
  | look (w : WorkerId)
  | join (w : WorkerId) (n : Nat)
  | joined (w : WorkerId)
  | slept (w : WorkerId)
  | wait (w : WorkerId) (n : Nat) (u : Tid)
  | waited (w : WorkerId)
  | leave (w : WorkerId)
  deriving DecidableEq, Repr

def UserOp.ofSleep : UserOp → Bool
  | .yield _ | .waitEventLoop _ _ | .trylock _ | .unlock _ | .waitFd _ _ _ _ _ | .wakeupAll _ => true
  | _ => false

def PoolPc.sleeps : PoolPc → Bool
  | .sleeping _ _ => true
  | _ => false

def PoolPc.joins : PoolPc → Bool
  | .joined _ _ _ | .waits _ _ => true
  | _ => false

/-- For what a thread calls `tc_thread_wait_domain`. -/
inductive Join where
  | pool (p : PoolId)
  | thread (u : Tid)
  deriving DecidableEq, Repr

/-- For what the thread waits, or has waited. -/
def PoolPc.joinOf : PoolPc → Option Join
  | .joined p _ _ | .returns p _ => some (.pool p)
  | .waits u _ | .waited u => some (.thread u)
  | _ => none

namespace PoolState

def setPc (s : PoolState) (t : Tid) (pc : PoolPc) : PoolState :=
  { s with pc := Function.update s.pc t pc }

/-- The thread that worker `w` executes, outside the library's own functions. -/
def caller (s : PoolState) (w : WorkerId) : Option Tid :=
  match s.sys.mode w with
  | .thread t => if s.sys.fault = none ∧ s.sys.inUserCode t = true then some t else none
  | _ => none

/-- `tc_sleep` makes its calls in the order that its code says; here they may come in any. -/
def allows (s : PoolState) : Action → Bool
  | .user w op =>
    match s.sys.mode w with
    | .thread t => s.pc t = .outside || (s.pc t).sleeps && op.ofSleep
    | _ => false
  | .condition w _ =>
    match s.sys.mode w with
    | .thread t => s.pc t = .outside || (s.pc t).sleeps
    | _ => false
  | .die w =>
    match s.sys.mode w with
    | .thread t => s.pc t = .outside
    | _ => false
  | _ => true

/-- `malloc` may return the address: no thread was made there, or it has been freed. -/
def available (s : PoolState) (address : Nat) : Bool :=
  match s.object address with
  | none => true
  | some v => s.sys.status v = .dead

def tcThreadNew (s : PoolState) (w : WorkerId) (u : Tid) (d : DomainId) (nr : Int) (affine : Bool)
    (address : Nat) (maker : Maker) : Option PoolState :=
  if s.available address then
    (s.sys.step (.user w (.threadNew u d nr affine))).map fun sys => { s with
      sys := sys
      address := Function.update s.address u address
      object := Function.update s.object address (some u)
      made := Function.update s.made u (some maker) }
  else none

/-- The lists after a step: `tc_die` takes the thread off that of its pool. -/
def listAfter (s : PoolState) : Action → PoolId → List Tid
  | .user w .dieUnlink =>
    match s.sys.mode w with
    | .thread t => fun p => (s.list p).filter (· ≠ t)
    | _ => s.list
  | _ => s.list

def makeStep (nrOfWorkers : DomainId → Int) (s : PoolState) (w : WorkerId) (t : Tid) (u : Option Tid)
    (address : Nat) : Option PoolState :=
  match s.pc t with
  | .making p i n =>
    if i < n then
      match s.poolDomain p, u with
      | some d, some u =>
        let bound := decide (i < nrOfWorkers d)
        (s.tcThreadNew w u d (if bound then i else -1) bound address (.poolNew p)).map fun s' =>
          s'.setPc t (.linking p i n u)
      | some _, none => some (s.setPc t (.making p (i + 1) n))
      | none, _ => none
    else none
  | _ => none

/-- The return from `tc_thread_wait_domain`, and the `switch` after it. -/
def joinedStep (s : PoolState) (t : Tid) : Option PoolState :=
  match s.pc t with
  | .joined p e rv =>
    match s.sys.result e with
    | none => none
    | some .intr => some (s.setPc t (.returns p .intr))
    | some .ok => some (s.setPc t (.sleeping p (if rv = .threadNa then .ok else rv)))
    | some .failed => some (s.setPc t (.sleeping p .failed))
    | some .threadNa => some (s.setPc t (.sleeping p rv))
  | _ => none

/-- `tc_thread_wait_domain` with the pointer to `v`: `_thread_valid` looks for what is there now. -/
def threadWaitDomain (s : PoolState) (w : WorkerId) (n : Nat) (v : Tid) (d : DomainId) :
    Option (Tid × State) :=
  match s.object (s.address v) with
  | some u => (s.sys.step (.user w (.threadWait n u d 0))).map fun sys => (u, sys)
  | none => none

/-- One step; `nrOfWorkers` is the field `nr_of_workers` of the domains. -/
def step (nrOfWorkers : DomainId → Int) (s : PoolState) : PoolAction → Option PoolState
  | .act a =>
    if a.makes = false ∧ s.allows a then
      (s.sys.step a).map fun sys => { s with sys := sys, list := s.listAfter a }
    else none
  | .newRef w u d address =>
    (s.caller w).bind fun t =>
      if s.pc t = .outside then
        (s.tcThreadNew w u d (-1) false address .threadNew).map fun s' => s'.setPc t (.posts u)
      else none
  | .poolNew w p excess d =>
    (s.caller w).bind fun t =>
      if s.pc t = .outside ∧ s.poolDomain p = none then
        some { s.setPc t (.making p 0 (nrOfWorkers d + excess)) with
          poolDomain := Function.update s.poolDomain p (some d)
          list := Function.update s.list p [] }
      else none
  | .make w u address => (s.caller w).bind fun t => s.makeStep nrOfWorkers w t u address
  | .link w =>
    (s.caller w).bind fun t =>
      match s.pc t with
      | .linking p i n u => some { s.setPc t (.posting p i n u) with
          list := Function.update s.list p (u :: s.list p) }
      | _ => none
  | .post w =>
    (s.caller w).bind fun t =>
      match s.pc t with
      | .posts u => (s.sys.step (.user w (.threadPost u))).map fun sys =>
          { s with sys := sys }.setPc t .outside
      | .posting p i n u => (s.sys.step (.user w (.threadPost u))).map fun sys =>
          { s with sys := sys }.setPc t (.making p (i + 1) n)
      | _ => none
  | .fill w =>
    (s.caller w).bind fun t =>
      match s.pc t with
      | .making p i n =>
        if i < n then none else some { s.setPc t .outside with
          filled := Function.update s.filled p true }
      | _ => none
  | .poolWait w p =>
    (s.caller w).bind fun t =>
      if s.pc t = .outside ∧ s.filled p = true then
        some { s.setPc t (.looking p .threadNa) with
          depth := Function.update s.depth t (s.sys.frames t).length
          since := Function.update s.since t fun k => s.sys.interrupts (.sub t k) }
      else none
  | .look w =>
    (s.caller w).bind fun t =>
      match s.pc t with
      | .looking p rv =>
        match s.list p with
        | [] => some (s.setPc t (.returns p .ok))
        | v :: _ => some (s.setPc t (.joining p v rv))
      | _ => none
  | .join w n =>
    (s.caller w).bind fun t =>
      match s.pc t with
      | .joining p v rv =>
        (s.poolDomain p).bind fun d => (s.threadWaitDomain w n v d).map fun (u, sys) =>
          { s.setPc t (.joined p (.auto t n) rv) with
            sys := sys
            enqueued :=
              if sys.el (.auto t n) = some (.waiters (.exit u)) then (p, u) :: s.enqueued
              else s.enqueued }
      | _ => none
  | .joined w => (s.caller w).bind s.joinedStep
  | .slept w =>
    (s.caller w).bind fun t =>
      match s.pc t with
      | .sleeping p rv =>
        if (s.sys.frames t).length = s.depth t then some (s.setPc t (.looking p rv)) else none
      | _ => none
  | .wait w n u =>
    -- tc_thread_wait: tc_this_pthread_domain is the domain of the thread
    (s.caller w).bind fun t =>
      if s.pc t = .outside ∧ s.made u ≠ none then
        (s.threadWaitDomain w n u (s.sys.threadDomain t)).map fun (_, sys) =>
          { s.setPc t (.waits u (.auto t n)) with sys := sys }
      else none
  | .waited w =>
    (s.caller w).bind fun t =>
      match s.pc t with
      | .waits u e => if s.sys.result e = none then none else some (s.setPc t (.waited u))
      | _ => none
  | .leave w =>
    (s.caller w).bind fun t =>
      match s.pc t with
      | .returns _ _ | .waited _ => some (s.setPc t .outside)
      | _ => none

def initial (workers : Nat) (domainOf : WorkerId → DomainId) : PoolState where
  sys := .initial workers domainOf
  address _ := 0
  object _ := none
  poolDomain _ := none
  list _ := []
  filled _ := false
  pc _ := .outside
  depth _ := 0
  made _ := none
  since _ _ := 0
  enqueued := []

/-- A sleeping call of the thread that worker `w` executes goes on because of a signal. -/
def signalled (s : PoolState) (w : WorkerId) : Bool :=
  match s.sys.mode w with
  | .thread t =>
    match s.sys.frames t, s.sys.wokenByEvent w with
    | f :: _, some (.sub _ _) => f.pc = .woke
    | _, _ => false
  | _ => false

/-- No sleeping call that `tc_sleep` makes for `tc_thread_pool_wait` is interrupted by a signal. -/
def sleepsOn (s : PoolState) : PoolAction → Bool
  | .act (.advance w) =>
    match s.sys.mode w with
    | .thread t => !((s.pc t).sleeps && s.signalled w)
    | _ => true
  | _ => true

/-- No call of `tc_thread_wait_domain` that belongs to one of the joins `of` is interrupted by a
signal. -/
def joinsOn (of : Tid → Join → Bool) (s : PoolState) : PoolAction → Bool
  | .act (.advance w) =>
    match s.sys.mode w with
    | .thread t => !((s.pc t).joins && (s.pc t).joinOf.any (of t) && s.signalled w)
    | _ => true
  | _ => true

/-- When `tc_thread_pool_wait` calls `tc_thread_wait_domain`, the memory of the thread whose address
it has read has not been given to another one that is on the list of threads of the domain. -/
def readsMember (s : PoolState) : PoolAction → Bool
  | .join w _ =>
    match s.sys.mode w with
    | .thread t =>
      match s.pc t with
      | .joining p v _ =>
        match s.object (s.address v) with
        | some u => u = v || !(s.sys.listed u && s.poolDomain p = some (s.sys.threadDomain u))
        | none => true
      | _ => true
    | _ => true
  | _ => true

end PoolState

def PoolReachable (nrOfWorkers : DomainId → Int) (ok : PoolState → PoolAction → Bool) (workers : Nat)
    (domainOf : WorkerId → DomainId) : PoolState → Prop :=
  Transition.Run (PoolState.step nrOfWorkers) (fun s a => ok s a = true) (.initial workers domainOf)

end Libtcr
