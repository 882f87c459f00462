import Libtcr.System

/-! `struct tc_rw_lock`: its functions as steps over those of the library. The lock
consists of the mutex `m`, the counter `readers` and the wait queue `wr_wq`. The rest of
the application is arbitrary, except that it does not use the mutex and the wait queue of
the lock itself. -/

set_option autoImplicit false

namespace Libtcr

/-- Where a thread is inside the functions of the lock. The events are those of its
sleeping calls. -/
inductive RwPc where
  | outside
  /-- `tc_rw_r_lock`: in `tc_mutex_lock`. -/
  | rLocking (e : EventId)
  | rLocked
  | rCounted
  /-- `tc_rw_w_lock`: in `tc_mutex_lock`. -/
  | wLocking (e : EventId)
  | wLocked
  | wWaiting (e : EventId)
  | wInterrupted (rv : Rv)
  /-- `tc_rw_w_trylock`: about to read `readers`. -/
  | tLocked
  | tRefused
  /-- `tc_rw_r_unlock`: `readers` has become 0; about to wake a writer. -/
  | rReleased
  /-- `tc_rw_w2r_lock`: about to unlock the mutex. -/
  | wDowngraded
  deriving DecidableEq, Repr

/-- The calls that return a value. `holding`: the caller already holds the write lock. -/
inductive RwCall where
  | rLock
  | wLock
  | wTrylock (holding : Bool)
  deriving DecidableEq, Repr

structure RwState where
  sys : State
  readers : Int
  pc : Tid → RwPc
  -- history: who holds the lock, and what the last call of a thread returned
  readLocks : List Tid
  writing : Tid → Bool
  returned : Tid → Option (RwCall × Rv)

/-- The functions of the lock. `rUnlock` names the thread that took the read lock it
releases, `n` the event object of a call of `tc_mutex_lock`. -/
inductive RwOp where
  | rLock (n : Nat)
  | rUnlock (u : Tid)
  | wLock (n : Nat)
  | wTrylock
  | wUnlock
  | w2rLock
  deriving DecidableEq, Repr

/-- The steps: those of the library and of the rest of the application, the first step of
a function of the lock, and its next one. -/
inductive RwAction where
  | system (a : Action)
  | begin (w : WorkerId) (op : RwOp)
  | next (w : WorkerId) (n : Nat)
  deriving DecidableEq, Repr

def UserOp.usesRwLock (m : MutexId) (k : Nat) : UserOp → Bool
  | .lock _ m' | .trylock m' | .unlock m' => m' == m
  | .wakeupAll k' | .wakeupOne k' | .waitqWait _ k' | .waitEvent _ k' | .waitEventLoop _ k' =>
    k' == k
  | _ => false

def State.current (s : State) (w : WorkerId) : Option Tid :=
  match s.mode w with
  | .thread t => some t
  | _ => none

namespace RwState

def call (s : RwState) (a : Action) (after : State → RwState) : Option RwState :=
  s.sys.call a after fun sys => { s with sys := sys }

/-- What the rest of the application and the scheduler may do. The condition of the wait
on `wr_wq` is that there are no readers. -/
def allows (m : MutexId) (k : Nat) (s : RwState) : Action → Bool
  | .user w op => (s.sys.current w).any (fun t => s.pc t = .outside) && !op.usesRwLock m k
  | .condition w value => (s.sys.current w).any fun t =>
    match s.sys.frames t with
    | f :: _ => if f.call = .cond k then value = decide (s.readers = 0) else s.pc t = .outside
    | [] => false
  | .die w => (s.sys.current w).any fun t => s.pc t = .outside
  | .aio _ k' => k' != k
  | _ => true

def setPc (s : RwState) (t : Tid) (pc : RwPc) : RwState :=
  { s with pc := Function.update s.pc t pc }

def returns (s : RwState) (t : Tid) (call : RwCall) (rv : Rv) : RwState :=
  { s.setPc t .outside with returned := Function.update s.returned t (some (call, rv)) }

def acquire (s : RwState) (t : Tid) (call : RwCall) : RwState :=
  { s.returns t call .ok with writing := Function.update s.writing t true }

def enters (s : RwState) (t : Tid) (pc : RwPc) : RwState :=
  { s.setPc t pc with returned := Function.update s.returned t none }

/-- The next step of thread `t` on worker `w` inside a function of the lock. -/
def nextStep (m : MutexId) (k : Nat) (s : RwState) (w : WorkerId) (t : Tid) (n : Nat) :
    Option RwState :=
  match s.pc t with
  | .outside => none
  | .rLocking e =>
    match s.sys.result e with
    | none => none
    | some .ok => some (s.setPc t .rLocked)
    | some rv => some (s.returns t .rLock rv)
  | .rLocked => some { s.setPc t .rCounted with
      readers := s.readers + 1
      readLocks := t :: s.readLocks }
  | .rCounted => s.call (.user w (.unlock m)) fun sys => { s with sys := sys }.returns t .rLock .ok
  | .wLocking e =>
    match s.sys.result e with
    | none => none
    | some .ok => some (s.setPc t .wLocked)
    | some rv => some (s.returns t .wLock rv)
  | .wLocked => s.call (.user w (.waitEvent n k)) fun sys =>
      { s with sys := sys }.setPc t (.wWaiting (.auto t n))
  | .wWaiting e =>
    match s.sys.result e with
    | none => none
    | some .ok => some (s.acquire t .wLock)
    | some rv => some (s.setPc t (.wInterrupted rv))
  | .wInterrupted rv =>
    s.call (.user w (.unlock m)) fun sys => { s with sys := sys }.returns t .wLock rv
  | .tLocked =>
    if s.readers ≠ 0 then some (s.setPc t .tRefused)
    else some (s.acquire t (.wTrylock false))
  | .tRefused => s.call (.user w (.unlock m)) fun sys =>
      { s with sys := sys }.returns t (.wTrylock false) .failed
  | .rReleased => s.call (.user w (.wakeupOne k)) fun sys => { s with sys := sys }.setPc t .outside
  | .wDowngraded => s.call (.user w (.unlock m)) fun sys => { s with sys := sys }.setPc t .outside

/-- The first step of a function of the lock, called by thread `t` on worker `w`. -/
def beginStep (m : MutexId) (s : RwState) (w : WorkerId) (t : Tid) : RwOp → Option RwState
  | .rLock n => s.call (.user w (.lock n m)) fun sys =>
      { s with sys := sys }.enters t (.rLocking (.auto t n))
  | .rUnlock u =>
    if u ∈ s.readLocks then
      some { s.enters t (if s.readers - 1 = 0 then .rReleased else .outside) with
        readers := s.readers - 1
        readLocks := s.readLocks.erase u }
    else none
  | .wLock n => s.call (.user w (.lock n m)) fun sys =>
      { s with sys := sys }.enters t (.wLocking (.auto t n))
  | .wTrylock => s.call (.user w (.trylock m)) fun sys =>
      if s.sys.owner m = none then { s with sys := sys }.enters t .tLocked
      else { s with sys := sys }.returns t (.wTrylock (s.writing t)) .failed
  | .wUnlock =>
    if s.writing t then s.call (.user w (.unlock m)) fun sys =>
      { { s with sys := sys }.enters t .outside with
        writing := Function.update s.writing t false }
    else none
  | .w2rLock =>
    if s.writing t then some { s.enters t .wDowngraded with
      readers := s.readers + 1
      readLocks := t :: s.readLocks
      writing := Function.update s.writing t false }
    else none

/-- Thread `t` executes code of the application, or of a function of the lock, on `w`. -/
def runs (s : RwState) (w : WorkerId) (t : Tid) : Bool :=
  s.sys.current w = some t && s.sys.fault.isNone && s.sys.inUserCode t

def step (m : MutexId) (k : Nat) (s : RwState) : RwAction → Option RwState
  | .system a =>
    if s.allows m k a then (s.sys.step a).map fun sys => { s with sys := sys } else none
  | .begin w op => (s.sys.current w).bind fun t =>
    if s.runs w t ∧ s.pc t = .outside then s.beginStep m w t op else none
  | .next w n => (s.sys.current w).bind fun t =>
    if s.runs w t then s.nextStep m k w t n else none

def initial (workers : Nat) (domainOf : WorkerId → DomainId) : RwState where
  sys := .initial workers domainOf
  readers := 0
  pc _ := .outside
  readLocks := []
  writing _ := false
  returned _ := none

end RwState

/-- The states that the threads of `workers` workers reach with the lock. -/
def RwReachable (m : MutexId) (k workers : Nat) (domainOf : WorkerId → DomainId) :
    RwState → Prop :=
  Transition.Run (RwState.step m k) Transition.always (.initial workers domainOf)

end Libtcr
