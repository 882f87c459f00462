import Libtcr.Lib.IntrusiveLists

/-! The data of `threaded_cr.h` and `threaded_cr.c` that the event machinery
works on. The structures of the source are kept as functions from object
identities to field values, one function for each field. An object is identified
for its whole life: an identity is never given to a second object, so that an
access to memory whose life has ended shows as an access to a `dead` object. -/

set_option autoImplicit false

namespace Libtcr

abbrev Tid := Nat
abbrev WorkerId := Nat
abbrev DomainId := Nat
abbrev FdId := Nat
abbrev MutexId := Nat
abbrev SignalId := Nat

/-- The `__uint32_t` event masks of epoll. -/
abbrev Mask := BitVec 32

def EPOLLIN : Mask := 0x001
def EPOLLOUT : Mask := 0x004
def EPOLLERR : Mask := 0x008
def EPOLLHUP : Mask := 0x010
def EPOLLONESHOT : Mask := 0x40000000

/-- `enum tc_event_flag`. -/
inductive EventFlag where
  | ready
  | exiting
  | signal
  | priority
  deriving DecidableEq, Repr

/-- `enum tc_rv`. -/
inductive Rv where
  | ok
  | intr
  | threadNa
  | failed
  deriving DecidableEq, Repr

/-- The objects of type `struct event`: the automatic variable `e` of a sleeping
call, the member `event` of a `struct tc_signal_sub`, and the member `e` of a
`struct tc_thread`. The first two carry the thread that made them. -/
inductive EventId where
  | auto (t : Tid) (n : Nat)
  | sub (t : Tid) (n : Nat)
  | self (t : Tid)
  deriving DecidableEq, Repr

/-- The thread an event is made for. -/
def EventId.owner : EventId → Tid
  | .auto t _ | .sub t _ | .self t => t

/-- The objects of type `struct tc_waitq`: those of the application (and of
`tc_sleep`, `tc_rw_lock` and the aio slots), and those inside a mutex, a signal
and a thread (`exit_waiters`). -/
inductive Waitq where
  | user (n : Nat)
  | mutex (m : MutexId)
  | signal (g : SignalId)
  | exit (t : Tid)
  deriving DecidableEq, Repr

inductive EventList where
  | immediate
  | pending (t : Tid)
  | waiters (wq : Waitq)
  | fd (f : FdId)
  deriving DecidableEq, Repr

/-- The life of an event object. -/
inductive Life where
  | unused
  | live
  | dead
  deriving DecidableEq, Repr

/-- The life of a `struct tc_thread`. `posted`: its start event is queued.
`unlinked`, `settled`, `announced` and `exiting` are the stations of `tc_die`:
off the list of threads, `refcnt` found to be 0, `exit_waiters` woken, and the
`EF_EXITING` event queued. -/
inductive Status where
  | unused
  | created
  | posted
  | alive
  | unlinked
  | settled
  | announced
  | exiting
  | dead
  deriving DecidableEq, Repr

/-- The sleeping primitives, each with the object it waits for. -/
inductive Call where
  | yield
  | fd (f : FdId)
  | waitq (n : Nat)
  | thread (u : Tid)
  | cond (n : Nat)
  | mutex (m : MutexId)
  deriving DecidableEq, Repr

/-- The list on which a sleeping call queues its event. -/
def Call.home : Call → EventList
  | .yield => .immediate
  | .fd f => .fd f
  | .waitq n => .waiters (.user n)
  | .thread u => .waiters (.exit u)
  | .cond n => .waiters (.user n)
  | .mutex m => .waiters (.mutex m)

/-- Where a thread is inside a sleeping call. -/
inductive Pc where
  /-- The event is queued, but not yet on the event stack. -/
  | queued
  | pushed
  | asleep
  | woke
  /-- Evaluating the condition of `tc_waitq_wait_event` for the first time. -/
  | test0
  | prep
  /-- Evaluating the condition inside `__tc_wait_event`. -/
  | test
  /-- The condition was true; about to call `tc_waitq_finish_wait`. -/
  | holds
  /-- The first compare-and-swap of `tc_mutex_lock`. -/
  | cas0
  /-- `m->m_owner == me` in the condition before the loop. -/
  | own1
  /-- The compare-and-swap in the condition before the loop. -/
  | cas1
  /-- `m->m_owner == me` in the condition inside the loop. -/
  | own
  /-- The compare-and-swap in the condition inside the loop. -/
  | cas
  deriving DecidableEq, Repr

/-- The event of the call is on the event stack of its thread. -/
def Pc.onStack : Pc → Bool
  | .pushed | .asleep | .woke | .test | .holds | .own | .cas => true
  | .queued | .test0 | .prep | .cas0 | .own1 | .cas1 => false

/-- One active sleeping call. `saved` is a history variable: the value of
`tc->event_stack` before the call pushed its event. -/
structure Frame where
  call : Call
  e : EventId
  pc : Pc
  saved : Option EventId
  deriving DecidableEq, Repr

/-- The frames in which the thread executes code of the application: the
conditions of `tc_waitq_wait_event`. -/
def Frame.inCondition (f : Frame) : Bool :=
  match f.call, f.pc with
  | .cond _, .test0 | .cond _, .test => true
  | _, _ => false

/-- What a worker executes. `report` holds `tcfd->events.lock` between
`matching_event` and `run_or_queue`; `enter` spins in `_switch_to` for the
coroutine of the thread, `leave` has not yet left it. -/
inductive Mode where
  | off
  | sched
  | report (f : FdId) (e : EventId)
  | enter (t : Tid)
  | thread (t : Tid)
  | leave (t : Tid)
  | free (t : Tid)
  deriving DecidableEq, Repr

/-- The ways in which the process ends: failed assertions, `msg_exit`, and
accesses through a null pointer or to an object whose life has ended. -/
inductive Fault where
  | assertRemoveEvent
  | assertMoveEvent
  | stillOnList
  | notOnList
  | assertDomain
  | nullWokenByEvent
  | assertSignal
  | useAfterFree
  | recursiveLock
  | unlockedMutex
  | refcntLeft
  | exitWaitersLeft
  | fdEventsLeft
  deriving DecidableEq, Repr

structure State where
  -- struct event; `el` is in `lists`
  tc : EventId → Tid
  flags : EventId → EventFlag
  epEvents : EventId → Mask
  tcfd : EventId → Option FdId
  signal : EventId → SignalId
  nextInStack : EventId → Option EventId
  domain : EventId → DomainId
  life : EventId → Life
  -- all struct event_list, and common.immediate_count
  lists : IntrusiveLists EventId EventList
  immediateCount : Int
  -- `IMM < 0` has been printed
  immediateNegative : Bool
  -- struct tc_thread; `running` is TF_RUNNING, `runningLock` the spinlock `running`
  running : Tid → Bool
  affine : Tid → Bool
  eventStack : Tid → Option EventId
  refcnt : Tid → Int
  workerNr : Tid → Int
  threadId : Tid → BitVec 32
  threadDomain : Tid → DomainId
  runningLock : Tid → Bool
  signalsSinceLastQuery : Tid → Int
  listed : Tid → Bool
  status : Tid → Status
  frames : Tid → List Frame
  -- struct worker_struct
  mode : WorkerId → Mode
  wokenByEvent : WorkerId → Option EventId
  wokenByTcfd : WorkerId → Option FdId
  workerDomain : WorkerId → DomainId
  -- struct tc_domain
  lastThreadId : DomainId → BitVec 32
  immediateFd : DomainId → Nat
  -- struct tc_fd; `fdLock` is the lock of its event list
  errHup : FdId → Bool
  fdEpEvents : FdId → Mask
  fdLock : FdId → Bool
  -- struct tc_mutex and struct tc_signal
  owner : MutexId → Option Tid
  sss : SignalId → List EventId
  fault : Option Fault
  -- history: mutexes between a successful lock and the unlock, results of the
  -- sleeping calls, and for every subscription the fires of its signal and the
  -- interruptions it caused
  held : Tid → MutexId → Bool
  result : EventId → Option Rv
  fires : EventId → Nat
  interrupts : EventId → Nat

namespace State

def el (s : State) (e : EventId) : Option EventList := s.lists.el e

/-- The events on a list, first to last. -/
def events (s : State) (k : EventList) : List EventId := s.lists.elems k

end State

/-- Worker `w` has selected thread `t` or executes it. -/
def State.Owns (s : State) (w : WorkerId) (t : Tid) : Prop :=
  s.mode w = .enter t ∨ s.mode w = .thread t

instance (s : State) (w : WorkerId) (t : Tid) : Decidable (s.Owns w t) :=
  inferInstanceAs (Decidable (_ ∨ _))

/-- The state in which `workers` workers have run `tc_worker_init`: each executes
its main thread, which is not on the list of threads of its domain. -/
def State.initial (workers : Nat) (domainOf : WorkerId → DomainId) : State where
  tc := EventId.owner
  flags e := match e with
    | .sub _ _ => .signal
    | _ => .ready
  epEvents _ := 0
  tcfd _ := none
  signal _ := 0
  nextInStack _ := none
  domain e := domainOf e.owner
  life e := match e with
    | .self t => if t < workers then .live else .unused
    | _ => .unused
  lists := .empty
  immediateCount := 0
  immediateNegative := false
  running t := decide (t < workers)
  affine _ := false
  eventStack _ := none
  refcnt _ := 0
  workerNr t := t
  threadId _ := 0
  threadDomain := domainOf
  runningLock t := decide (t < workers)
  signalsSinceLastQuery _ := 0
  listed _ := false
  status t := if t < workers then .alive else .unused
  frames _ := []
  mode w := if w < workers then .thread w else .off
  wokenByEvent _ := none
  wokenByTcfd _ := none
  workerDomain := domainOf
  lastThreadId _ := 0
  immediateFd _ := 0
  errHup _ := false
  fdEpEvents _ := 0
  fdLock _ := false
  owner _ := none
  sss _ := []
  fault := none
  held _ _ := false
  result _ := none
  fires _ := 0
  interrupts _ := 0

end Libtcr
