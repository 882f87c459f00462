import Libtcr.System
import Libtcr.Lib.HeadedList

/-! `tc_sleep`: the sleepers of one domain. Each inserts the `struct timer_waiter` on its
stack into the list `timer_list`; the one that gets `timer_mutex` is the master, waits for
`timer_tcfd` and takes those off the list whose time has come. A thread is in at most one
call of `tc_sleep`, so its timer waiter goes by the name of the thread. The steps are those
of the library, and the accesses of `tc_sleep` to the list one by one. -/

set_option autoImplicit false

namespace Libtcr

structure Timespec where
  sec : Int
  nsec : Int
  deriving DecidableEq, Repr

def compareTsTimes (ts1 ts2 : Timespec) : Int :=
  if ts1.sec < ts2.sec then -1
  else if ts1.sec > ts2.sec then 1
  else if ts1.nsec < ts2.nsec then -1
  else if ts1.nsec > ts2.nsec then 1
  else 0

/-- `timer_delta`: `later` is not later than `earlier`. The loop adds whole seconds to a
negative `tv_nsec`. -/
def timerDelta (later earlier : Timespec) : Bool :=
  let sec := later.sec - earlier.sec
  let nsec := later.nsec - earlier.nsec
  let dest : Timespec := if nsec < 0 then ⟨sec + nsec / 10 ^ 9, nsec % 10 ^ 9⟩ else ⟨sec, nsec⟩
  dest.sec < 0 || dest.sec == 0 && dest.nsec ≤ 0

/-- Where a thread is inside `tc_sleep`. The events are those of its sleeping calls. -/
inductive SleepPc where
  | outside
  | yielding (e : EventId)
  | inserting
  /-- In the loop of `insert_into_timer_list`, with `timer_lock`. -/
  | searching (cur prev : Pointer Tid)
  | reprogram
  | inserted
  /-- In `__tc_wait_event`; about to call `waiting_done` when the condition is evaluated. -/
  | waiting (e : EventId)
  /-- `waiting_done` has returned 0; about to call `tc_mutex_trylock`. -/
  | trying (e : EventId)
  /-- The condition has the value `value`. -/
  | decided (e : EventId) (haveLock value : Bool)
  | leaving (e : EventId) (haveLock : Bool)
  | master
  | reprogramming (ts : Timespec)
  | polling
  | fdWaiting (e : EventId)
  | expiring
  /-- In the loop over the threads to wake, with `timer_lock`. -/
  | expire (ts : Timespec) (two : Pointer Tid)
  | unlinked (ts : Timespec) (two : Tid) (two2 : Pointer Tid)
  /-- `two` holds `NOT_ON_TIMERLIST`; about to wake it. -/
  | marked (ts : Timespec) (two : Tid) (two2 : Pointer Tid)
  | quit (haveLock : Bool) (rv : Rv)
  | removing (rv : Rv)
  | removed (rv : Rv)
  deriving DecidableEq, Repr

structure TimerState where
  sys : State
  /-- `timer_list`, and the member `tl` of the timer waiters; `NOT_ON_TIMERLIST` is the mark. -/
  timers : HeadedList Tid
  timerLock : Option Tid
  absEnd : Tid → Timespec
  pc : Tid → SleepPc
  /-- An assertion has failed, or `NULL` or `NOT_ON_TIMERLIST` was followed. -/
  crashed : Bool
  -- history: the timer waiters are numbered as they are inserted
  number : Tid → Nat
  insertions : Nat

/-- The steps: those of the library and of the rest of the application, the call of
`tc_sleep`, and its next step. The call comes with its deadline, a step with the name of the
event of a sleeping call, the time on the clock and the result of `epoll_ctl`. -/
inductive TimerAction where
  | system (a : Action)
  | begin (w : WorkerId) (n : Nat) (absEnd : Timespec)
  | next (w : WorkerId) (n : Nat) (now : Timespec) (ctl : Bool)
  deriving DecidableEq, Repr

def UserOp.usesMutex (m : MutexId) : UserOp → Bool
  | .lock _ m' | .trylock m' | .unlock m' => m' == m
  | _ => false

namespace TimerState

def call (s : TimerState) (a : Action) (after : State → TimerState) : Option TimerState :=
  s.sys.call a after fun sys => { s with sys := sys }

def outside (s : TimerState) (w : WorkerId) : Bool :=
  match s.sys.mode w with
  | .thread t => s.pc t = .outside
  | _ => false

/-- What the scheduler and the rest of the application may do, which has nothing to do with
`timer_mutex`. -/
def allows (m : MutexId) (s : TimerState) : Action → Bool
  | .user w op => s.outside w && !op.usesMutex m
  | .condition w _ | .die w => s.outside w
  | _ => true

def setPc (s : TimerState) (t : Tid) (pc : SleepPc) : TimerState :=
  { s with pc := Function.update s.pc t pc }

def crash (s : TimerState) : TimerState := { s with crashed := true }

def waitingDone (s : TimerState) (t : Tid) (now : Timespec) : Bool :=
  s.timers.next t = .mark || 0 ≤ compareTsTimes now (s.absEnd t)

/-- `timerfd_reprogram_valid`: its result, unless it follows `NULL`. -/
def timerfdReprogramValid (s : TimerState) (ts : Timespec) : Option Bool :=
  match s.timers.first with
  | .node x => some !(timerDelta (s.absEnd x) ts)
  | _ => none

def insert (s : TimerState) (t : Tid) (timers : HeadedList Tid) : TimerState :=
  { s.setPc t .reprogram with
    timers := timers
    number := Function.update s.number t s.insertions
    insertions := s.insertions + 1 }

def nextStep (m : MutexId) (f : FdId) (s : TimerState) (w : WorkerId) (t : Tid) (n : Nat)
    (now : Timespec) (ctl : Bool) : Option TimerState :=
  match s.pc t with
  | .outside => none
  | .yielding e =>
    match s.sys.result e with
    | none => none
    | some .ok => some (s.setPc t .inserting)
    | some rv => some (s.setPc t (.quit false rv))
  | .inserting =>
    if s.timerLock = none then
      some { s.setPc t (.searching s.timers.first .null) with timerLock := some t }
    else none
  | .searching cur prev =>
    match cur with
    | .node x =>
      if compareTsTimes (s.absEnd t) (s.absEnd x) < 0 then
        some (s.insert t (s.timers.insertBefore x t))
      else if s.timers.next x = .node x then some s.crash
      else some (s.setPc t (.searching (s.timers.next x) (.node x)))
    | .null =>
      match prev with
      | .node y => some (s.insert t (s.timers.insertAfter y t))
      | _ => some (s.insert t (s.timers.insertHead t))
    | .mark => some s.crash
  | .reprogram =>
    if s.timers.first = .node t ∧ s.timerfdReprogramValid now = none then some s.crash
    else some { s.setPc t .inserted with timerLock := none }
  | .inserted => s.call (.user w (.waitEventLoop n t)) fun sys =>
      { s with sys := sys }.setPc t (.waiting (.auto t n))
  | .waiting e =>
    match s.sys.result e with
    | some rv => some (s.setPc t (.quit false rv))
    | none =>
      if s.waitingDone t now then some (s.setPc t (.decided e false true))
      else some (s.setPc t (.trying e))
  | .trying e => s.call (.user w (.trylock m)) fun sys =>
      { s with sys := sys }.setPc t (.decided e (s.sys.owner m = none) (s.sys.owner m = none))
  | .decided e haveLock value => s.call (.condition w value) fun sys =>
      { s with sys := sys }.setPc t (if value then .leaving e haveLock else .waiting e)
  | .leaving e haveLock =>
    match s.sys.result e with
    | none => none
    | some rv => some (s.setPc t (if haveLock then .master else .quit false rv))
  | .master =>
    if s.waitingDone t now then some (s.setPc t (.quit true .ok))
    else some (s.setPc t (.reprogramming now))
  | .reprogramming ts =>
    if s.timerLock = none then
      match s.timerfdReprogramValid ts with
      | none => some s.crash
      | some true => some (s.setPc t .polling)
      | some false => some (s.setPc t .expiring)
    else none
  | .polling => s.call (.user w (.waitFd n f EPOLLIN false ctl)) fun sys =>
      { s with sys := sys }.setPc t (.fdWaiting (.auto t n))
  | .fdWaiting e =>
    match s.sys.result e with
    | none => none
    | some .ok => some (s.setPc t .expiring)
    | some rv => some (s.setPc t (.quit true rv))
  | .expiring =>
    if s.timerLock = none then
      some { s.setPc t (.expire now s.timers.first) with timerLock := some t }
    else none
  | .expire ts two =>
    match two with
    | .node x =>
      if compareTsTimes ts (s.absEnd x) < 0 then some { s.setPc t .master with timerLock := none }
      else if s.timers.next x = .node x then some s.crash
      else some { s.setPc t (.unlinked ts x (s.timers.next x)) with timers := s.timers.remove x }
    | .null => some { s.setPc t .master with timerLock := none }
    | .mark => some s.crash
  | .unlinked ts two two2 =>
    some { s.setPc t (.marked ts two two2) with timers := s.timers.store (.next two) .mark }
  | .marked ts two two2 => s.call (.user w (.wakeupAll two)) fun sys =>
      { s with sys := sys }.setPc t (.expire ts two2)
  | .quit true rv => s.call (.user w (.unlock m)) fun sys =>
      { s with sys := sys }.setPc t (.removing rv)
  | .quit false rv => some (s.setPc t (.removing rv))
  | .removing rv =>
    if s.timerLock = none then some { s.setPc t (.removed rv) with
      timerLock := some t
      timers := if s.timers.next t = .mark then s.timers else s.timers.remove t }
    else none
  | .removed _ =>
    match s.timers.first with
    | .node x => s.call (.user w (.wakeupAll x)) fun sys =>
        { { s with sys := sys }.setPc t .outside with timerLock := none }
    | .null => some { s.setPc t .outside with timerLock := none }
    | .mark => some s.crash

/-- `tc_sleep`, called by thread `t` on worker `w`, up to `tc_sched_yield`. -/
def tcSleep (s : TimerState) (w : WorkerId) (t : Tid) (n : Nat) (absEnd : Timespec) :
    Option TimerState :=
  s.call (.user w (.yield n)) fun sys =>
    { { s with sys := sys }.setPc t (.yielding (.auto t n)) with
      absEnd := Function.update s.absEnd t absEnd
      timers := s.timers.store (.next t) .mark }

def step (m : MutexId) (f : FdId) (s : TimerState) : TimerAction → Option TimerState
  | .system a =>
    if s.allows m a then (s.sys.step a).map fun sys => { s with sys := sys } else none
  | .begin w n absEnd =>
    match s.sys.mode w with
    | .thread t =>
      if s.sys.fault = none ∧ s.sys.inUserCode t = true ∧ s.pc t = .outside then
        s.tcSleep w t n absEnd
      else none
    | _ => none
  | .next w n now ctl =>
    match s.sys.mode w with
    | .thread t =>
      if s.sys.fault = none ∧ s.sys.inUserCode t = true ∧ s.crashed = false then
        s.nextStep m f w t n now ctl
      else none
    | _ => none

def initial (workers : Nat) (domainOf : WorkerId → DomainId) : TimerState where
  sys := .initial workers domainOf
  timers := { first := .null, next := fun _ => .null, prev := fun _ => .head }
  timerLock := none
  absEnd _ := ⟨0, 0⟩
  pc _ := .outside
  crashed := false
  number _ := 0
  insertions := 0

end TimerState

/-- The states that are reached with the mutex `m` and the timer `f`. -/
def TimerReachable (m : MutexId) (f : FdId) (workers : Nat) (domainOf : WorkerId → DomainId) :
    TimerState → Prop :=
  Transition.Run (TimerState.step m f) Transition.always (.initial workers domainOf)

end Libtcr
