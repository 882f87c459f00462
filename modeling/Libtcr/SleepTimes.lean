import Libtcr.TimerList
import Libtcr.Lib.Binary64

/-! The times of `tc_sleep`: the deadline of a call, the readings of `CLOCK_MONOTONIC`, and what
`timerfd_reprogram_valid` passes to `timerfd_settime`. The steps are those of the sleepers of a
domain. In the source `1e9` is a constant of type `double`. -/

set_option autoImplicit false

namespace Libtcr

def toLong (x : Int) : Int := x.bmod (2 ^ 64)

/-- The loop of `tc_sleep` that carries nanoseconds over to seconds; `none` if it takes more than
`fuel` tests. -/
def carryLoop : Nat → Timespec → Option Timespec
  | 0, _ => none
  | fuel + 1, ts =>
    if 10 ^ 9 < Binary64.round ts.nsec then
      carryLoop fuel
        ⟨toLong (ts.sec + 1), toLong (Binary64.round (Binary64.round ts.nsec - 10 ^ 9))⟩
    else some ts

/-- The deadline of a call of `tc_sleep` whose first reading is `now`. A `long` has fewer than
`2 ^ 34` whole seconds in nanoseconds. -/
def sleepDeadline (now : Timespec) (sec nsec : Int) : Option Timespec :=
  carryLoop (2 ^ 34) ⟨toLong (now.sec + sec), toLong (now.nsec + nsec)⟩

/-- `*dest` after `timer_delta`. -/
def timerDeltaDest (later earlier : Timespec) : Timespec :=
  let sec := later.sec - earlier.sec
  let nsec := later.nsec - earlier.nsec
  if nsec < 0 then ⟨sec + nsec / 10 ^ 9, nsec % 10 ^ 9⟩ else ⟨sec, nsec⟩

/-- The `it_value` of `timerfd_reprogram_valid`, if it calls `timerfd_settime`: the absolute time
if there's enough difference, else the relative one. -/
def itValue (absEnd ts : Timespec) : Option Timespec :=
  if timerDelta absEnd ts then none
  else if 0 < (timerDeltaDest absEnd ts).sec then some absEnd
  else some (timerDeltaDest absEnd ts)

namespace Timespec

/-- The times that the kernel accepts. -/
def valid (ts : Timespec) : Bool := 0 ≤ ts.sec && 0 ≤ ts.nsec && ts.nsec < 10 ^ 9

def total (ts : Timespec) : Int := ts.sec * 10 ^ 9 + ts.nsec

end Timespec

namespace TimerState

def readsClock (s : TimerState) (t : Tid) : Bool :=
  match s.pc t with
  | .reprogram => s.timers.first = .node t
  | .waiting e => s.sys.result e = none && s.timers.next t ≠ .mark
  | .master => s.timers.next t ≠ .mark
  | .expiring => s.timerLock = none
  | _ => false

/-- The `it_value` of the call of `timerfd_settime` in the next step of thread `t`. -/
def settime (s : TimerState) (t : Tid) (now : Timespec) : Option Timespec :=
  match s.pc t with
  | .reprogram => if s.timers.first = .node t then itValue (s.absEnd t) now else none
  | .reprogramming ts =>
    match s.timers.first with
    | .node x => if s.timerLock = none then itValue (s.absEnd x) ts else none
    | _ => none
  | _ => none

end TimerState

structure ClockState where
  base : TimerState
  clock : Timespec
  /-- `timerfd_settime` has failed, and `msg_exit` has ended the process. -/
  exited : Bool
  -- history: the first reading of a call, and its arguments
  first : Tid → Timespec
  asked : Tid → Timespec
  -- history: the arguments of `timerfd_settime`
  programmed : List Timespec

/-- The steps: those of the library and of the rest of the application, the call of `tc_sleep`
with the reading of the clock and its arguments, and its next step. -/
inductive ClockAction where
  | system (a : Action)
  | sleep (w : WorkerId) (n : Nat) (now : Timespec) (sec nsec : Int)
  | next (w : WorkerId) (n : Nat) (now : Timespec) (ctl : Bool)
  deriving DecidableEq, Repr

namespace ClockState

def reads (c : ClockState) (now : Timespec) : Bool :=
  now.valid && c.clock.total ≤ now.total

def isLong (x : Int) : Bool := 0 ≤ x && x < 2 ^ 63

/-- The call of `timerfd_settime` with `value`, if there is one. -/
def program (c : ClockState) : Option Timespec → ClockState
  | none => c
  | some value => { c with
      programmed := value :: c.programmed
      exited := c.exited || !value.valid }

/-- The state after a step of thread `t` to `base`, at the time `now`. -/
def after (c : ClockState) (t : Tid) (now : Timespec) (base : TimerState) : ClockState :=
  { c with
    base := base
    clock := if c.base.readsClock t then now else c.clock }.program (c.base.settime t now)

def step (m : MutexId) (f : FdId) (c : ClockState) : ClockAction → Option ClockState
  | .system a =>
    if c.exited then none
    else (c.base.step m f (.system a)).map fun base => { c with base := base }
  | .sleep w n now sec nsec =>
    match c.base.sys.mode w, sleepDeadline now sec nsec with
    | .thread t, some absEnd =>
      if !c.exited && c.reads now && isLong sec && isLong nsec then
        (c.base.step m f (.begin w n absEnd)).map fun base => { c with
          base := base
          clock := now
          first := Function.update c.first t now
          asked := Function.update c.asked t ⟨sec, nsec⟩ }
      else none
    | _, _ => none
  | .next w n now ctl =>
    match c.base.sys.mode w with
    | .thread t =>
      if !c.exited && (c.reads now || !c.base.readsClock t) then
        (c.base.step m f (.next w n now ctl)).map (c.after t now)
      else none
    | _ => none

def initial (workers : Nat) (domainOf : WorkerId → DomainId) : ClockState where
  base := .initial workers domainOf
  clock := ⟨0, 0⟩
  exited := false
  first _ := ⟨0, 0⟩
  asked _ := ⟨0, 0⟩
  programmed := []

end ClockState

end Libtcr
