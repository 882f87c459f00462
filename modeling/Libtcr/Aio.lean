import Libtcr.System

/-! The aio functions that use the slots `tc->aio` of their thread, with the kernel and
`handle_aio_event`. The steps are those of the library, and the accesses of the aio functions
to a slot. What the application does with `struct tc_aio_data` of its own shows in the calls of
`tc_waitq_wakeup_all` for them only. -/

set_option autoImplicit false

namespace Libtcr

def aioRequestsPerTcThread : Nat := 8

/-- The values of `TC_AIO_DONE_FIELD`: 0, 1 and `TC_AIO_FLAG_AD_FREE`. -/
inductive AioFlag where
  | pending
  | done
  | free
  deriving DecidableEq, Repr

/-- The functions that submit a request, with `ad = NULL`. `notify` is the wait queue of the
application, `size` the number of bytes to read. -/
inductive AioRequest where
  | submitWrite (notify : Option Nat)
  | submitSync (notify : Option Nat)
  | read (size : Nat)
  | write
  deriving DecidableEq, Repr

inductive AioOp where
  | wait
  | request (r : AioRequest)
  | die
  deriving DecidableEq, Repr

/-- Where `tc_aio_wait` returns to. -/
inductive AioReturn where
  | caller
  | die
  | get (r : AioRequest)
  /-- `tc_aio_read`, which has submitted the request in slot `i`. -/
  | read (size i : Nat)
  | write
  deriving DecidableEq, Repr

/-- Where a thread is inside the aio functions. `rv` is the variable of `tc_aio_wait`, `e` the
event of its call of `tc_waitq_wait_event`, and `result` what that call has returned. -/
inductive AioPc where
  | outside
  | scan (r : AioRequest) (i : Nat)
  | prepare (r : AioRequest) (i : Nat)
  | submit (r : AioRequest) (i : Nat)
  | wait (ret : AioReturn) (i : Nat) (rv : Int)
  | waiting (ret : AioReturn) (i : Nat) (rv : Int) (e : EventId)
  | waited (ret : AioReturn) (i : Nat) (rv : Int) (result : Rv)
  | freeing (ret : AioReturn) (i : Nat) (rv : Int) (result : Rv)
  /-- `tc_die` has returned from `tc_aio_wait`. -/
  | dying
  deriving DecidableEq, Repr

structure AioState where
  sys : State
  flag : Tid → Nat → AioFlag
  notify : Tid → Nat → Option Nat
  res : Tid → Nat → Int
  res2 : Tid → Nat → Int
  pc : Tid → AioPc
  /-- The completion that a worker handles in `handle_aio_event`. -/
  handling : WorkerId → Option (Tid × Nat)
  /-- The requests of a slot that have been submitted and whose completion has not been
  handled. -/
  owned : Tid → Nat → Nat
  -- history: what the last call of a thread has returned
  returned : Tid → Option Int

/-- The steps: those of the library and of the rest of the application, the call of an aio
function and its next step, and those of `handle_aio_event` for one completion. A step comes
with the name of the event of a sleeping call and the result of `io_submit`, a completion with
its results. -/
inductive AioAction where
  | system (a : Action)
  | begin (w : WorkerId) (op : AioOp)
  | next (w : WorkerId) (n : Nat) (submitted : Int)
  | completed (w : WorkerId) (t : Tid) (i : Nat) (res res2 : Int)
  | notify (w : WorkerId)
  deriving DecidableEq, Repr

/-- The value that is assigned to a variable of type `int`. -/
def toInt (x : Int) : Int := x.bmod (2 ^ 32)

def rvFailed : Int := 3

def AioRequest.notify : AioRequest → Option Nat
  | .submitWrite notify | .submitSync notify => notify
  | .read _ | .write => none

/-- What the function returns if `_tc_aio_get_aio_data` has returned `rv`. -/
def AioRequest.unavailable (rv : Int) : AioRequest → Int
  | .submitSync _ => rv
  | .submitWrite _ | .read _ | .write => rvFailed

namespace AioState

def call (s : AioState) (a : Action) (after : State → AioState) : Option AioState :=
  s.sys.call a after fun sys => { s with sys := sys }

def setPc (s : AioState) (t : Tid) (pc : AioPc) : AioState :=
  { s with pc := Function.update s.pc t pc }

def setFlag (s : AioState) (t : Tid) (i : Nat) (flag : AioFlag) : AioState :=
  { s with flag := Function.update s.flag t (Function.update (s.flag t) i flag) }

def setNotify (s : AioState) (t : Tid) (i : Nat) (notify : Option Nat) : AioState :=
  { s with notify := Function.update s.notify t (Function.update (s.notify t) i notify) }

def setRes (s : AioState) (t : Tid) (i : Nat) (res res2 : Int) : AioState :=
  { s with
    res := Function.update s.res t (Function.update (s.res t) i res)
    res2 := Function.update s.res2 t (Function.update (s.res2 t) i res2) }

def setOwned (s : AioState) (t : Tid) (i : Nat) (owned : Nat) : AioState :=
  { s with owned := Function.update s.owned t (Function.update (s.owned t) i owned) }

def returns (s : AioState) (t : Tid) (rv : Int) : AioState :=
  { s.setPc t .outside with returned := Function.update s.returned t (some rv) }

def outside (s : AioState) (w : WorkerId) : Bool :=
  match s.sys.mode w with
  | .thread t => s.pc t = .outside
  | _ => false

/-- What the scheduler and the rest of the application may do. The condition of the wait of
`tc_aio_wait` is that the flag of the slot is not 0. -/
def allows (s : AioState) : Action → Bool
  | .user w op => s.outside w && op ≠ .dieUnlink
  | .condition w value =>
    match s.sys.mode w with
    | .thread t =>
      match s.pc t, s.sys.frames t with
      | .outside, _ => true
      | .waiting _ i _ e, f :: _ => f.e = e && value = decide (s.flag t i ≠ .pending)
      | _, _ => false
    | _ => false
  | .die w =>
    match s.sys.mode w with
    | .thread t => s.pc t = .dying
    | _ => false
  -- while it is in handle_aio_event, a worker does nothing else
  | a => s.handling a.worker = none

/-- The values that `tc_aio_wait` takes from slot `i` after its wait. -/
def resultOf (s : AioState) (t : Tid) (i : Nat) (rv : Int) : Int :=
  let rv := if s.res t i < 0 ∧ rv = 0 then toInt (s.res t i) else rv
  if s.res2 t i ≠ 0 ∧ rv = 0 then toInt (s.res2 t i) else rv

def waitReturns (s : AioState) (t : Tid) (rv : Int) : AioReturn → AioState
  | .caller => s.returns t rv
  | .die => s.setPc t .dying
  | .get r => if rv ≠ 0 then s.returns t (r.unavailable rv) else s.setPc t (.scan r 0)
  | .read size i =>
    if rv ≠ 0 then s.returns t rv
    else if 0 < s.res t i ∧ s.res t i = size then s.returns t 0
    else s.returns t (if s.res t i ≠ 0 then toInt (s.res t i) else -1)
  | .write => s.returns t rv

def submitReturns (s : AioState) (t : Tid) (i : Nat) (rv : Int) : AioRequest → AioState
  | .submitWrite _ | .submitSync _ => s.returns t rv
  | .read size => if rv ≠ 0 then s.returns t rv else s.setPc t (.wait (.read size i) 0 0)
  | .write => if rv ≠ 0 then s.returns t rv else s.setPc t (.wait .write 0 0)

/-- The next step of thread `t` on worker `w` inside an aio function. `aioWq t` is the number
of `tc->aio_wq`. -/
def nextStep (aioWq : Tid → Nat) (s : AioState) (w : WorkerId) (t : Tid) (n : Nat)
    (submitted : Int) : Option AioState :=
  match s.pc t with
  | .outside | .dying => none
  | .scan r i =>
    if i < aioRequestsPerTcThread then
      if s.flag t i = .free then some (s.setPc t (.prepare r i))
      else some (s.setPc t (.scan r (i + 1)))
    else some (s.setPc t (.wait (.get r) 0 0))
  | .prepare r i =>
    -- io_prep_* overwrites the whole iocb, and the flag with it.
    some ((((s.setFlag t i .pending).setNotify t i r.notify).setRes t i 0 0).setPc t (.submit r i))
  | .submit r i =>
    if submitted = 1 then some ((s.setOwned t i (s.owned t i + 1)).submitReturns t i 0 r)
    else
      match s.notify t i with
      | some k => s.call (.user w (.wakeupAll k)) fun sys =>
          ({ s with sys := sys }.setFlag t i .done).submitReturns t i (-submitted) r
      | none => some ((s.setFlag t i .done).submitReturns t i (-submitted) r)
  | .wait ret i rv =>
    if i < aioRequestsPerTcThread then
      -- If the caller wanted to be notified, he will get notified ...
      if s.notify t i ≠ none then some (s.setPc t (.wait ret (i + 1) rv))
      else s.call (.user w (.waitEvent n (aioWq t))) fun sys =>
        ({ s with sys := sys }.setNotify t i (some (aioWq t))).setPc t
          (.waiting ret i rv (.auto t n))
    else some (s.waitReturns t rv ret)
  | .waiting ret i rv e =>
    match s.sys.result e with
    | none => none
    | some result =>
      some (s.setPc t (.waited ret i (if result ≠ .ok ∨ rv ≠ 0 then 1 else 0) result))
  | .waited ret i rv result =>
    if s.flag t i = .free then some ((s.setNotify t i none).setPc t (.wait ret (i + 1) rv))
    else some ((s.setNotify t i none).setPc t (.freeing ret i (s.resultOf t i rv) result))
  | .freeing ret i rv _ => some ((s.setFlag t i .free).setPc t (.wait ret (i + 1) rv))

/-- The call of an aio function, or of `tc_die`, by thread `t` on worker `w`. -/
def beginStep (s : AioState) (w : WorkerId) (t : Tid) : AioOp → Option AioState
  | .wait => some (s.setPc t (.wait .caller 0 0))
  | .request r => some (s.setPc t (.scan r 0))
  | .die => s.call (.user w .dieUnlink) fun sys => { s with sys := sys }.setPc t (.wait .die 0 0)

/-- `handle_aio_event` on worker `w`, with a completion for slot `i` of thread `t`. -/
def complete (s : AioState) (w : WorkerId) (t : Tid) (i : Nat) (res res2 : Int) : AioState :=
  if s.sys.status t = .dead then { s with sys := { s.sys with fault := some .useAfterFree } }
  else
    { ((s.setRes t i res res2).setFlag t i .done).setOwned t i (s.owned t i - 1) with
      handling := Function.update s.handling w (some (t, i)) }

def step (aioWq : Tid → Nat) (s : AioState) : AioAction → Option AioState
  | .system a =>
    if s.allows a then (s.sys.step a).map fun sys => { s with sys := sys } else none
  | .begin w op =>
    match s.sys.mode w with
    | .thread t =>
      if s.sys.fault = none ∧ s.sys.inUserCode t = true ∧ s.pc t = .outside then
        s.beginStep w t op
      else none
    | _ => none
  | .next w n submitted =>
    match s.sys.mode w with
    | .thread t =>
      if s.sys.fault = none ∧ s.sys.inUserCode t = true then s.nextStep aioWq w t n submitted
      else none
    | _ => none
  | .completed w t i res res2 =>
    if s.sys.fault = none ∧ s.sys.mode w = .sched ∧ s.handling w = none ∧ 0 < s.owned t i then
      some (s.complete w t i res res2)
    else none
  | .notify w =>
    match s.handling w with
    | some (t, i) =>
      if s.sys.fault = none then
        if s.sys.status t = .dead then
          some { s with sys := { s.sys with fault := some .useAfterFree } }
        else
          match s.notify t i with
          | some k => s.call (.aio w k) fun sys =>
              { s with sys := sys, handling := Function.update s.handling w none }
          | none => some { s with handling := Function.update s.handling w none }
      else none
    | none => none

/-- The slots of a new thread are marked with `tc_aio_data_init`; the memory of the main
threads is 0. -/
def initial (workers : Nat) (domainOf : WorkerId → DomainId) : AioState where
  sys := .initial workers domainOf
  flag t _ := if t < workers then .pending else .done
  notify _ _ := none
  res _ _ := 0
  res2 _ _ := 0
  pc _ := .outside
  handling _ := none
  owned _ _ := 0
  returned _ := none

end AioState

def AioRun (aioWq : Tid → Nat) (workers : Nat) (domainOf : WorkerId → DomainId)
    (ok : AioState → AioAction → Prop) : AioState → Prop :=
  Transition.Run (AioState.step aioWq) ok (.initial workers domainOf)

end Libtcr
