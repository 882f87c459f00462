import Libtcr.Lib.Transition
import Mathlib.Logic.Function.Basic

/-! One spinlock of `spinlock.h` and the pthreads that use it, on a 64-bit little-endian machine. Each
step is one atomic operation on the lock, with what the pthread then computes from its result. A pthread
releases the lock only if it has acquired it. How long `my_usleep` sleeps does not show here, nor do the
members `file` and `line` of the lock, which only messages use. -/

set_option autoImplicit false

namespace Libtcr

/-- The member `tid` of a `union spinlock_marker` with value `m`. -/
def markerTid (m : BitVec 64) : BitVec 32 := m.setWidth 32

def markerCpu (m : BitVec 64) : BitVec 32 := (m >>> 32).setWidth 32

/-- `__sync_val_compare_and_swap`: the old value, and what the word is afterwards. -/
def compareAndSwap (word expected new : BitVec 64) : BitVec 64 × BitVec 64 :=
  (word, if word = expected then new else word)

/-- `spin_trylock_plain` by the pthread with `this_spinlock_owner.m = owner`: it returns the old value
as an `int`. -/
def spinTrylockPlain (word owner : BitVec 64) : BitVec 32 × BitVec 64 :=
  let (old, word) := compareAndSwap word 0 owner
  (old.setWidth 32, word)

def spinsPerDelay : BitVec 32 := 100

/-- `Min(sp, 10)`. -/
def minTen (sp : BitVec 32) : BitVec 32 := if sp < 10 then sp else 10

inductive SpinlockPc where
  | outside
  | enters
  /-- At the first `__sync_fetch_and_add`. -/
  | counts
  /-- At the dirty read. -/
  | reads (spins : BitVec 32)
  /-- At the `spin_trylock_plain` of the loop. -/
  | retries (spins : BitVec 32)
  /-- With a `current_owner` that is not 0. -/
  | found (spins : BitVec 32) (currentOwner : BitVec 64)
  | sleeps
  | leaves
  | deadlock
  | assertFailed
  deriving DecidableEq, Repr

/-- In the slow path, from the increment of `l->spinners` on, and not in `my_usleep`. -/
def SpinlockPc.spinning : SpinlockPc → Bool
  | .reads _ | .retries _ | .found _ _ | .leaves | .deadlock | .assertFailed => true
  | .outside | .enters | .counts | .sleeps => false

structure Spinlock (Pthread : Type) where
  lock : BitVec 64
  /-- `l->spinners`, an `int`. -/
  spinners : BitVec 32
  pc : Pthread → SpinlockPc
  -- history: `spin_trylock_plain` has returned 0 to the pthread, and it has not called `spin_unlock`
  holds : Pthread → Bool

inductive SpinlockAction (Pthread : Type) where
  | lock (p : Pthread)
  | trylock (p : Pthread)
  | unlock (p : Pthread)
  | spin (p : Pthread)
  deriving DecidableEq, Repr

namespace Spinlock

variable {Pthread : Type} [DecidableEq Pthread]

def initial : Spinlock Pthread where
  lock := 0
  spinners := 0
  pc _ := .outside
  holds _ := false

def goto (s : Spinlock Pthread) (p : Pthread) (pc : SpinlockPc) : Spinlock Pthread :=
  { s with pc := Function.update s.pc p pc }

/-- The pthread executes `spin_trylock_plain` and goes on with the `int` that it returns. -/
def trylock (owner : Pthread → BitVec 64) (s : Spinlock Pthread) (p : Pthread)
    (next : BitVec 32 → SpinlockPc) : Spinlock Pthread :=
  let (returned, lock) := spinTrylockPlain s.lock (owner p)
  { s with
    lock := lock
    pc := Function.update s.pc p (next returned)
    holds := if returned = 0 then Function.update s.holds p true else s.holds }

def spin (owner : Pthread → BitVec 64) (s : Spinlock Pthread) (p : Pthread) :
    Option (Spinlock Pthread) :=
  match s.pc p with
  | .enters => some (s.trylock owner p fun returned => if returned = 0 then .outside else .counts)
  | .counts =>
    let sp := minTen s.spinners
    some ({ s with spinners := s.spinners + 1 }.goto p
      (if owner p = 0 then .assertFailed else .reads (if sp ≠ 0 then spinsPerDelay else 0)))
  | .reads spins =>
    some (s.goto p (if s.lock = 0 then .retries spins else .found spins s.lock))
  | .retries spins =>
    -- `current_owner.m` gets the returned `int` with its sign
    some (s.trylock owner p fun returned =>
      if returned.signExtend 64 = 0 then .leaves else .found spins (returned.signExtend 64))
  | .found spins currentOwner =>
    if markerTid currentOwner = markerTid (owner p) then some (s.goto p .deadlock)
    else if spins > spinsPerDelay ∨ markerCpu currentOwner = markerCpu (owner p) then
      some ({ s with spinners := s.spinners - 1 }.goto p .sleeps)
    else some (s.goto p (.reads (spins + 1)))
  | .sleeps =>
    let sp := s.spinners
    let spins := if sp ≠ 0 then spinsPerDelay * sp / 10 else 0
    some ({ s with spinners := s.spinners + 1 }.goto p (.reads (spins + 1)))
  | .leaves => some ({ s with spinners := s.spinners - 1 }.goto p .outside)
  | .outside | .deadlock | .assertFailed => none

def step (owner : Pthread → BitVec 64) (s : Spinlock Pthread) :
    SpinlockAction Pthread → Option (Spinlock Pthread)
  | .lock p =>
    if s.pc p = .outside then
      some (s.trylock owner p fun returned => if returned ≠ 0 then .enters else .outside)
    else none
  | .trylock p =>
    if s.pc p = .outside then some (s.trylock owner p fun _ => .outside) else none
  | .unlock p =>
    if s.pc p = .outside ∧ s.holds p then
      some { s with lock := 0, holds := Function.update s.holds p false }
    else none
  | .spin p => s.spin owner p

end Spinlock

def SpinlockReachable {Pthread : Type} [DecidableEq Pthread] (owner : Pthread → BitVec 64) :
    Spinlock Pthread → Prop :=
  Transition.Run (Spinlock.step owner) Transition.always .initial

end Libtcr
