import Mathlib.Logic.Function.Basic
import Libtcr.Lib.Transition

/-! The statement `tc_parallel_for(VAR, INIT_ST, COND_ST, INC_ST)` of `threaded_cr.h`: the
threads of the pool share the loop variable, and take its values under a lock that they
release around the body. -/

set_option autoImplicit false

namespace Libtcr

variable {Value : Type}

/-- The head of a `for` statement. `init` is the variable after `INIT_ST`; `inc` gives the value
of the expression `INC_ST`, and the variable after it. -/
structure ForLoop (Value : Type) where
  init : Value
  cond : Value → Bool
  inc : Value → Value × Value

inductive ForPc (Value : Type) where
  /-- About to take the lock, before the loop or at the end of its body. -/
  | outside
  | test
  | increment
  /-- `__i` has been assigned. -/
  | taken (i : Value)
  | call (i : Value)
  | body
  | leaving
  | ended
  deriving DecidableEq, Repr

structure ForState (Value : Type) where
  var : Value
  lock : Option Nat
  pc : Nat → ForPc Value
  -- history: the values for which the body was called, first to last
  passed : List Value

namespace ForState

def initial (loop : ForLoop Value) : ForState Value where
  var := loop.init
  lock := none
  pc _ := .outside
  passed := []

def setPc (s : ForState Value) (i : Nat) (pc : ForPc Value) : ForState Value :=
  { s with pc := Function.update s.pc i pc }

def step (loop : ForLoop Value) (threads : Nat) (s : ForState Value) (i : Nat) :
    Option (ForState Value) :=
  if i < threads then
    match s.pc i with
    | .outside => if s.lock = none then some { s.setPc i .test with lock := some i } else none
    | .test => some (s.setPc i (if loop.cond s.var then .increment else .leaving))
    | .increment => some { s.setPc i (.taken (loop.inc s.var).1) with var := (loop.inc s.var).2 }
    | .taken v => some { s.setPc i (.call v) with lock := none }
    | .call v => some { s.setPc i .body with passed := s.passed ++ [v] }
    | .body => some (s.setPc i .outside)
    | .leaving => some { s.setPc i .ended with lock := none }
    | .ended => none
  else none

end ForState

def ForReachable (loop : ForLoop Value) (threads : Nat) : ForState Value → Prop :=
  Transition.Run (ForState.step loop threads) Transition.always (.initial loop)

namespace ForLoop

/-- The statement `for (INIT_ST; COND_ST; INC_ST)`, entered with the variable `before`, executes
its body for the values `vs`, which leaves the variable at `after`. -/
inductive Executes (loop : ForLoop Value) : Value → List Value → Value → Prop where
  | nil (before : Value) : Executes loop before [] before
  | next {before after : Value} {vs : List Value} (executes : Executes loop before vs after)
      (holds : loop.cond after = true) :
      Executes loop before (vs ++ [after]) (loop.inc after).2

/-- The statement ends after it has executed its body for the values `vs`. -/
def Ends (loop : ForLoop Value) (vs : List Value) : Prop :=
  ∃ after, loop.Executes loop.init vs after ∧ loop.cond after = false

end ForLoop

end Libtcr
