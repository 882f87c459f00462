import Libtcr.Pool
import Libtcr.ParallelFor

/-! The statements `tc_parallel_for` and `tc_parallel .. tc_with .. tc_parallel_end` of
`threaded_cr.h`. The first makes a pool whose threads execute `__for_func`, and waits for them with
`tc_thread_pool_wait`. The second makes a thread for its first body, executes the second one itself,
and waits for the thread with `tc_thread_wait`. What these calls return is not looked at. -/

set_option autoImplicit false

namespace Libtcr

variable {Value : Type}

def ForPc.inBody : ForPc Value → Bool
  | .body => true
  | _ => false

def ForPc.atEnd : ForPc Value → Bool
  | .ended => true
  | _ => false

structure SectionState (Value : Type) where
  pools : PoolState
  /-- The loop of a pool that `tc_parallel_for` has made. -/
  loops : PoolId → Option (ForState Value)
  /-- The turn in which `tc_thread_pool_new_in_domain` has made a thread. -/
  index : Tid → Nat
  /-- The threads that a thread has made for the first bodies of its `tc_parallel` statements. -/
  parallels : Tid → List Tid

inductive SectionAction where
  | pool (a : PoolAction)
  | iterate (w : WorkerId)
  | parallelFor (w : WorkerId) (p : PoolId)
  | parallel (w : WorkerId) (u : Tid) (address : Nat)
  | joinWith (w : WorkerId) (n : Nat) (u : Tid)
  deriving DecidableEq, Repr

namespace SectionState

/-- Where a thread of a pool of `tc_parallel_for` is in `__for_func`. -/
def forPc (s : SectionState Value) (t : Tid) : Option (ForPc Value) :=
  match s.pools.made t with
  | some (.poolNew p) => (s.loops p).map fun f => f.pc (s.index t)
  | _ => none

def forPcOn (s : SectionState Value) (w : WorkerId) : Option (ForPc Value) :=
  match s.pools.sys.mode w with
  | .thread t => s.forPc t
  | _ => none

/-- The threads of `tc_parallel_for` call the library from the body, and `tc_die` is called when
`__for_func` has returned. -/
def permits (s : SectionState Value) : PoolAction → Bool
  | .act (.user w .dieUnlink) => (s.forPcOn w).all ForPc.atEnd
  | .act (.user w _) | .newRef w _ _ _ | .poolNew w _ _ _ | .poolWait w _ | .wait w _ _ =>
    (s.forPcOn w).all ForPc.inBody
  | _ => true

def indexAfter (s : SectionState Value) : PoolAction → Tid → Nat
  | .make w (some u) _ =>
    match s.pools.sys.mode w with
    | .thread t =>
      match s.pools.pc t with
      | .making _ i _ => Function.update s.index u i
      | _ => s.index
    | _ => s.index
  | _ => s.index

def threads (nrOfWorkers : DomainId → Int) (s : SectionState Value) (p : PoolId) : Nat :=
  match s.pools.poolDomain p with
  | some d => (nrOfWorkers d).toNat
  | none => 0

/-- One step; `loop` gives the heads of the `tc_parallel_for` statements. -/
def step (loop : PoolId → ForLoop Value) (nrOfWorkers : DomainId → Int) (s : SectionState Value) :
    SectionAction → Option (SectionState Value)
  | .pool a =>
    if s.permits a then
      (s.pools.step nrOfWorkers a).map fun pools =>
        { s with pools := pools, index := s.indexAfter a }
    else none
  | .iterate w =>
    (s.pools.caller w).bind fun t =>
      if s.pools.pc t = .outside ∧ s.pools.sys.frames t = [] then
        match s.pools.made t with
        | some (.poolNew p) =>
          (s.loops p).bind fun f =>
            (f.step (loop p) (s.threads nrOfWorkers p) (s.index t)).map fun f' =>
              { s with loops := Function.update s.loops p (some f') }
        | _ => none
      else none
  | .parallelFor w p =>
    -- INIT_ST, and tc_thread_pool_new in tc_this_pthread_domain with excess 0
    (s.pools.caller w).bind fun t =>
      let a : PoolAction := .poolNew w p 0 (s.pools.sys.threadDomain t)
      if s.permits a then
        (s.pools.step nrOfWorkers a).map fun pools =>
          { s with pools := pools, loops := Function.update s.loops p (some (.initial (loop p))) }
      else none
  | .parallel w u address =>
    (s.pools.caller w).bind fun t =>
      let a : PoolAction := .newRef w u (s.pools.sys.threadDomain t) address
      if s.permits a then
        (s.pools.step nrOfWorkers a).map fun pools =>
          { s with pools := pools, parallels := Function.update s.parallels t (u :: s.parallels t) }
      else none
  | .joinWith w n u =>
    (s.pools.caller w).bind fun t =>
      let a : PoolAction := .wait w n u
      if s.permits a ∧ u ∈ s.parallels t then
        (s.pools.step nrOfWorkers a).map fun pools => { s with pools := pools }
      else none

def initial (workers : Nat) (domainOf : WorkerId → DomainId) : SectionState Value where
  pools := .initial workers domainOf
  loops _ := none
  index _ := 0
  parallels _ := []

/-- The joins of a thread's statements: for the pool of a `tc_parallel_for`, and for the thread of
the first body of a `tc_parallel`. -/
def joinsOf (s : SectionState Value) (t : Tid) : Join → Bool
  | .pool p => (s.loops p).isSome
  | .thread u => u ∈ s.parallels t

/-- No join of a statement is interrupted by a signal. -/
def joinsOn (s : SectionState Value) : SectionAction → Bool
  | .pool a => s.pools.joinsOn s.joinsOf a
  | _ => true

/-- The threads of the pool have returned from `__for_func`; no iteration of its loop is under way,
and if there was a thread to execute them there is none left. -/
def Finished (loop : PoolId → ForLoop Value) (s : SectionState Value) (p : PoolId) : Prop :=
  ∀ f, s.loops p = some f →
    (∀ u, s.pools.made u = some (.poolNew p) → f.pc (s.index u) = .ended) ∧
    (∀ i, f.pc i = .outside ∨ f.pc i = .ended) ∧
    ((∃ u, s.pools.made u = some (.poolNew p)) → (loop p).cond f.var = false)

end SectionState

def SectionReachable (loop : PoolId → ForLoop Value) (nrOfWorkers : DomainId → Int)
    (ok : SectionState Value → SectionAction → Bool) (workers : Nat)
    (domainOf : WorkerId → DomainId) : SectionState Value → Prop :=
  Transition.Run (SectionState.step loop nrOfWorkers) (fun s a => ok s a = true)
    (.initial workers domainOf)

end Libtcr
