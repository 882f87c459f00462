import Libtcr.State
import Libtcr.Lib.Transition

/-! The start of domains: the numbers that the workers of all domains draw from one counter, and
those that `tc_thread_pool_new_in_domain` gives to the threads of a pool. -/

set_option autoImplicit false

namespace Libtcr

inductive Pthread where
  | app (k : Nat)
  /-- `pthreads[i]` of domain `d`, made by `start_pthreads`. -/
  | worker (d : DomainId) (i : Nat)
  deriving DecidableEq, Repr

/-- The fields of a thread of a pool that bind it to a worker. -/
structure PoolThread where
  workerNr : Int
  affine : Bool
  deriving DecidableEq, Repr

def freeWorker : Int := -1

def anyWorker : Int := -2

structure WorkerState where
  pthreadCounter : Nat
  domains : Nat
  nrOfWorkers : DomainId → Nat
  /-- The call of `tc_run` that has made the domain has returned. -/
  ended : DomainId → Bool
  domain : Pthread → Option DomainId
  nr : Pthread → Option Nat
  /-- The pthread has returned from `tc_worker_init` in its domain. -/
  ready : Pthread → Bool
  pools : Nat
  poolDomain : Nat → DomainId
  /-- The arguments `excess`, and the loop variables `i`. -/
  excess : Nat → Int
  next : Nat → Nat
  threads : Nat → Nat → Option PoolThread

inductive WorkerAction where
  | tcRun (k : Nat) (nrOfWorkers : Int)
  | tcRunReturns (k : Nat)
  | tcNewDomain (nrOfWorkers : Int)
  | tcWorkerInit (p : Pthread)
  | tcThreadPoolNewInDomain (d : DomainId) (excess : Int)
  /-- One turn of the loop of `tc_thread_pool_new_in_domain`; `created` is false if
  `_tc_thread_new` fails. -/
  | poolTurn (pool : Nat) (created : Bool)
  | switchTo (p : Pthread) (pool i : Nat)
  deriving DecidableEq, Repr

/-- The value of `nr_of_workers` in `_setup_domain`. -/
def setupWorkers (availCpu : Nat) (nrOfWorkers : Int) : Nat :=
  if nrOfWorkers ≤ 0 then
    let left := availCpu + nrOfWorkers
    if left < 1 then 1 else if left > availCpu then availCpu else left.toNat
  else nrOfWorkers.toNat

def PoolThread.wanted (nr : Int) (t : PoolThread) : Bool :=
  nr = anyWorker || t.workerNr = nr || (if nr = freeWorker then !t.affine else false)

namespace WorkerState

/-- `_setup_domain` and `start_pthreads`, from `pthreads[first]` on. -/
def setupDomain (s : WorkerState) (nrOfWorkers first : Nat) : WorkerState :=
  { s with
    domains := s.domains + 1
    nrOfWorkers := Function.update s.nrOfWorkers s.domains nrOfWorkers
    domain := fun p => match p with
      | .app k => s.domain (.app k)
      | .worker d i =>
        if d = s.domains ∧ first ≤ i ∧ i < nrOfWorkers then some d else s.domain (.worker d i) }

def tcWorkerInit (s : WorkerState) (p : Pthread) : WorkerState :=
  match s.nr p with
  | some _ => { s with ready := Function.update s.ready p true }
  | none => { s with
      pthreadCounter := s.pthreadCounter + 1
      nr := Function.update s.nr p (some s.pthreadCounter)
      ready := Function.update s.ready p true }

def poolTurn (s : WorkerState) (pool : Nat) (created : Bool) : WorkerState :=
  let i := s.next pool
  let thread : PoolThread :=
    if i < s.nrOfWorkers (s.poolDomain pool) then ⟨i, true⟩ else ⟨freeWorker, false⟩
  { s with
    next := Function.update s.next pool (i + 1)
    threads := if created then
        Function.update s.threads pool (Function.update (s.threads pool) i (some thread))
      else s.threads }

/-- `switch_to` by a worker with number `nr`. -/
def switchTo (nr : Nat) (t : PoolThread) : PoolThread :=
  if t.workerNr ≠ nr then
    if t.affine then t else { t with workerNr := nr }
  else t

def step (availCpu : Nat) (s : WorkerState) : WorkerAction → Option WorkerState
  | .tcRun k n =>
    if s.domain (.app k) = none then
      let s' := s.setupDomain (setupWorkers availCpu n) 1
      some { s' with
        domain := Function.update s'.domain (.app k) (some s.domains)
        ready := Function.update s'.ready (.app k) false }
    else none
  | .tcRunReturns k =>
    match s.domain (.app k) with
    | some d => some { s with
        ended := Function.update s.ended d true
        domain := Function.update s.domain (.app k) none }
    | none => none
  | .tcNewDomain n => if 0 < s.domains then some (s.setupDomain (setupWorkers availCpu n) 0) else none
  | .tcWorkerInit p =>
    if s.domain p ≠ none ∧ s.ready p = false then some (s.tcWorkerInit p) else none
  | .tcThreadPoolNewInDomain d excess =>
    if d < s.domains then some { s with
      pools := s.pools + 1
      poolDomain := Function.update s.poolDomain s.pools d
      excess := Function.update s.excess s.pools excess
      next := Function.update s.next s.pools 0 }
    else none
  | .poolTurn pool created =>
    if pool < s.pools ∧ s.next pool < s.nrOfWorkers (s.poolDomain pool) + s.excess pool then
      some (s.poolTurn pool created)
    else none
  | .switchTo p pool i =>
    match s.nr p, s.threads pool i with
    | some nr, some t => some { s with
        threads := Function.update s.threads pool
          (Function.update (s.threads pool) i (some (switchTo nr t))) }
    | _, _ => none

def initial : WorkerState where
  pthreadCounter := 0
  domains := 0
  nrOfWorkers _ := 0
  ended _ := false
  domain _ := none
  nr _ := none
  ready _ := false
  pools := 0
  poolDomain _ := 0
  excess _ := 0
  next _ := 0
  threads _ _ := none

end WorkerState

def WorkerRun (availCpu : Nat) (ok : WorkerState → WorkerAction → Prop) : WorkerState → Prop :=
  Transition.Run (WorkerState.step availCpu) ok .initial

end Libtcr
