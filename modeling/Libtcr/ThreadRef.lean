import Libtcr.System

/-! References to threads. The memory of a `struct tc_thread` that has been freed may be
given to the next thread, so that a pointer to it does not say which thread is meant; a
`struct tc_thread_ref` carries the id that `_tc_thread_insert` has given to the thread. -/

set_option autoImplicit false

namespace Libtcr

structure ThreadRef where
  thr : Nat
  domain : DomainId
  id : BitVec 32
  deriving DecidableEq, Repr

structure RefState where
  sys : State
  /-- The thread that was created last at an address. -/
  object : Nat → Option Tid
  refs : Tid → Option ThreadRef
  -- history: the number of threads created in a domain, the number of a thread among
  -- them, and the thread whose reference a call of tc_thread_wait_ref was given
  created : DomainId → Nat
  born : Tid → Nat
  waits : EventId → Option Tid

inductive RefAction where
  | system (a : Action)
  /-- `_tc_thread_new` for `tc_thread_new_ref_in_domain`; `malloc` returns `address`. -/
  | create (w : WorkerId) (u : Tid) (d : DomainId) (nr : Int) (affine : Bool) (address : Nat)
  | wait (w : WorkerId) (n : Nat) (u : Tid)
  deriving DecidableEq, Repr

def Action.creates : Action → Bool
  | .user _ (.threadNew _ _ _ _) => true
  | _ => false

namespace RefState

/-- `malloc` may return the address: no thread was made there, or it has been freed. -/
def available (s : RefState) (address : Nat) : Bool :=
  match s.object address with
  | none => true
  | some v => s.sys.status v = .dead

def step (s : RefState) : RefAction → Option RefState
  | .system a =>
    if a.creates then none else (s.sys.step a).map fun sys => { s with sys := sys }
  | .create w u d nr affine address =>
    if s.available address then
      (s.sys.step (.user w (.threadNew u d nr affine))).map fun sys => { s with
        sys := sys
        object := Function.update s.object address (some u)
        refs := Function.update s.refs u (some ⟨address, d, sys.threadId u⟩)
        created := Function.update s.created d (s.created d + 1)
        born := Function.update s.born u (s.created d + 1) }
    else none
  | .wait w n u =>
    match s.sys.mode w, s.refs u with
    | .thread t, some ref =>
      -- The pointer leads to what is at the address now. _thread_valid compares it with
      -- the threads on the list, which have not been freed.
      match s.object ref.thr with
      | some v =>
        (s.sys.step (.user w (.threadWait n v ref.domain ref.id))).map fun sys => { s with
          sys := sys
          waits := Function.update s.waits (.auto t n) (some u) }
      | none => none
    | _, _ => none

def initial (workers : Nat) (domainOf : WorkerId → DomainId) : RefState where
  sys := .initial workers domainOf
  object _ := none
  refs _ := none
  created _ := 0
  born _ := 0
  waits _ := none

/-- Fewer than `2^32 - 1` threads have been created in the domain since the thread whose
reference is used. -/
def recent (s : RefState) : RefAction → Prop
  | .wait _ _ u => s.created (s.sys.threadDomain u) - s.born u < 2 ^ 32 - 1
  | _ => True

instance (s : RefState) : DecidablePred s.recent
  | .wait _ _ _ => inferInstanceAs (Decidable (_ < _))
  | .system _ | .create _ _ _ _ _ _ => isTrue trivial

end RefState

def RefReachable (workers : Nat) (domainOf : WorkerId → DomainId) : RefState → Prop :=
  Transition.Run RefState.step RefState.recent (.initial workers domainOf)

end Libtcr
