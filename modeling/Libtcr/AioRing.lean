import Libtcr.Lib.Transition
import Mathlib.Logic.Function.Basic

/-! `handle_aio_event` of one domain, the ring of completions of its `aio_ctx` and the eventfd
`aio_eventfd`. The completions go by numbers, in the order in which the kernel appends them to the
ring. What the wakeups of `ad->notify` do to the library does not show here. -/

set_option autoImplicit false

namespace Libtcr

def aiosAtOnce : Nat := 8

/-- Where the worker is that handles `IWI_ASYNC_IO`; `EPOLLONESHOT` admits one at a time. -/
inductive AioHandler where
  /-- Nobody; `epoll_wait` reports the eventfd. -/
  | armed
  | read
  | loop (count : Nat)
  /-- In the inner loop: `ioe` is what is left of the first `rv` completions of the array. -/
  | reap (count e2read : Nat) (ioe : List Nat)
  | arm
  deriving DecidableEq, Repr

structure AioRing where
  ring : List Nat
  eventfd : Nat
  handler : AioHandler
  /-- The completions that are in the ring or have been, and for which the kernel has yet to add 1
  to the eventfd. -/
  owed : Nat
  completions : Nat
  -- history: how often `tc_aio_set_data_done` was called for a completion
  done : Nat → Nat

inductive RingAction where
  | append
  /-- The kernel adds 1 to the eventfd. -/
  | add
  | report
  | handle
  deriving DecidableEq, Repr

namespace AioRing

def handle (s : AioRing) : Option AioRing :=
  match s.handler with
  | .armed => none
  | .read =>
    if 0 < s.eventfd then some { s with eventfd := 0, handler := .loop s.eventfd } else none
  | .loop count =>
    if 0 < count then
      -- io_getevents, which returns without waiting
      some { s with
        ring := s.ring.drop aiosAtOnce
        handler := .reap count (if aiosAtOnce < count then aiosAtOnce else count)
          (s.ring.take aiosAtOnce) }
    else some { s with handler := .arm }
  | .reap count e2read ioe =>
    match ioe.getLast? with
    | some c => some { s with
        done := Function.update s.done c (s.done c + 1)
        handler := .reap count e2read ioe.dropLast }
    | none => some { s with handler := .loop (count - e2read) }
  | .arm => some { s with handler := .armed }

def step (s : AioRing) : RingAction → Option AioRing
  | .append => some { s with
      ring := s.ring ++ [s.completions]
      completions := s.completions + 1
      owed := s.owed + 1 }
  | .add =>
    if 0 < s.owed then some { s with eventfd := s.eventfd + 1, owed := s.owed - 1 } else none
  | .report =>
    if s.handler = .armed ∧ 0 < s.eventfd then some { s with handler := .read } else none
  | .handle => s.handle

def initial : AioRing where
  ring := []
  eventfd := 0
  handler := .armed
  owed := 0
  completions := 0
  done _ := 0

end AioRing

def RingReachable : AioRing → Prop := Transition.Run AioRing.step Transition.always .initial

end Libtcr
