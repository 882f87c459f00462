import Libtcr.System

/-! The part of the state that concerns one thread, and what one step can do to
it. Everything an invariant of a single thread needs is said here once: the steps
of the thread itself, and what other threads and the scheduler can do to it. -/

set_option autoImplicit false

namespace Libtcr

/-- A worker as a thread sees it: it has selected the thread, executes it, or is
about to free it. The first two carry `worker->woken_by_event`. -/
inductive Place where
  | away
  | entering (woken : Option EventId)
  | on (woken : Option EventId)
  | freeing

/-- A mutex as a thread sees it. -/
inductive Share where
  | free
  | mine
  | other
  deriving DecidableEq

structure View where
  frames : List Frame
  stack : Option EventId
  running : Bool
  status : Status
  next : EventId → Option EventId
  el : EventId → Option EventList
  life : EventId → Life
  flags : EventId → EventFlag
  signal : EventId → SignalId
  place : WorkerId → Place
  mutex : MutexId → Share
  held : MutexId → Bool
  result : EventId → Option Rv
  fires : EventId → Nat
  interrupts : EventId → Nat

def own {Value : Type} (t : Tid) (default : Value) (field : EventId → Value) :
    EventId → Value :=
  fun e => if e.owner = t then field e else default

def placeOf (t : Tid) (mode : Mode) (woken : Option EventId) : Place :=
  match mode with
  | .enter u => if u = t then .entering woken else .away
  | .thread u => if u = t then .on woken else .away
  | .free u => if u = t then .freeing else .away
  | .off | .sched | .report _ _ | .leave _ => .away

def shareOf (t : Tid) : Option Tid → Share
  | none => .free
  | some u => if u = t then .mine else .other

def State.view (s : State) (t : Tid) : View where
  frames := s.frames t
  stack := s.eventStack t
  running := s.running t
  status := s.status t
  next := own t none s.nextInStack
  el := own t none s.lists.el
  life := own t .unused s.life
  flags := own t .ready s.flags
  signal := own t 0 s.signal
  place w := placeOf t (s.mode w) (s.wokenByEvent w)
  mutex m := shareOf t (s.owner m)
  held := s.held t
  result := own t none s.result
  fires := own t 0 s.fires
  interrupts := own t 0 s.interrupts

/-- The lists whose events are woken by moving them to `common.immediate`, without
further consequences. -/
def EventList.wakes : EventList → Bool
  | .waiters (.user _) | .waiters (.exit _) | .fd _ => true
  | _ => false

/-- The lists on which `run_or_queue` can find its event. -/
def EventList.served : EventList → Bool
  | .immediate | .fd _ | .pending _ => true
  | .waiters _ => false

/-- The primitives that wait without a wait queue. -/
def Call.isLeaf : Call → Bool
  | .yield | .fd _ => true
  | _ => false

/-- The event of the call is on no list. -/
def Pc.unplaced : Pc → Bool
  | .test0 | .prep | .cas0 | .own1 | .cas1 => true
  | _ => false

def Call.afterPrepare : Call → Pc
  | .cond _ => .test
  | .mutex _ => .own
  | _ => .pushed

namespace View

def Subscribed (v : View) (g : SignalId) (e : EventId) : Prop :=
  (∃ t n, e = .sub t n) ∧ v.life e = .live ∧ v.signal e = g

def InUserCode (v : View) (w : WorkerId) (x : Option EventId) : Prop :=
  v.place w = .on x ∧ (v.status = .alive ∨ v.status = .unlinked) ∧
    (v.frames = [] ∨ ∃ f rest, v.frames = f :: rest ∧ f.inCondition = true)

def Top (v : View) (w : WorkerId) (x : Option EventId) (f : Frame) (rest : List Frame) : Prop :=
  v.place w = .on x ∧ v.frames = f :: rest

end View

inductive Begins (v : View) : Call → Pc → Prop where
  | plain {call : Call} : (∀ m, call ≠ .mutex m) → Begins v call .prep
  | condition {k : Nat} : Begins v (.cond k) .test0
  | lock {m : MutexId} : v.mutex m ≠ .mine → Begins v (.mutex m) .cas0

inductive Turn (v : View) : Call → Pc → Pc → Prop where
  | notYet {k : Nat} : Turn v (.cond k) .test0 .prep
  | isTrue {k : Nat} : Turn v (.cond k) .test .holds
  | isFalse {k : Nat} : Turn v (.cond k) .test .pushed
  | taken {m : MutexId} : Turn v (.mutex m) .cas0 .own1
  | notOwn1 {m : MutexId} : v.mutex m ≠ .mine → Turn v (.mutex m) .own1 .cas1
  | taken1 {m : MutexId} : Turn v (.mutex m) .cas1 .prep
  | isOwn {m : MutexId} : v.mutex m = .mine → Turn v (.mutex m) .own .holds
  | notOwn {m : MutexId} : v.mutex m ≠ .mine → Turn v (.mutex m) .own .cas
  | takenLoop {m : MutexId} : v.mutex m ≠ .free → Turn v (.mutex m) .cas .pushed

/-- The stations of `tc_die` before the `EF_EXITING` event is queued. -/
inductive Dying : Status → Status → Prop where
  | unlink : Dying .alive .unlinked
  | settle : Dying .unlinked .settled
  | announce : Dying .settled .announced

/-- The steps of which a guard on runs may want to know: the exit of
`tc_waitq_finish_wait` that finds a signal and no active event, its exit that
requeues a signal after a true condition, and the end of a subscription. -/
inductive Kind where
  | plain
  | signalOnly (nested : Bool)
  | staleRequeue
  | cancel (e : EventId)
  deriving DecidableEq

/-- What one step can do to thread `t`. -/
inductive ViewStep (t : Tid) (v : View) : Kind → View → Prop where
  -- by other threads, or by the thread itself in a call that does not sleep
  | wake (woken : EventId → Bool)
      (queued : ∀ e, woken e = true → ∃ k, v.el e = some k ∧ k.wakes = true) :
      ViewStep t v .plain
        { v with el := fun e => if woken e then some .immediate else v.el e }
  | fire (g : SignalId) (fires : EventId → Nat)
      (fired : ∀ e, fires e = v.fires e + 1 ∧ v.Subscribed g e ∨
        fires e = v.fires e ∧ ¬ v.Subscribed g e) :
      ViewStep t v .plain
        { v with
          el := fun e => if v.el e = some (.waiters (.signal g)) then some .immediate else v.el e
          fires := fires }
  | grant (e : EventId) (m : MutexId) (queued : v.el e = some (.waiters (.mutex m)))
      (foreign : v.mutex m ≠ .mine) :
      ViewStep t v .plain
        { v with
          el := Function.update v.el e (some .immediate)
          mutex := Function.update v.mutex m .mine }
  | share (m : MutexId) (after : Share) (foreign : v.mutex m ≠ .mine) (still : after ≠ .mine)
      (nobody : after = .free → v.mutex m = .free ∨ ∀ e, v.el e ≠ some (.waiters (.mutex m))) :
      ViewStep t v .plain { v with mutex := Function.update v.mutex m after }
  | cancel (n : Nat) (live : v.life (.sub t n) = .live) :
      ViewStep t v (.cancel (.sub t n))
        { v with
          el := Function.update v.el (.sub t n) none
          life := Function.update v.life (.sub t n) .dead }
  | born (unused : v.status = .unused) :
      ViewStep t v .plain
        { v with
          status := .created
          life := Function.update v.life (.self t) .live
          next := Function.update v.next (.self t) none }
  | post (created : v.status = .created) (free : v.el (.self t) = none) :
      ViewStep t v .plain
        { v with
          status := .posted
          el := Function.update v.el (.self t) (some .immediate)
          flags := Function.update v.flags (.self t) .ready }
  -- by the scheduler
  | queue (e : EventId) (k : EventList) (owned : e.owner = t) (on : v.el e = some k)
      (served : k.served = true) (stays : v.flags e ≠ .exiting)
      (refused : v.running = true ∨
        (v.flags e ≠ .signal ∧ v.stack ≠ none ∧ v.stack ≠ some e)) :
      ViewStep t v .plain { v with el := Function.update v.el e (some (.pending t)) }
  | selectSignal (w : WorkerId) (e : EventId) (k : EventList) (owned : e.owner = t)
      (on : v.el e = some k) (served : k.served = true) (signal : v.flags e = .signal)
      (idle : v.running = false) (away : v.place w = .away) :
      ViewStep t v .plain
        { v with
          running := true
          el := Function.update v.el e (some (.waiters (.signal (v.signal e))))
          place := Function.update v.place w (.entering (some e)) }
  | selectEvent (w : WorkerId) (e : EventId) (k : EventList) (owned : e.owner = t)
      (on : v.el e = some k) (served : k.served = true) (event : v.flags e ≠ .signal)
      (stays : v.flags e ≠ .exiting) (idle : v.running = false)
      (top : v.stack = none ∨ v.stack = some e) (away : v.place w = .away) :
      ViewStep t v .plain
        { v with
          running := true
          el := Function.update v.el e none
          place := Function.update v.place w (.entering (some e)) }
  | reap (w : WorkerId) (e : EventId) (owned : e.owner = t) (on : v.el e = some .immediate)
      (exiting : v.flags e = .exiting) (away : v.place w = .away) :
      ViewStep t v .plain
        { v with
          el := Function.update v.el e none
          place := Function.update v.place w .freeing }
  | freed (w : WorkerId) (freeing : v.place w = .freeing) :
      ViewStep t v .plain
        { v with
          status := .dead
          life := Function.update v.life (.self t) .dead
          place := Function.update v.place w .away }
  | enter (w : WorkerId) (x : Option EventId) (f : Frame) (rest : List Frame)
      (entering : v.place w = .entering x) (frames : v.frames = f :: rest) :
      ViewStep t v .plain
        { v with
          place := Function.update v.place w (.on x)
          frames := { f with pc := .woke } :: rest }
  | start (w : WorkerId) (x : Option EventId) (entering : v.place w = .entering x)
      (frames : v.frames = []) (posted : v.status = .posted) :
      ViewStep t v .plain
        { v with
          place := Function.update v.place w (.on none)
          status := .alive }
  -- by the thread itself
  | begin (w : WorkerId) (x : Option EventId) (n : Nat) (call : Call) (pc : Pc)
      (user : v.InUserCode w x) (unused : v.life (.auto t n) = .unused)
      (begins : Begins v call pc) :
      ViewStep t v .plain
        { v with
          frames := ⟨call, .auto t n, pc, v.stack⟩ :: v.frames
          life := Function.update v.life (.auto t n) .live
          next := Function.update v.next (.auto t n) none }
  | enqueue (w : WorkerId) (x : Option EventId) (f : Frame) (rest : List Frame)
      (flag : EventFlag) (top : v.Top w x f rest) (pc : f.pc = .prep)
      (leaf : f.call.isLeaf = true) (waits : flag = .ready ∨ flag = .priority) :
      ViewStep t v .plain
        { v with
          el := Function.update v.el f.e (some f.call.home)
          flags := Function.update v.flags f.e flag
          frames := { f with pc := .queued } :: rest }
  | push (w : WorkerId) (x : Option EventId) (f : Frame) (rest : List Frame)
      (top : v.Top w x f rest) (pc : f.pc = .queued) :
      ViewStep t v .plain
        { v with
          next := Function.update v.next f.e v.stack
          stack := some f.e
          frames := { f with pc := .pushed, saved := v.stack } :: rest }
  | prepare (w : WorkerId) (x : Option EventId) (f : Frame) (rest : List Frame)
      (top : v.Top w x f rest) (pc : f.pc = .prep) (queue : f.call.isLeaf = false) :
      ViewStep t v .plain
        { v with
          el := Function.update v.el f.e (some f.call.home)
          flags := Function.update v.flags f.e .ready
          next := Function.update v.next f.e v.stack
          stack := some f.e
          place := Function.update v.place w (.on none)
          frames := { f with pc := f.call.afterPrepare, saved := v.stack } :: rest }
  | turn (w : WorkerId) (x : Option EventId) (f : Frame) (rest : List Frame) (pc : Pc)
      (top : v.Top w x f rest) (turned : Turn v f.call f.pc pc) :
      ViewStep t v .plain { v with frames := { f with pc := pc } :: rest }
  | acquire (w : WorkerId) (x : Option EventId) (f : Frame) (rest : List Frame) (m : MutexId)
      (top : v.Top w x f rest) (call : f.call = .mutex m) (pc : f.pc = .cas)
      (free : v.mutex m = .free) :
      ViewStep t v .plain
        { v with
          mutex := Function.update v.mutex m .mine
          frames := { f with pc := .holds } :: rest }
  | refused (w : WorkerId) (x : Option EventId) (f : Frame) (rest : List Frame) (rv : Rv)
      (top : v.Top w x f rest) (pc : f.pc = .queued) (notIntr : rv ≠ .intr) :
      ViewStep t v .plain
        { v with
          el := Function.update v.el f.e none
          frames := rest
          life := Function.update v.life f.e .dead
          result := Function.update v.result f.e (some rv) }
  | returnPlain (w : WorkerId) (x : Option EventId) (f : Frame) (rest : List Frame) (rv : Rv)
      (top : v.Top w x f rest) (unplaced : f.pc.unplaced = true)
      (notMutex : ∀ m, f.call ≠ .mutex m) (notIntr : rv ≠ .intr) :
      ViewStep t v .plain
        { v with
          frames := rest
          life := Function.update v.life f.e .dead
          result := Function.update v.result f.e (some rv) }
  | returnLocked (w : WorkerId) (x : Option EventId) (f : Frame) (rest : List Frame)
      (m : MutexId) (top : v.Top w x f rest) (unplaced : f.pc.unplaced = true)
      (call : f.call = .mutex m)
      (acquired : v.mutex m = .mine ∨ v.mutex m = .free ∧ (f.pc = .cas0 ∨ f.pc = .cas1)) :
      ViewStep t v .plain
        { v with
          frames := rest
          life := Function.update v.life f.e .dead
          result := Function.update v.result f.e (some .ok)
          mutex := Function.update v.mutex m .mine
          held := Function.update v.held m true }
  | sleep (w : WorkerId) (x : Option EventId) (f : Frame) (rest : List Frame)
      (top : v.Top w x f rest) (pc : f.pc = .pushed)
      (nothing : ∀ e, v.el e = some (.pending t) →
        v.flags e ≠ .signal ∧ v.stack ≠ none ∧ v.stack ≠ some e) :
      ViewStep t v .plain
        { v with
          running := false
          place := Function.update v.place w .away
          frames := { f with pc := .asleep } :: rest }
  | resumeEvent (w : WorkerId) (x : Option EventId) (f : Frame) (rest : List Frame)
      (e : EventId) (top : v.Top w x f rest) (pc : f.pc = .pushed) (owned : e.owner = t)
      (pending : v.el e = some (.pending t)) (event : v.flags e ≠ .signal)
      (first : v.stack = none ∨ v.stack = some e) :
      ViewStep t v .plain
        { v with
          el := Function.update v.el e none
          place := Function.update v.place w (.on (some e))
          frames := { f with pc := .woke } :: rest }
  | resumeSignal (w : WorkerId) (x : Option EventId) (f : Frame) (rest : List Frame)
      (e : EventId) (top : v.Top w x f rest) (pc : f.pc = .pushed) (owned : e.owner = t)
      (pending : v.el e = some (.pending t)) (signal : v.flags e = .signal) :
      ViewStep t v .plain
        { v with
          el := Function.update v.el e (some (.waiters (.signal (v.signal e))))
          place := Function.update v.place w (.on (some e))
          frames := { f with pc := .woke } :: rest }
  | finishExpected (w : WorkerId) (x : Option EventId) (f : Frame) (rest : List Frame)
      (top : v.Top w x f rest) (pc : f.pc = .woke ∨ f.pc = .holds)
      (queue : f.call.isLeaf = false) (first : v.stack = some f.e)
      (expected : x = none ∨ x = some f.e) :
      ViewStep t v .plain
        { v with
          el := Function.update v.el f.e none
          stack := v.next f.e
          place := Function.update v.place w (.on none)
          frames := { f with pc := .prep } :: rest }
  | finishRequeue (w : WorkerId) (e : EventId) (f : Frame) (rest : List Frame)
      (top : v.Top w (some e) f rest) (pc : f.pc = .woke ∨ f.pc = .holds)
      (queue : f.call.isLeaf = false) (owned : e.owner = t) (live : v.life e = .live)
      (signal : v.flags e = .signal)
      (active : v.el f.e = some (.pending t) ∨ v.el f.e = some .immediate) :
      ViewStep t v (if f.pc = .holds then .staleRequeue else .plain)
        { v with
          el := Function.update (Function.update v.el f.e none) e (some (.pending t))
          stack := v.next f.e
          place := Function.update v.place w (.on none)
          frames := { f with pc := .prep } :: rest }
  | finishIgnored (w : WorkerId) (e : EventId) (f : Frame) (rest : List Frame)
      (top : v.Top w (some e) f rest) (pc : f.pc = .holds)
      (queue : f.call.isLeaf = false) (owned : e.owner = t) (live : v.life e = .live)
      (signal : v.flags e = .signal)
      (inactive : v.el f.e ≠ some (.pending t) ∧ v.el f.e ≠ some .immediate)
      (notMutex : ∀ m, f.call ≠ .mutex m) :
      ViewStep t v (.signalOnly (!rest.isEmpty))
        { v with
          el := Function.update v.el f.e none
          frames := rest
          life := Function.update v.life f.e .dead
          result := Function.update v.result f.e (some .ok) }
  | finishIntr (w : WorkerId) (e : EventId) (f : Frame) (rest : List Frame)
      (top : v.Top w (some e) f rest) (pc : f.pc = .woke)
      (queue : f.call.isLeaf = false) (owned : e.owner = t) (live : v.life e = .live)
      (signal : v.flags e = .signal)
      (inactive : v.el f.e ≠ some (.pending t) ∧ v.el f.e ≠ some .immediate) :
      ViewStep t v (.signalOnly (!rest.isEmpty))
        { v with
          el := Function.update v.el f.e none
          frames := rest
          life := Function.update v.life f.e .dead
          result := Function.update v.result f.e (some .intr)
          interrupts := Function.update v.interrupts e (v.interrupts e + 1) }
  | leafDone (w : WorkerId) (f : Frame) (rest : List Frame) (rv : Rv)
      (top : v.Top w (some f.e) f rest) (pc : f.pc = .woke) (leaf : f.call.isLeaf = true)
      (notIntr : rv ≠ .intr) :
      ViewStep t v .plain
        { v with
          stack := v.next f.e
          place := Function.update v.place w (.on none)
          frames := rest
          life := Function.update v.life f.e .dead
          result := Function.update v.result f.e (some rv) }
  | leafIntr (w : WorkerId) (e : EventId) (after : Option EventId) (f : Frame)
      (rest : List Frame) (top : v.Top w (some e) f rest) (pc : f.pc = .woke)
      (leaf : f.call.isLeaf = true) (owned : e.owner = t) (other : e ≠ f.e)
      (left : after = some e ∨ after = none) :
      ViewStep t v .plain
        { v with
          el := Function.update v.el f.e none
          stack := v.next f.e
          place := Function.update v.place w (.on after)
          frames := rest
          life := Function.update v.life f.e .dead
          result := Function.update v.result f.e (some .intr)
          interrupts := Function.update v.interrupts e (v.interrupts e + 1) }
  | subscribe (w : WorkerId) (x : Option EventId) (n : Nat) (g : SignalId)
      (user : v.InUserCode w x) (unused : v.life (.sub t n) = .unused) :
      ViewStep t v .plain
        { v with
          el := Function.update v.el (.sub t n) (some (.waiters (.signal g)))
          life := Function.update v.life (.sub t n) .live
          next := Function.update v.next (.sub t n) none
          flags := Function.update v.flags (.sub t n) .signal
          signal := Function.update v.signal (.sub t n) g
          place := Function.update v.place w (.on none)
          fires := Function.update v.fires (.sub t n) 0
          interrupts := Function.update v.interrupts (.sub t n) 0 }
  | trylock (w : WorkerId) (x : Option EventId) (m : MutexId) (user : v.InUserCode w x)
      (free : v.mutex m = .free) :
      ViewStep t v .plain
        { v with
          mutex := Function.update v.mutex m .mine
          held := Function.update v.held m true }
  | unlock (w : WorkerId) (x : Option EventId) (m : MutexId) (after : Share)
      (user : v.InUserCode w x) (held : v.held m = true) (passed : after ≠ .mine)
      (nobody : after = .free → ∀ e, v.el e ≠ some (.waiters (.mutex m))) :
      ViewStep t v .plain
        { v with
          mutex := Function.update v.mutex m after
          held := Function.update v.held m false }
  | dying (w : WorkerId) (x : Option EventId) (status : Status) (on : v.place w = .on x)
      (frames : v.frames = []) (dies : Dying v.status status) :
      ViewStep t v .plain { v with status := status }
  | postExit (w : WorkerId) (x : Option EventId) (on : v.place w = .on x)
      (frames : v.frames = []) (announced : v.status = .announced)
      (free : v.el (.self t) = none) :
      ViewStep t v .plain
        { v with
          status := .exiting
          el := Function.update v.el (.self t) (some .immediate)
          flags := Function.update v.flags (.self t) .exiting
          place := Function.update v.place w .away }
  | exitMain (w : WorkerId) (x : Option EventId) (on : v.place w = .on x)
      (frames : v.frames = []) :
      ViewStep t v .plain { v with place := Function.update v.place w .away }

end Libtcr
