import Libtcr.WakeupAll
import Libtcr.RwLock
import Libtcr.Aio
import Libtcr.Lib.Update
import Mathlib.Algebra.Order.BigOperators.Group.List

/-! `tc_signals_since_last_call`: it fetches the counter of its thread and subtracts what it has
got, in two steps, while other threads fire signals. The counter has 64 bits, what is fetched is put
into an `int`. -/

set_option autoImplicit false

namespace Libtcr

open State

structure QueryState where
  sys : State
  /-- `v` of a thread between the two atomic operations. -/
  v : Tid → Option Int
  -- history: what the calls of a thread have returned, and how often `tc_signal_fire` has found
  -- a subscription of the thread armed
  returned : Tid → List Int
  counted : Tid → Int

inductive QueryAction where
  | system (a : Action)
  | fetch (w : WorkerId)
  | subtract (w : WorkerId)
  deriving DecidableEq, Repr

namespace State

/-- The subscriptions of thread `t` that a step finds armed and fires. -/
def armedFor (s : State) (t : Tid) : Action → Int
  | .user _ (.fire g) => (s.events (.waiters (.signal g))).countP fun e => e.owner = t
  | _ => 0

end State

namespace QueryState

/-- Thread `t` executes code of the application, or `tc_signals_since_last_call`, on `w`. -/
def runs (s : QueryState) (w : WorkerId) (t : Tid) : Bool :=
  s.sys.current w = some t && s.sys.fault.isNone && s.sys.inUserCode t

def step (s : QueryState) : QueryAction → Option QueryState
  | .system a =>
    if (s.sys.current a.worker).all (fun t => (s.v t).isNone) then
      (s.sys.step a).map fun sys => { s with
        sys := sys
        counted := fun t => s.counted t + s.sys.armedFor t a }
    else none
  | .fetch w => (s.sys.current w).bind fun t =>
    if s.runs w t ∧ s.v t = none then some { s with
      v := Function.update s.v t (some (toInt (s.sys.signalsSinceLastQuery t))) }
    else none
  | .subtract w => (s.sys.current w).bind fun t => (s.v t).map fun v => { s with
      sys := { s.sys with
        signalsSinceLastQuery :=
          Function.update s.sys.signalsSinceLastQuery t (s.sys.signalsSinceLastQuery t - v) }
      v := Function.update s.v t none
      returned := Function.update s.returned t (v :: s.returned t) }

def initial (workers : Nat) (domainOf : WorkerId → DomainId) : QueryState where
  sys := .initial workers domainOf
  v _ := none
  returned _ := []
  counted _ := 0

end QueryState

/-! ## The counter in a step of the library -/

section Counter

variable {s s' : State} {w : WorkerId} {t : Tid} {a : Action}

structure SameCounters (s s' : State) : Prop where
  counters : s'.signalsSinceLastQuery = s.signalsSinceLastQuery

private theorem runOrQueue_counters {e : EventId} {tcfd : Option FdId} {chosen : Option Tid}
    (ran : RunOrQueue (s.served w tcfd) w e chosen s') : SameCounters s s' := by
  obtain ⟨_, _, _, _, _, _, _, rfl⟩ := ran.frame
  exact ⟨rfl⟩

private theorem tcWaitqWakeupOne_counters (s : State) (wq : Waitq) :
    SameCounters s (s.tcWaitqWakeupOne wq).1 := by
  obtain ⟨_, _, _, frame⟩ := tcWaitqWakeupOne_frame s wq
  rw [frame]
  exact ⟨rfl⟩

private theorem returnIntr_counters (s : State) (t : Tid) (f : Frame) (cause : Option EventId) :
    SameCounters s (s.returnIntr t f cause) :=
  ⟨rfl⟩

private theorem finishWait_counters {e : EventId} {rv : Bool}
    (finished : FinishWait s w t e rv s') :
    SameCounters s s' := by
  obtain ⟨_, _, _, _, _, _, _, rfl⟩ := finished.frame
  exact ⟨rfl⟩

private theorem tcWaitqWakeupAll_counter (s : State) (wq : Waitq) (t : Tid) :
    (s.tcWaitqWakeupAll wq).signalsSinceLastQuery t = s.signalsSinceLastQuery t +
      (s.events (.waiters wq)).countP fun e => s.flags e = .signal ∧ s.tc e = t :=
  State.foldl_wakeupAllTurn_signals _ _ t

private theorem SystemInv.flags_of_waiters (inv : SystemInv s) {e : EventId} {wq : Waitq}
    (on : s.el e = some (.waiters wq)) : s.flags e = .signal ↔ ∃ g, wq = .signal g := by
  have thread := inv.thread e.owner
  have here : (s.view e.owner).el e = some (.waiters wq) := by simpa [State.view, State.el] using on
  have placed : (s.view e.owner).el e ≠ none := by simp [here]
  constructor
  · intro signal
    obtain ⟨n, sub⟩ := thread.sub_of_signal rfl (by simpa [State.view] using signal)
    have at_ := thread.subs n (by rw [← sub]; exact thread.live e placed)
    rw [← sub, here] at at_
    rcases at_ with same | same | same
    · exact ⟨_, EventList.waiters.inj (Option.some.inj same)⟩
    · cases same
    · cases same
  · rintro ⟨g, rfl⟩
    by_contra event
    rcases thread.frame_of_event placed (by simpa [State.view] using event) with
      ⟨f, member, rfl⟩ | self
    · -- No call waits on the queue of a signal.
      have at_ := (thread.located f member).placed placed
      rw [Placed, here] at at_
      rcases at_ with same | same | same
      · cases call : f.call <;> simp [call, Call.home] at same
      · cases same
      · cases same
    · obtain ⟨same, _⟩ := thread.selfEvent _ (self ▸ here)
      cases same

private theorem SystemInv.wakeupAll_counter (inv : SystemInv s) (wq : Waitq)
    (other : ∀ g, wq ≠ .signal g) : SameCounters s (s.tcWaitqWakeupAll wq) := by
  constructor
  funext t
  rw [tcWaitqWakeupAll_counter, List.countP_eq_zero.mpr, Int.natCast_zero, Int.add_zero]
  intro e member counted
  simp only [decide_eq_true_eq] at counted
  obtain ⟨g, same⟩ := (inv.flags_of_waiters (inv.lists.mem_events.mp member)).mp counted.1
  exact other g same

private theorem SystemInv.fire_counter (inv : SystemInv s) (g : SignalId) (t : Tid) :
    (s.tcSignalFire g).signalsSinceLastQuery t = s.signalsSinceLastQuery t +
      (s.events (.waiters (.signal g))).countP fun e => e.owner = t := by
  refine (tcWaitqWakeupAll_counter s (.signal g) t).trans ?_
  congr 2
  apply List.countP_congr
  intro e member
  have on := inv.lists.mem_events.mp member
  have signal := (inv.flags_of_waiters on).mpr ⟨g, rfl⟩
  have owner := inv.lists.owner e (by simp [on])
  simp [signal, owner]

theorem State.UserEffect.counter {op : UserOp} (effect : UserEffect s w t op s')
    (inv : SystemInv s) (other : ∀ g, op ≠ .fire g) : SameCounters s s' := by
  cases effect with
  | wakeupAll k => exact inv.wakeupAll_counter (.user k) (by simp)
  | wakeupOne q => exact tcWaitqWakeupOne_counters s (.user q)
  | fire g => exact absurd rfl (other g)
  | subscribe g n _ _ subscribed =>
      obtain ⟨_, rfl⟩ := tcSignalSubscribe_ok subscribed
      exact ⟨rfl⟩
  | unlock m _ => exact { tcWaitqWakeupOne_counters s (.mutex m) with }
  | threadPost v s₁ _ added =>
      obtain ⟨_, rfl⟩ := addEventCr_ok added
      exact ⟨rfl⟩
  | yield n s₁ _ added =>
      obtain ⟨_, rfl⟩ := addEventCr_ok added
      exact ⟨rfl⟩
  | waitFdFailed n g mask priority ctl s₁ _ refused => cases refused <;> exact ⟨rfl⟩
  | waitFd n g mask priority ctl s₁ _ added =>
      cases added
      exact ⟨rfl⟩
  | waitqWait n q s₁ _ prepared =>
      obtain ⟨_, rfl⟩ := tcWaitqPrepareToWait_ok prepared
      exact ⟨rfl⟩
  | threadWait n v d id s₁ _ prepared =>
      obtain ⟨_, rfl⟩ := tcWaitqPrepareToWait_ok prepared
      exact ⟨rfl⟩
  | _ => exact ⟨rfl⟩

theorem State.FrameEffect.counter {f : Frame} (effect : FrameEffect s w t f s') :
    SameCounters s s' := by
  cases effect with
  | scheduled _ _ scheduled => cases scheduled <;> exact ⟨rfl⟩
  | interrupted s₁ _ _ finished => exact { finishWait_counters finished with }
  | again s₁ _ _ finished => exact { finishWait_counters finished with }
  | woken s₁ _ _ _ finished => exact { finishWait_counters finished with }
  | prepared wq s₁ _ _ _ prepared =>
      obtain ⟨_, rfl⟩ := tcWaitqPrepareToWait_ok prepared
      exact ⟨rfl⟩
  | held s₁ rv _ finished => exact { finishWait_counters finished with }
  | yieldIntr _ _ _ _ _ => exact { returnIntr_counters _ t f _ with }
  | fdIntr _ _ _ _ _ _ => exact { returnIntr_counters _ t f _ with }
  | _ => exact ⟨rfl⟩

theorem State.DieEffect.counter (effect : DieEffect s w t s') (inv : SystemInv s) :
    SameCounters s s' := by
  cases effect with
  | settled _ => exact ⟨rfl⟩
  | announced _ => exact { inv.wakeupAll_counter (.exit t) (by simp) with }
  | exits s₁ _ added =>
      obtain ⟨_, rfl⟩ := addEventCr_ok added
      exact ⟨rfl⟩

/-- Only `tc_signal_fire` counts, and it counts the subscriptions that it finds armed. -/
theorem State.Effect.counter (effect : s.Effect a s') (inv : SystemInv s) (t : Tid) :
    s'.signalsSinceLastQuery t = s.signalsSinceLastQuery t + s.armedFor t a := by
  have same : SameCounters s s' → s.armedFor t a = 0 →
      s'.signalsSinceLastQuery t = s.signalsSinceLastQuery t + s.armedFor t a := by
    intro kept none
    rw [none, Int.add_zero, kept.counters]
  cases effect with
  | queued w scan x s₁ _ _ ran => exact same { runOrQueue_counters ran with } rfl
  | reaped w scan x u s₁ _ _ _ ran => exact same { runOrQueue_counters ran with } rfl
  | chosen w scan x u s₁ immediateFd _ _ _ ran => exact same { runOrQueue_counters ran with } rfl
  | reported w g em _ _ =>
      obtain ⟨moved, choice, handled⟩ :=
        handleReport_spec (fun f => inv.lists.lists.nodup (.fd f)) w g em
      obtain ⟨errHup, fdEpEvents, equal⟩ := handled.effect
      refine same ?_ rfl
      rw [equal]
      exact ⟨rfl⟩
  | reportQueued w g x s₁ _ _ ran => exact same { runOrQueue_counters ran with } rfl
  | reportChosen w g x u s₁ _ _ ran => exact same { runOrQueue_counters ran with } rfl
  | aio w k _ => exact same (inv.wakeupAll_counter (.user k) (by simp)) rfl
  | user w u op _ _ _ effect =>
      by_cases fires : ∃ g, op = .fire g
      · obtain ⟨g, rfl⟩ := fires
        cases effect
        exact inv.fire_counter g t
      · have other : ∀ g, op ≠ .fire g := fun g same => fires ⟨g, same⟩
        refine same (effect.counter inv other) ?_
        cases op <;> first | rfl | exact absurd rfl (other _)
  | advanced w u f rest _ _ _ effect => exact same effect.counter rfl
  | died w u _ _ _ effect => exact same (effect.counter inv) rfl
  | _ => exact same ⟨rfl⟩ rfl

end Counter

/-! ## Runs -/

structure QueryInv (s : QueryState) : Prop where
  sys : SystemInv s.sys
  sum : ∀ t, (s.returned t).sum + s.sys.signalsSinceLastQuery t = s.counted t
  nonneg : ∀ t, 0 ≤ s.sys.signalsSinceLastQuery t
  fetched : ∀ t v, s.v t = some v →
    v ≤ s.sys.signalsSinceLastQuery t ∧ (s.counted t < 2 ^ 31 → 0 ≤ v)
  returned : ∀ t, s.counted t < 2 ^ 31 → ∀ v ∈ s.returned t, 0 ≤ v

private theorem toInt_le {c : Int} (nonneg : 0 ≤ c) : toInt c ≤ c := by
  unfold toInt
  by_cases small : c < 2 ^ 31
  · exact (Int.bmod_eq_of_le (by omega) (by omega)).le
  · have below : Int.bmod c (2 ^ 32) < (((2 ^ 32 : Nat) : Int) + 1) / 2 := Int.bmod_lt (by decide)
    omega

private theorem toInt_of_small {c : Int} (nonneg : 0 ≤ c) (small : c < 2 ^ 31) : toInt c = c :=
  Int.bmod_eq_of_le (by omega) (by omega)

private theorem State.armedFor_nonneg (s : State) (t : Tid) (a : Action) : 0 ≤ s.armedFor t a := by
  unfold State.armedFor
  split
  · exact Int.natCast_nonneg _
  · exact Int.le_refl _

private theorem State.armedFor_of_error {s : State} {a : Action} {fault : Fault}
    (failed : s.act a = some (.error fault)) (t : Tid) : s.armedFor t a = 0 := by
  unfold State.armedFor
  split
  · simp only [act, userStep] at failed
    split at failed
    · split at failed <;> cases failed
    · cases failed
  · rfl

theorem QueryInv.system {s : QueryState} {a : Action} {sys : State} (inv : QueryInv s)
    (stepped : s.sys.step a = some sys) : QueryInv { s with
      sys := sys
      counted := fun t => s.counted t + s.sys.armedFor t a } := by
  have armed := fun t => s.sys.armedFor_nonneg t a
  have counter : ∀ t, sys.signalsSinceLastQuery t =
      s.sys.signalsSinceLastQuery t + s.sys.armedFor t a := by
    intro t
    obtain ⟨_, effect | ⟨fault, failed, rfl⟩⟩ := State.step_cases stepped
    · exact effect.counter inv.sys t
    · rw [State.armedFor_of_error failed, Int.add_zero]
  constructor
  case sys => exact inv.sys.step stepped
  case sum =>
    intro t
    have before := inv.sum t
    have after := counter t
    dsimp only
    omega
  case nonneg =>
    intro t
    have before := inv.nonneg t
    have after := counter t
    have more := armed t
    dsimp only
    omega
  case fetched =>
    intro t v fetched
    obtain ⟨high, low⟩ := inv.fetched t v fetched
    have after := counter t
    have more := armed t
    dsimp only
    exact ⟨by omega, fun few => low (by omega)⟩
  case returned =>
    intro t few
    have more := armed t
    dsimp only at few
    exact inv.returned t (by omega)

/-- The counter does not hold more than has been counted, unless a call has subtracted a negative
number. -/
theorem QueryInv.le_counted {s : QueryState} {t : Tid} (inv : QueryInv s)
    (few : s.counted t < 2 ^ 31) : s.sys.signalsSinceLastQuery t ≤ s.counted t := by
  have sum := inv.sum t
  have returned := List.sum_nonneg (inv.returned t few)
  omega

private theorem QueryInv.fetch {s : QueryState} {t : Tid} (inv : QueryInv s) : QueryInv { s with
      v := Function.update s.v t (some (toInt (s.sys.signalsSinceLastQuery t))) } where
  sys := inv.sys
  sum := inv.sum
  nonneg := inv.nonneg
  fetched u v fetched := by
    rcases Update.eq_cases fetched with ⟨rfl, new⟩ | ⟨_, before⟩
    · obtain rfl := Option.some.inj new
      have nonneg := inv.nonneg u
      refine ⟨toInt_le nonneg, fun few => ?_⟩
      rw [toInt_of_small nonneg (Int.lt_of_le_of_lt (inv.le_counted few) few)]
      exact nonneg
    · exact inv.fetched u v before
  returned := inv.returned

private theorem QueryInv.subtract {s : QueryState} {t : Tid} {v : Int} (inv : QueryInv s)
    (fetched : s.v t = some v) : QueryInv { s with
      sys := { s.sys with
        signalsSinceLastQuery :=
          Function.update s.sys.signalsSinceLastQuery t (s.sys.signalsSinceLastQuery t - v) }
      v := Function.update s.v t none
      returned := Function.update s.returned t (v :: s.returned t) } := by
  obtain ⟨high, low⟩ := inv.fetched t v fetched
  constructor
  case sys => exact ⟨⟨inv.sys.thread, inv.sys.mutex, inv.sys.control, inv.sys.results⟩,
    { inv.sys.lists with }, inv.sys.report⟩
  case sum =>
    intro u
    have before := inv.sum u
    by_cases same : u = t
    · subst same
      simp only [Function.update_self, List.sum_cons]
      omega
    · simpa only [Function.update_of_ne same] using before
  case nonneg =>
    intro u
    by_cases same : u = t
    · subst same
      simp only [Function.update_self]
      omega
    · simpa only [Function.update_of_ne same] using inv.nonneg u
  case fetched =>
    intro u x later
    obtain ⟨other, before⟩ := Update.old_of_ne later (by simp)
    simpa only [Function.update_of_ne other] using inv.fetched u x before
  case returned =>
    intro u few x member
    by_cases same : u = t
    · subst same
      simp only [Function.update_self] at member
      rcases List.mem_cons.mp member with rfl | old
      · exact low few
      · exact inv.returned u few x old
    · simp only [Function.update_of_ne same] at member
      exact inv.returned u few x member

theorem QueryInv.step {s s' : QueryState} {a : QueryAction} (inv : QueryInv s)
    (stepped : s.step a = some s') : QueryInv s' := by
  cases a with
  | system a =>
      simp only [QueryState.step] at stepped
      split at stepped
      · obtain ⟨sys, moved, rfl⟩ := Option.map_eq_some_iff.mp stepped
        exact inv.system moved
      · cases stepped
  | fetch w =>
      obtain ⟨t, _, fetched⟩ := Option.bind_eq_some_iff.mp stepped
      split at fetched
      · cases fetched
        exact inv.fetch
      · cases fetched
  | subtract w =>
      obtain ⟨t, _, subtracted⟩ := Option.bind_eq_some_iff.mp stepped
      obtain ⟨v, fetched, rfl⟩ := Option.map_eq_some_iff.mp subtracted
      exact inv.subtract fetched

/-- No signal is lost or counted twice by `tc_signals_since_last_call`: what the calls of a thread
have returned and what its counter holds make up the armed subscriptions of the thread that were
fired, in every interleaving. Before 2^31 of them have been, no call returns a negative number. -/
theorem signals_counted {workers : Nat} {domainOf : WorkerId → DomainId} {s : QueryState}
    (reached : Transition.Run QueryState.step Transition.always (.initial workers domainOf) s)
    (t : Tid) :
    (s.returned t).sum + s.sys.signalsSinceLastQuery t = s.counted t ∧
      0 ≤ s.sys.signalsSinceLastQuery t ∧
      (s.counted t < 2 ^ 31 → ∀ v ∈ s.returned t, 0 ≤ v) := by
  have start : QueryInv (.initial workers domainOf) := by
    refine ⟨SystemInv.initial workers domainOf, fun t => rfl, fun t => Int.le_refl _, ?_, ?_⟩
    · exact fun t v fetched => by cases fetched
    · exact fun t _ v member => by cases member
  have inv : QueryInv s := reached.invariant QueryInv start fun inv _ stepped => inv.step stepped
  exact ⟨inv.sum t, inv.nonneg t, inv.returned t⟩

def firedDuringQuery : List QueryAction :=
  [.system (.user 0 (.subscribe 0 0)), .system (.user 0 (.subscribe 1 1)),
    .system (.user 1 (.fire 0)), .fetch 0, .system (.user 1 (.fire 1)), .system (.user 1 (.fire 0)),
    .subtract 0, .fetch 0, .subtract 0]

set_option maxRecDepth 20000 in
theorem signals_counted_during_query : ∃ s,
    Transition.Run QueryState.step Transition.always (.initial 2 fun _ => 0) s ∧
    s.returned 0 = [1, 1] ∧ s.counted 0 = 2 ∧ s.sys.signalsSinceLastQuery 0 = 0 := by
  obtain ⟨s, reached, shown⟩ := Transition.exists_run QueryState.step (.initial 2 fun _ => 0)
    firedDuringQuery
    (fun s => decide (s.returned 0 = [1, 1]) && decide (s.counted 0 = 2)) (by decide)
  simp only [Bool.and_eq_true, decide_eq_true_eq] at shown
  have sum := (signals_counted reached 0).1
  rw [shown.1, shown.2] at sum
  exact ⟨s, reached, shown.1, shown.2, by simpa using sum⟩

end Libtcr
