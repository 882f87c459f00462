import Libtcr.AlertProperties
import Libtcr.SignalDestroy

/-! A call of `tc_signal_unsubscribe_nofree`, statement by statement: it collects the locks of the
three lists on which the event of the subscription can be, while the other workers go on. -/

set_option autoImplicit false

namespace Libtcr

open State

/-- Where a call of `tc_signal_unsubscribe_nofree` is. The thread is the local variable `tc`. -/
inductive UnsubPc where
  | start
  | immediate
  | pending (tc : Tid)
  /-- The lock of the waiters of the signal has been taken, too. -/
  | waiters (tc : Tid)
  | done
  /-- `spin_lock` of a lock inside the `struct tc_thread` that a pointer of the value
  `0xc2c2c2c2c2c2c2c2` points to. -/
  | poisoned
  deriving DecidableEq, Repr

/-- The steps that are left of the call. -/
def UnsubPc.left : UnsubPc → Nat
  | .start => 4
  | .immediate => 3
  | .pending _ => 2
  | .waiters _ => 1
  | .done | .poisoned => 0

namespace State

/-- The pointer `ss->event.tc`, unless `memset(ss, 0xc2, sizeof(*ss))` has overwritten it. -/
def subTc (s : State) (e : EventId) : Option Tid :=
  if s.life e = .live then some (s.tc e) else none

/-- `remove_event_holding_locks(e, held...)`. For an event that is on none of the lists in `held`,
`remove_event` takes the lock of the list it is on. -/
def removeEventHoldingLocksOf (s : State) (held : List EventList) (e : EventId) : Option State :=
  match s.el e with
  | none => some s
  | some k => if k ∈ held then some (s.detachEvent e) else s.removeEvent e

/-- The part of `tc_signal_unsubscribe_nofree` in which it holds all three locks, and the `memset`:
once the event is on no list, nobody but the owner of the subscription can find it. -/
def unsubscribeLocked (s : State) (g : SignalId) (e : EventId) (tc : Tid) : Option State :=
  ((s.removeSub g e).removeEventHoldingLocksOf [.waiters (.signal g), .pending tc, .immediate] e).map
    fun s' => { s' with life := Function.update s'.life e .dead }

end State

/-- The system, and a worker that executes `tc_signal_unsubscribe_nofree`. -/
structure UnsubState where
  sys : State
  pc : UnsubPc

inductive UnsubLabel where
  | other (a : Action)
  | call
  deriving DecidableEq, Repr

/-- The call of `tc_signal_unsubscribe_nofree` on worker `w` for the subscription `n` of thread `u`,
made with the signal `g`. The other workers may take any step, also one that has to wait for a lock
that the caller holds; they do not unsubscribe the same subscription. -/
def UnsubState.step (w : WorkerId) (g : SignalId) (u : Tid) (n : Nat) (s : UnsubState) :
    UnsubLabel → Option UnsubState
  | .other a =>
    if a.worker ≠ w ∧ a ≠ .user a.worker (.unsubscribe u n) then
      (s.sys.step a).map fun sys => { s with sys := sys }
    else none
  | .call =>
    if s.sys.fault = none then
      match s.pc with
      | .start => some { s with pc := .immediate }
      | .immediate =>
        match s.sys.subTc (.sub u n) with
        | some tc => some { s with pc := .pending tc }
        | none => some { s with pc := .poisoned }
      | .pending tc => some { s with pc := .waiters tc }
      | .waiters tc => (s.sys.unsubscribeLocked g (.sub u n) tc).map fun sys => ⟨sys, .done⟩
      | .done | .poisoned => none
    else none

/-! ## The caller and the subscription while the locks are collected -/

section Others

variable {s s' : State} {a : Action} {w : WorkerId} {t : Tid}

/-- A step of another worker leaves alone where the thread is that a worker executes. -/
theorem SystemInv.status_other (inv : SystemInv s) (stepped : s.step a = some s')
    (on : s.mode w = .thread t) (other : a.worker ≠ w) (code : s.inUserCode t = true) :
    s'.status t = s.status t := by
  have early : s.status t = .alive ∨ s.status t = .unlinked := by
    simp only [inUserCode, Bool.and_eq_true, Bool.or_eq_true, decide_eq_true_eq] at code
    exact code.1
  have alone : ∀ {v : WorkerId}, s.mode v = .thread t → v = w := by
    intro v on'
    exact (inv.thread t).unique v w (by simp [State.view, on']) (by simp [State.view, on])
  obtain ⟨_, effect | ⟨fault, _, rfl⟩⟩ := State.step_cases stepped
  case inr => rfl
  by_cases dying : (s'.status t).dying = true
  · rcases effect.dies inv dying with same | ⟨v, on', ⟨rfl, _⟩ | ⟨rfl, _⟩⟩
    · exact same
    · exact absurd (alone on') other
    · exact absurd (alone on') other
  · cases inv.lifeStep (t := t) stepped with
    | same status _ => exact status
    | made unused _ => simp [unused] at early
    | posted created _ _ => simp [created] at early
    | started posted _ _ => simp [posted] at early
    | unlinked _ after _ => simp [after, Status.dying] at dying
    | settled _ after _ => simp [after, Status.dying] at dying
    | announced _ after _ _ => simp [after, Status.dying] at dying
    | exits _ after _ => simp [after, Status.dying] at dying
    | freed exiting _ _ => simp [exiting] at early

/-- A step of another worker does not make the worker leave the thread, or change the calls of
the thread. -/
theorem SystemInv.stays_other (inv : SystemInv s) (stepped : s.step a = some s')
    (on : s.mode w = .thread t) (other : a.worker ≠ w) :
    s'.mode w = .thread t ∧ s'.frames t = s.frames t := by
  unfold State.step at stepped
  split at stepped
  · split at stepped
    · cases stepped
    · next s₁ done =>
      cases stepped
      exact ⟨((act_ok done).mode_other inv.lists other).trans on, inv.frames_other done on other⟩
    · cases stepped
      exact ⟨on, rfl⟩
  · cases stepped

theorem SystemInv.signal_stays {u : Tid} {n : Nat} (inv : SystemInv s)
    (stepped : s.step a = some s') (live : s.life (.sub u n) = .live) :
    s'.signal (.sub u n) = s.signal (.sub u n) := by
  obtain ⟨_, effect | ⟨fault, _, rfl⟩⟩ := State.step_cases stepped
  · cases effect.sssStep inv with
    | same _ signal _ => rw [signal]
    | subscribed v k g unused _ signal _ =>
        have other : EventId.sub u n ≠ .sub v k := by
          intro same
          rw [same, unused] at live
          cases live
        rw [signal, Function.update_of_ne other]
    | unsubscribed v k _ _ signal _ => rw [signal]
  · rfl

end Others

/-! ## What a subscription that has been cancelled can still do -/

/-- The call with event `c` has been woken by `e`, and has not yet looked at it. -/
def FlightOf (v : View) (e c : EventId) : Prop :=
  ∃ w f rest, v.frames = f :: rest ∧ f.e = c ∧
    (v.place w = .entering (some e) ∨ v.place w = .on (some e) ∧ f.pc = .woke)

section View

variable {t : Tid} {v v' : View} {kind : Kind} {n : Nat}

private theorem FlightOf.inFlight {e c : EventId} (flight : FlightOf v e c) : InFlight v e := by
  obtain ⟨w, f, rest, frames, _, entering | ⟨on, pc⟩⟩ := flight
  · exact ⟨w, .inl entering⟩
  · exact ⟨w, .inr ⟨on, f, rest, frames, pc⟩⟩

theorem Delivery.dead {e : EventId} (delivery : Delivery t v v' e kind) (dead : v.life e = .dead) :
    v'.life e = .dead := by
  cases delivery with
  | quiet life _ _ _ => exact life.trans dead
  | fired life _ _ _ _ => exact life.trans dead
  | delivered life _ _ _ _ => exact life.trans dead
  | reported life _ _ _ _ _ => exact life.trans dead
  | requeued life _ _ _ _ => exact life.trans dead
  | stale life _ _ => exact life.trans dead
  | gone used notLive _ _ _ =>
      have notUnused := used (by simp [dead])
      cases after : v'.life e with
      | unused => exact absurd after notUnused
      | live => exact absurd after notLive
      | dead => rfl
  | subscribed unused _ _ _ _ => simp [dead] at unused

theorem ViewStep.sub_live (step : ViewStep t v kind v') (inv : ThreadInv t v)
    (live : v.life (.sub t n) = .live) (kept : kind ≠ .cancel (.sub t n)) :
    v'.life (.sub t n) = .live := by
  have apart : ∀ {f : Frame} {rest : List Frame}, v.frames = f :: rest → .sub t n ≠ f.e :=
    fun frames equal => inv.auto_ne_sub (frames ▸ .head _) n equal.symm
  cases step with
  | cancel k _ =>
      have other : n ≠ k := fun same => kept (by rw [same])
      simpa [other] using live
  | born _ => simpa using live
  | freed w _ => simpa using live
  | begin w x k call pc _ _ _ => simpa using live
  | refused w x f rest rv top _ _ => simpa [apart top.2] using live
  | returnPlain w x f rest rv top _ _ _ => simpa [apart top.2] using live
  | returnLocked w x f rest m top _ _ _ => simpa [apart top.2] using live
  | finishIgnored w e f rest top _ _ _ _ _ _ _ => simpa [apart top.2] using live
  | finishIntr w e f rest top _ _ _ _ _ _ => simpa [apart top.2] using live
  | leafDone w f rest rv top _ _ _ => simpa [apart top.2] using live
  | leafIntr w e after f rest top _ _ _ _ _ => simpa [apart top.2] using live
  | subscribe w x k g _ unused =>
      have other : n ≠ k := by
        rintro rfl
        simp [live] at unused
      simpa [other] using live
  | _ => exact live

/-- A call that is found woken by a cancelled subscription was so before the step. -/
theorem ViewStep.flightOf (step : ViewStep t v kind v') (inv : ThreadInv t v)
    (dead : v.life (.sub t n) = .dead) {c : EventId} (flight : FlightOf v' (.sub t n) c) :
    FlightOf v (.sub t n) c := by
  have off : ∀ {k : EventList}, v.el (.sub t n) ≠ some k := by
    intro k on
    have live := inv.live (.sub t n) (by simp [on])
    simp [dead] at live
  have below : ∀ {f : Frame} {rest : List Frame}, v.frames = f :: rest →
      ∀ g rest', rest = g :: rest' → g.pc ≠ .woke :=
    fun frames g rest' equal => Frame.awake_of_condition
      (inv.lower _ _ frames g (equal ▸ .head _))
  -- the worker that the step is about has another event than that of the subscription
  have elsewhere : ∀ {w : WorkerId} {p : Place}, v'.place = Function.update v.place w p →
      v'.frames = v.frames → p ≠ .entering (some (.sub t n)) → p ≠ .on (some (.sub t n)) →
      FlightOf v (.sub t n) c := by
    intro w p place same notEntering notOn
    obtain ⟨w', f, rest, frames, event, woken⟩ := flight
    have here : w' ≠ w := by
      rintro rfl
      rw [place, Function.update_self] at woken
      rcases woken with entering | ⟨on, _⟩
      · exact notEntering entering
      · exact notOn on
    rw [place, Function.update_of_ne here] at woken
    exact ⟨w', f, rest, same ▸ frames, event, woken⟩
  have acts : ∀ {w : WorkerId} {x : Option EventId}, v.place w = .on x →
      (v'.place = v.place ∨ ∃ p, v'.place = Function.update v.place w p ∧ ∀ y, p ≠ .entering y) →
      (∀ f rest, v'.frames = f :: rest → f.pc ≠ .woke) → FlightOf v (.sub t n) c := by
    intro w x on place awake
    exact absurd flight.inFlight (not_inFlight_executed (inv.executed on) place awake)
  cases step with
  | selectSignal w e k _ on _ _ _ _ =>
      refine elsewhere rfl rfl (fun same => ?_) (by simp)
      obtain rfl : e = .sub t n := by simpa using same
      exact off on
  | selectEvent w e k _ on _ _ _ _ _ _ =>
      refine elsewhere rfl rfl (fun same => ?_) (by simp)
      obtain rfl : e = .sub t n := by simpa using same
      exact off on
  | reap w e _ _ _ _ => exact elsewhere rfl rfl (by simp) (by simp)
  | freed w _ => exact elsewhere rfl rfl (by simp) (by simp)
  | enter w x f rest entering frames =>
      obtain ⟨w', g, rest', top, event, woken⟩ := flight
      obtain ⟨rfl, rfl⟩ := List.cons.inj top
      by_cases here : w' = w
      · have same : x = some (.sub t n) := by simpa [here] using woken
        exact ⟨w, f, rest, frames, event, .inl (same ▸ entering)⟩
      · have away : v.place w' = .away := by
          by_contra busy
          exact here (inv.unique w' w busy (by simp [entering]))
        simp [here, away] at woken
  | start w x _ frames _ =>
      obtain ⟨w', g, rest', top, _, _⟩ := flight
      simp [frames] at top
  | begin w x k call pc user _ begins =>
      exact acts user.1 (.inl rfl) (awake_cons (by cases begins <;> simp))
  | enqueue w x f rest flag top _ _ _ => exact acts top.1 (.inl rfl) (awake_cons (by simp))
  | push w x f rest top _ => exact acts top.1 (.inl rfl) (awake_cons (by simp))
  | prepare w x f rest top _ _ =>
      refine acts top.1 (.inr ⟨_, rfl, by simp⟩) (awake_cons ?_)
      cases f.call <;> simp [Call.afterPrepare]
  | turn w x f rest pc top turned => exact acts top.1 (.inl rfl) (awake_cons turned.awake.2)
  | acquire w x f rest m top _ _ _ => exact acts top.1 (.inl rfl) (awake_cons (by simp))
  | refused w x f rest rv top _ _ => exact acts top.1 (.inl rfl) (below top.2)
  | returnPlain w x f rest rv top _ _ _ => exact acts top.1 (.inl rfl) (below top.2)
  | returnLocked w x f rest m top _ _ _ => exact acts top.1 (.inl rfl) (below top.2)
  | sleep w x f rest top _ _ => exact acts top.1 (.inr ⟨_, rfl, by simp⟩) (awake_cons (by simp))
  | resumeEvent w x f rest e top _ _ pending _ _ =>
      have woken := ((inFlight_on ((inv.executed top.1).moved _)).mp flight.inFlight).1
      obtain rfl : e = .sub t n := Option.some.inj woken
      exact absurd pending off
  | resumeSignal w x f rest e top _ _ pending _ =>
      have woken := ((inFlight_on ((inv.executed top.1).moved _)).mp flight.inFlight).1
      obtain rfl : e = .sub t n := Option.some.inj woken
      exact absurd pending off
  | finishExpected w x f rest top _ _ _ _ =>
      exact acts top.1 (.inr ⟨_, rfl, by simp⟩) (awake_cons (by simp))
  | finishRequeue w e f rest top _ _ _ _ _ _ =>
      exact acts top.1 (.inr ⟨_, rfl, by simp⟩) (awake_cons (by simp))
  | finishIgnored w e f rest top _ _ _ _ _ _ _ => exact acts top.1 (.inl rfl) (below top.2)
  | finishIntr w e f rest top _ _ _ _ _ _ => exact acts top.1 (.inl rfl) (below top.2)
  | leafDone w f rest rv top _ _ _ => exact acts top.1 (.inr ⟨_, rfl, by simp⟩) (below top.2)
  | leafIntr w e after f rest top _ _ _ _ _ =>
      exact acts top.1 (.inr ⟨_, rfl, by simp⟩) (below top.2)
  | subscribe w x k g user _ =>
      refine acts user.1 (.inr ⟨_, rfl, by simp⟩) fun g rest' frames => ?_
      exact Frame.awake_of_condition (user.condition g rest' frames)
  | postExit w x _ _ _ _ => exact elsewhere rfl rfl (by simp) (by simp)
  | exitMain w x _ _ => exact elsewhere rfl rfl (by simp) (by simp)
  | _ => exact flight

end View

end Libtcr
