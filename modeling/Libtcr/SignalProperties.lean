import Libtcr.SystemInvariant
import Libtcr.SignalInvariant

/-! Signals over whole runs: none is lost, and none is delivered twice. -/

set_option autoImplicit false

namespace Libtcr

open State

/-- The thread is inside a sleeping call that has not returned, and `e` is the
`woken_by_event` of its worker. -/
def State.WokenBy (s : State) (t : Tid) (e : EventId) : Prop :=
  ∃ w, s.Owns w t ∧ s.wokenByEvent w = some e ∧
    ∃ f rest, s.frames t = f :: rest ∧ (f.pc = .asleep ∨ f.pc = .woke)

private theorem State.WokenBy.of_inFlight {s : State} {t : Tid} {n : Nat} (inv : SystemInv s)
    (live : s.life (.sub t n) = .live) (flight : InFlight (s.view t) (.sub t n)) :
    s.WokenBy t (.sub t n) := by
  obtain ⟨w, entering | ⟨on, f, rest, frames, pc⟩⟩ := flight
  · obtain ⟨mode, woken⟩ := placeOf_eq_entering.mp entering
    refine ⟨w, .inl mode, woken, ?_⟩
    rcases (inv.thread t).entering w _ entering with ⟨posted, _⟩ | ⟨_, f, rest, frames, pc⟩
    · have newborn := (inv.thread t).newborn (by rw [posted]; rfl)
      exact absurd (by simpa [State.view] using live) (newborn.2.2 n)
    · exact ⟨f, rest, frames, .inl pc⟩
  · obtain ⟨mode, woken⟩ := placeOf_eq_on.mp on
    exact ⟨w, .inr mode, woken, f, rest, frames, .inr pc⟩

theorem SystemInv.subscription_placed {s : State} (inv : SystemInv s) {t : Tid} {n : Nat}
    (live : s.life (.sub t n) = .live) :
    ∃ k, (k = .waiters (.signal (s.signal (.sub t n))) ∨ k = .immediate ∨ k = .pending t) ∧
      ∀ k', .sub t n ∈ s.events k' ↔ k' = k := by
  have only : ∀ {k : EventList}, s.el (.sub t n) = some k →
      ∀ k', .sub t n ∈ s.events k' ↔ k' = k := by
    intro k on k'
    rw [inv.lists.mem_events, on, Option.some.injEq, eq_comm]
  have placed := (inv.thread t).subs n (by simpa [State.view] using live)
  simp only [State.view, own_sub] at placed
  rcases placed with waits | immediate | pending
  · exact ⟨_, .inl rfl, only waits⟩
  · exact ⟨_, .inr (.inl rfl), only immediate⟩
  · exact ⟨_, .inr (.inr rfl), only pending⟩

private theorem tcSignalFire_active {s : State} (inv : SystemInv s) {t : Tid} {n : Nat}
    (live : s.life (.sub t n) = .live) :
    Active t ((s.tcSignalFire (s.signal (.sub t n))).view t) (.sub t n) := by
  have moved := (IntrusiveLists.movesTo_front EventList.immediate).foldl_el s.lists
    (s.events (.waiters (.signal (s.signal (.sub t n))))) (.sub t n)
  simp only [← tcWaitqWakeupAll_lists, inv.lists.mem_events, State.el] at moved
  have placed := (inv.thread t).subs n (by simpa [State.view] using live)
  simp only [State.view, own_sub] at placed
  unfold Active
  simp only [State.view, own_sub, tcSignalFire, moved]
  rcases placed with waits | immediate | pending
  · exact .inl (by simp [waits])
  · exact .inl (by simp [immediate])
  · exact .inr (by simp [pending])

private theorem fire_step {s s' : State} {w : WorkerId} {g : SignalId}
    (stepped : s.step (.user w (.fire g)) = some s') : s' = s.tcSignalFire g := by
  obtain ⟨_, effect | ⟨fault, failed, _⟩⟩ := State.step_cases stepped
  · cases effect with
    | user w t op _ on user effect =>
        cases effect
        rfl
  · simp only [State.act] at failed
    split at failed
    · split at failed
      · simp [userStep] at failed
      · cases failed
    · cases failed

/-- A subscription's event is on exactly one of its signal's wait queue, `common.immediate`
and the pending list of its thread. After `tc_signal_fire`, and until the subscription has
made a sleeping call return `RV_INTR` or is cancelled, the event is on one of the latter two
or is what has woken the thread in a sleeping call that has not returned. -/
theorem signal_never_lost {workers : Nat} {domainOf : WorkerId → DomainId} {s : State}
    (reached : Reachable workers domainOf s) {t : Tid} {n : Nat}
    (live : s.life (.sub t n) = .live) :
    (∃ k, (k = .waiters (.signal (s.signal (.sub t n))) ∨ k = .immediate ∨ k = .pending t) ∧
        ∀ k', .sub t n ∈ s.events k' ↔ k' = k) ∧
      ∀ w s₁ s₂, s.step (.user w (.fire (s.signal (.sub t n)))) = some s₁ →
        Transition.Run State.step Transition.always s₁ s₂ → s₂.life (.sub t n) = .live →
        s₂.interrupts (.sub t n) = s.interrupts (.sub t n) →
        .sub t n ∈ s₂.events .immediate ∨ .sub t n ∈ s₂.events (.pending t) ∨
          s₂.WokenBy t (.sub t n) := by
  have inv := SystemInv.run reached
  refine ⟨inv.subscription_placed live, fun w s₁ s₂ fired run still same => ?_⟩
  have inv₁ := inv.step fired
  have inv₂ := inv₁.later run
  have active := tcSignalFire_active inv live
  obtain rfl := fire_step fired
  have owed : Owed t (s.interrupts (.sub t n)) (.sub t n) (s₂.view t) := by
    refine inv₁.view_later run t _ ⟨?_, ?_, fun _ _ => .inl active⟩ ?_
    · simp [State.view, tcSignalFire, tcWaitqWakeupAll, live]
    · simp [State.view, tcSignalFire, tcWaitqWakeupAll]
    · intro base a v v' kind _ _ view owed _ step
      exact (step.delivery view.thread n).owed owed
  have onTheWay := owed.onTheWay (by simpa [State.view] using still)
    (by simpa [State.view] using same)
  rcases onTheWay with (immediate | pending) | flight
  · exact .inl (inv₂.lists.mem_events.mpr (by simpa [State.view, State.el] using immediate))
  · exact .inr (.inl (inv₂.lists.mem_events.mpr (by simpa [State.view, State.el] using pending)))
  · exact .inr (.inr (.of_inFlight inv₂ still flight))

set_option maxRecDepth 10000 in
/-- The signal is fired, then its subscriber calls `tc_waitq_wait` and is woken by it. -/
theorem signal_never_lost_woken :
    ∃ s s₁ s₂, Reachable 1 (fun _ => 0) s ∧ s.life (.sub 0 0) = .live ∧
      s.step (.user 0 (.fire (s.signal (.sub 0 0)))) = some s₁ ∧
      Transition.Run State.step Transition.always s₁ s₂ ∧
      s₂.frames 0 = [⟨.waitq 0, .auto 0 0, .woke, none⟩] ∧
      s₂.el (.sub 0 0) = some (.waiters (.signal 0)) ∧ s₂.WokenBy 0 (.sub 0 0) := by
  obtain ⟨s, reached, shown⟩ := reachable_of_exec 1 (fun _ => 0) [.user 0 (.subscribe 0 0)]
    (fun s => s.life (.sub 0 0) = .live &&
      (s.step (.user 0 (.fire (s.signal (.sub 0 0))))).any fun s₁ =>
        (Transition.exec State.step s₁ [.user 0 (.waitqWait 0 0), .advance 0, .leave 0,
          .runImmediate 0 .any, .enter 0]).any fun s₂ =>
            s₂.life (.sub 0 0) = .live ∧ s₂.interrupts (.sub 0 0) = s.interrupts (.sub 0 0) ∧
              s₂.frames 0 = [⟨.waitq 0, .auto 0 0, .woke, none⟩] ∧
              s₂.el (.sub 0 0) = some (.waiters (.signal 0))) (by decide)
  obtain ⟨lives, after⟩ := Bool.and_eq_true_iff.mp shown
  have live := of_decide_eq_true lives
  obtain ⟨s₁, fired, later⟩ := (Option.any_eq_true _ _).mp after
  obtain ⟨s₂, ended, shown⟩ := (Option.any_eq_true _ _).mp later
  have run := Transition.run_of_exec ended
  obtain ⟨still, same, frames, waits⟩ := of_decide_eq_true shown
  have inv := ((SystemInv.run reached).step fired).later run
  refine ⟨s, s₁, s₂, reached, live, fired, run, frames, waits, ?_⟩
  rcases (signal_never_lost reached live).2 0 s₁ s₂ fired run still same with
    immediate | pending | woken
  · simp [inv.lists.mem_events.mp immediate] at waits
  · simp [inv.lists.mem_events.mp pending] at waits
  · exact woken

/-! ## No delivery without a fire -/

/-- No call of `tc_waitq_finish_wait` after a true condition puts a signal back on the
pending list. -/
def State.noStaleRequeue (s : State) (a : Action) : Bool := !s.staleRequeue a

theorem Backed.run {workers : Nat} {domainOf : WorkerId → DomainId} {s : State}
    (run : Transition.Run State.step (fun s a => s.noStaleRequeue a = true)
      (.initial workers domainOf) s) (t : Tid) (n : Nat) : Backed t (.sub t n) (s.view t) := by
  refine (SystemInv.initial workers domainOf).view_later run t (Backed t (.sub t n)) ?_ ?_
  · have passive : ¬ Active t ((State.initial workers domainOf).view t) (.sub t n) := by
      simp [Active, State.view, State.initial, IntrusiveLists.empty]
    have done : ¬ InFlight ((State.initial workers domainOf).view t) (.sub t n) := by
      rintro ⟨w, entering | ⟨_, f, rest, frames, _⟩⟩
      · obtain ⟨_, woken⟩ := placeOf_eq_entering.mp entering
        cases woken
      · cases frames
    exact ⟨by simp [State.view, State.initial], fun on => absurd on passive,
      fun on => absurd on done, fun on => absurd on passive⟩
  · intro base a v v' kind _ allowed view backed special step
    have fresh : kind ≠ .staleRequeue := by
      rintro rfl
      rcases special with plain | ⟨_, stale⟩
      · cases plain
      · have requeues : base.staleRequeue a = true := stale
        simp [noStaleRequeue, requeues] at allowed
    exact (step.delivery view.thread n).backed backed fresh

/-- In a run in which `tc_waitq_finish_wait` requeues no signal after a true condition, no
subscription has caused more interruptions than its signal has been fired. -/
theorem interrupts_le_fires {workers : Nat} {domainOf : WorkerId → DomainId} {s : State}
    (run : Transition.Run State.step (fun s a => s.noStaleRequeue a = true)
      (.initial workers domainOf) s) (t : Tid) (n : Nat) :
    s.interrupts (.sub t n) ≤ s.fires (.sub t n) := by
  have reported := (Backed.run run t n).reported
  simpa [State.view] using reported

set_option maxRecDepth 10000 in
/-- The signal interrupts a wait, and is fired again before the next one. -/
theorem interrupts_le_fires_twice :
    ∃ s, Transition.Run State.step (fun s a => s.noStaleRequeue a = true)
        (.initial 1 fun _ => 0) s ∧
      s.interrupts (.sub 0 0) = 2 ∧ s.interrupts (.sub 0 0) ≤ s.fires (.sub 0 0) := by
  obtain ⟨s, run, shown⟩ := run_of_exec 1 (fun _ => 0) State.noStaleRequeue
    [.user 0 (.subscribe 0 0), .user 0 (.fire 0), .user 0 (.waitqWait 0 0), .advance 0, .leave 0,
      .runImmediate 0 .any, .enter 0, .advance 0, .user 0 (.fire 0), .user 0 (.waitqWait 1 0),
      .advance 0, .leave 0, .runImmediate 0 .any, .enter 0, .advance 0]
    (fun s => s.interrupts (.sub 0 0) = 2) (by decide)
  exact ⟨s, run, of_decide_eq_true shown, interrupts_le_fires run 0 0⟩

set_option maxRecDepth 10000 in
/-- In the condition of a wait, `tc_sched_yield` is interrupted by a signal and leaves it in
`woken_by_event`. The event of the wait becomes active and the condition is true:
`tc_waitq_finish_wait` puts the signal back on the pending list, and the next call is
interrupted by it again. -/
theorem one_fire_interrupts_twice :
    ∃ s, Reachable 1 (fun _ => 0) s ∧ s.life (.sub 0 0) = .live ∧ s.fires (.sub 0 0) = 1 ∧
      s.interrupts (.sub 0 0) = 2 ∧ s.result (.auto 0 1) = some .intr ∧
      s.result (.auto 0 2) = some .intr := by
  obtain ⟨s, reached, shown⟩ := reachable_of_exec 1 (fun _ => 0)
    [.user 0 (.subscribe 0 0), .user 0 (.waitEventLoop 0 0), .advance 0, .user 0 (.fire 0),
      .user 0 (.yield 1), .advance 0, .advance 0, .leave 0, .runImmediate 0 .any, .enter 0,
      .advance 0, .user 0 (.wakeupAll 0), .condition 0 true, .advance 0, .user 0 (.yield 2),
      .advance 0, .advance 0, .advance 0]
    (fun s => s.life (.sub 0 0) = .live ∧ s.fires (.sub 0 0) = 1 ∧ s.interrupts (.sub 0 0) = 2 ∧
      s.result (.auto 0 1) = some .intr ∧ s.result (.auto 0 2) = some .intr) (by decide)
  exact ⟨s, reached, of_decide_eq_true shown⟩

end Libtcr
