import Libtcr.SystemInvariant
import Libtcr.StackInvariant

/-! The discipline of the event stack over whole runs. -/

set_option autoImplicit false

namespace Libtcr

open State

/-- No call leaves `tc_waitq_finish_wait` by its last exit, for a signal alone. -/
def State.noSignalOnlyExit (s : State) (a : Action) : Bool := !s.signalOnlyExit a

theorem StackInv.run {workers : Nat} {domainOf : WorkerId → DomainId} {s : State}
    (run : Transition.Run State.step (fun s a => s.noSignalOnlyExit a = true)
      (.initial workers domainOf) s) (t : Tid) : StackInv none (s.view t) := by
  refine (SystemInv.initial workers domainOf).view_later run t (StackInv none) ⟨rfl, trivial⟩ ?_
  intro base a v v' kind _ allowed inv stack special step
  have popped : ∀ nested, kind ≠ .signalOnly nested := by
    rintro nested rfl
    rcases special with plain | ⟨_, exits, _⟩
    · cases plain
    · simp [noSignalOnlyExit, exits] at allowed
  have kept := step.stackInv inv.thread stack (popped true)
  rwa [if_neg (popped false)] at kept

/-- In a run in which no call of `tc_waitq_finish_wait` takes the exit for a signal alone,
every sleeping call returns with the event stack as it found it before it pushed its event,
and sleeps with its event at the top. -/
theorem event_stack_restored {workers : Nat} {domainOf : WorkerId → DomainId} {s : State}
    (run : Transition.Run State.step (fun s a => s.noSignalOnlyExit a = true)
      (.initial workers domainOf) s) {t : Tid} {f : Frame} {rest : List Frame}
    (frames : s.frames t = f :: rest) :
    (f.pc = .asleep → s.eventStack t = some f.e) ∧
      ∀ a s', s.noSignalOnlyExit a = true → s.step a = some s' →
        (s'.frames t = rest → s'.eventStack t = f.saved) ∧
          ∀ g, s'.frames t = g :: rest → g.e = f.e → g.saved = f.saved := by
  have stack := StackInv.run run t
  have view : (s.view t).frames = f :: rest := by simpa [State.view] using frames
  refine ⟨fun pc => ?_, fun a s' allowed stepped => ?_⟩
  · have first := (stack.first view (by simp [pc, Pc.onStack])).1
    simpa [State.view] using first
  · have later := StackInv.run (.next run allowed stepped) t
    have saved := stack.saved view
    refine ⟨fun returned => ?_, fun g continued same => ?_⟩
    · have top := later.top
      have view' : (s'.view t).frames = rest := by simpa [State.view] using returned
      rw [view', ← saved] at top
      simpa [State.view] using top
    · have view' : (s'.view t).frames = g :: rest := by simpa [State.view] using continued
      exact (later.saved view').trans saved.symm

set_option maxRecDepth 10000 in
/-- A wait in the condition of another wait returns. -/
theorem event_stack_restored_nested :
    ∃ s s', Transition.Run State.step (fun s a => s.noSignalOnlyExit a = true)
        (.initial 2 fun _ => 0) s ∧
      s.frames 0 = [⟨.waitq 1, .auto 0 1, .woke, some (.auto 0 0)⟩,
        ⟨.cond 0, .auto 0 0, .test, none⟩] ∧
      s.step (.advance 0) = some s' ∧ s'.eventStack 0 = some (.auto 0 0) := by
  obtain ⟨s, run, shown⟩ := run_of_exec 2 (fun _ => 0) State.noSignalOnlyExit
    [.user 0 (.waitEventLoop 0 0), .advance 0, .user 0 (.waitqWait 1 1), .advance 0, .leave 0,
      .user 1 (.wakeupAll 1), .runImmediate 0 .any, .enter 0]
    (fun s => (s.frames 0 = [⟨.waitq 1, .auto 0 1, .woke, some (.auto 0 0)⟩,
        ⟨.cond 0, .auto 0 0, .test, none⟩] ∧ s.noSignalOnlyExit (.advance 0) = true) &&
      (s.step (.advance 0)).any fun s' => s'.frames 0 = [⟨.cond 0, .auto 0 0, .test, none⟩])
    (by decide)
  obtain ⟨before, after⟩ := Bool.and_eq_true_iff.mp shown
  obtain ⟨frames, allowed⟩ := of_decide_eq_true before
  obtain ⟨s', stepped, returned⟩ := (Option.any_eq_true _ _).mp after
  have restored := ((event_stack_restored run frames).2 _ s' allowed stepped).1
  exact ⟨s, s', run, frames, stepped, restored (of_decide_eq_true returned)⟩

set_option maxRecDepth 10000 in
/-- A signal interrupts `tc_waitq_wait`: the call returns with its event, whose life has
ended, at the top of the event stack, which was empty before. -/
theorem interrupted_wait_leaves_event :
    ∃ s s', Reachable 1 (fun _ => 0) s ∧
      s.frames 0 = [⟨.waitq 0, .auto 0 0, .woke, none⟩] ∧ s.step (.advance 0) = some s' ∧
      s'.frames 0 = [] ∧ s'.result (.auto 0 0) = some .intr ∧ s'.life (.auto 0 0) = .dead ∧
      s'.eventStack 0 = some (.auto 0 0) := by
  obtain ⟨s, reached, shown⟩ := reachable_of_exec 1 (fun _ => 0)
    [.user 0 (.subscribe 0 0), .user 0 (.fire 0), .user 0 (.waitqWait 0 0), .advance 0, .leave 0,
      .runImmediate 0 .any, .enter 0]
    (fun s => s.frames 0 = [⟨.waitq 0, .auto 0 0, .woke, none⟩] &&
      (s.step (.advance 0)).any fun s' =>
        s'.frames 0 = [] ∧ s'.result (.auto 0 0) = some .intr ∧ s'.life (.auto 0 0) = .dead ∧
          s'.eventStack 0 = some (.auto 0 0)) (by decide)
  obtain ⟨frames, after⟩ := Bool.and_eq_true_iff.mp shown
  obtain ⟨s', stepped, shown⟩ := (Option.any_eq_true _ _).mp after
  exact ⟨s, s', reached, of_decide_eq_true frames, stepped, of_decide_eq_true shown⟩

end Libtcr
