import Libtcr.SystemInvariant

/-! A thread does not sleep while there is something to wake it. -/

set_option autoImplicit false

namespace Libtcr

open State

/-- A thread whose `TF_RUNNING` is clear has neither a signal nor the event at the top of
its event stack pending, and nothing at all with an empty event stack. -/
theorem not_running_nothing_deliverable {workers : Nat} {domainOf : WorkerId → DomainId}
    {s : State} (reached : Reachable workers domainOf s) {t : Tid}
    (stopped : s.running t = false) :
    (∀ e ∈ s.events (.pending t), s.flags e ≠ .signal ∧ s.eventStack t ≠ some e) ∧
      (s.eventStack t = none → s.events (.pending t) = []) := by
  have inv := SystemInv.run reached
  have quiet : ∀ e ∈ s.events (.pending t),
      s.flags e ≠ .signal ∧ s.eventStack t ≠ none ∧ s.eventStack t ≠ some e := by
    intro e pending
    have owner := pending_owner inv.lists inv.thread pending
    have on := inv.lists.mem_events.mp pending
    have sleep := (inv.thread t).sleep (by simpa [State.view] using stopped) e
      (by simpa [State.view, State.el, owner] using on)
    simpa [State.view, owner] using sleep
  refine ⟨fun e pending => ⟨(quiet e pending).1, (quiet e pending).2.2⟩, fun empty => ?_⟩
  refine List.eq_nil_iff_forall_not_mem.mpr fun e pending => ?_
  exact (quiet e pending).2.1 empty

set_option maxRecDepth 10000 in
/-- A thread sleeps in the condition of another wait, whose event has been fired. -/
theorem not_running_nothing_deliverable_nested :
    ∃ s, Reachable 2 (fun _ => 0) s ∧ s.running 0 = false ∧ s.events (.pending 0) = [.auto 0 0] ∧
      ∀ e ∈ s.events (.pending 0), s.flags e ≠ .signal ∧ s.eventStack 0 ≠ some e := by
  obtain ⟨s, reached, shown⟩ := reachable_of_exec 2 (fun _ => 0)
    [.user 0 (.waitEventLoop 0 0), .advance 0, .user 0 (.waitqWait 1 1), .advance 0,
      .user 1 (.wakeupAll 0), .leave 0, .runImmediate 0 .any]
    (fun s => s.running 0 = false ∧ s.events (.pending 0) = [.auto 0 0]) (by decide)
  obtain ⟨stopped, pending⟩ := of_decide_eq_true shown
  exact ⟨s, reached, stopped, pending, (not_running_nothing_deliverable reached stopped).1⟩

end Libtcr
