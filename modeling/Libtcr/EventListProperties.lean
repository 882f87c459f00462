import Libtcr.FdInvariant
import Libtcr.FaultProperties

/-! The representation of the event lists over whole runs, and what follows for the
assertions of the functions that move events. -/

set_option autoImplicit false

namespace Libtcr

open State

/-- The assertions and exits that find an event on another list than expected. -/
def Fault.misplaced : Fault → Bool
  | .assertRemoveEvent | .assertMoveEvent | .stillOnList | .notOnList => true
  | _ => false

private theorem Failure.not_misplaced {s : State} {a : Action} {fault : Fault}
    (failure : Failure s a fault) (fd : FdInv s) : fault.misplaced = false := by
  cases failure with
  | reportMoved w f e fault report moved _ => exact absurd (fd.locked w f e report).2 moved
  | finish w t f rest fault _ _ _ _ cause =>
      rcases cause with ⟨rfl, _⟩ | ⟨x, _, ⟨rfl, _⟩ | ⟨rfl, _⟩⟩ <;> rfl
  | _ => rfl

theorem FdInv.run {workers : Nat} {domainOf : WorkerId → DomainId} {s : State}
    (run : Transition.Run State.step (fun _ a => a.singleDirection = true)
      (.initial workers domainOf) s) : FdInv s := by
  refine run.invariant_of_reached FdInv (.initial workers domainOf) ?_
  intro before after a reached fd single stepped
  obtain ⟨_, effect | ⟨fault, _, rfl⟩⟩ := State.step_cases stepped
  · exact effect.fdInv (SystemInv.run reached) fd single
  · exact { fd with }

/-- As long as nobody waits for both directions of a `tc_fd`: the lists hold every event at
most once, `e->el` is the list that holds it, both counters are exact, and nothing that
adds, moves or removes an event finds it on another list than it expects. -/
theorem event_lists_agree {workers : Nat} {domainOf : WorkerId → DomainId} {s : State}
    (run : Transition.Run State.step (fun _ a => a.singleDirection = true)
      (.initial workers domainOf) s) :
    (∀ k, (s.events k).Nodup) ∧ (∀ k e, e ∈ s.events k ↔ s.el e = some k) ∧
      (∀ t, {e | s.el e ≠ none ∧ s.tc e = t}.Finite ∧
        s.refcnt t = {e | s.el e ≠ none ∧ s.tc e = t}.ncard) ∧
      s.immediateCount = (s.events .immediate).length ∧ s.immediateNegative = false ∧
      ∀ a fault, s.act a = some (.error fault) → fault.misplaced = false := by
  have inv := SystemInv.run run
  have lists := inv.lists
  refine ⟨lists.lists.nodup, fun k e => lists.mem_events, fun t => ⟨?_, lists.refcnt t⟩,
    lists.count, lists.notNegative, fun a fault failed => ?_⟩
  · exact lists.lists.finite.subset fun e on => on.1
  · exact (act_error inv failed).not_misplaced (.run run)

set_option maxRecDepth 10000 in
/-- Two threads wait for a `tc_fd`, and a report that wakes both is being handled. -/
theorem event_lists_agree_report :
    ∃ s, Transition.Run State.step (fun _ a => a.singleDirection = true)
        (.initial 3 fun _ => 0) s ∧
      s.mode 2 = .report 0 (.auto 1 0) ∧ s.events (.fd 0) = [.auto 1 0] ∧
      s.events .immediate = [.auto 2 0, .auto 0 0] ∧
      s.immediateCount = (s.events .immediate).length ∧
      ∀ a fault, s.act a = some (.error fault) → fault.misplaced = false := by
  obtain ⟨s, run, shown⟩ := run_of_exec 3 (fun _ => 0) (fun _ a => a.singleDirection)
    [.user 0 (.waitFd 0 0 EPOLLIN false true), .advance 0, .advance 0, .leave 0,
      .user 1 (.waitFd 0 0 EPOLLOUT false true), .advance 1, .advance 1, .leave 1,
      .user 2 (.yield 0), .advance 2, .advance 2, .leave 2, .report 2 0 (EPOLLIN ||| EPOLLOUT)]
    (fun s => s.mode 2 = .report 0 (.auto 1 0) ∧ s.events (.fd 0) = [.auto 1 0] ∧
      s.events .immediate = [.auto 2 0, .auto 0 0]) (by decide)
  obtain ⟨mode, fd, immediate⟩ := of_decide_eq_true shown
  obtain ⟨_, _, _, count, _, faults⟩ := event_lists_agree run
  exact ⟨s, run, mode, fd, immediate, count, faults⟩

end Libtcr
