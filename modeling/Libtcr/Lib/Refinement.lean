import Libtcr.Lib.Transition

/-! Refinement of a specification by an implementation. Some steps of the implementation show
as an event of the specification; the sequence of these events, the trace of a run, has to be one
that the specification can execute. -/

set_option autoImplicit false

namespace Libtcr.Refinement

open Transition

variable {State Label Spec Event : Type} {step : State → Label → Option State}
  {event : State → Label → State → Option Event} {start state : State} {trace : List Event}

/-- `Observed step event start trace state`: a run leads from `start` to `state`, and its steps
show as the events of `trace`. -/
inductive Observed (step : State → Label → Option State)
    (event : State → Label → State → Option Event) (start : State) : List Event → State → Prop where
  | refl : Observed step event start [] start
  | next {trace : List Event} {state after : State} {label : Label} :
      Observed step event start trace state → step state label = some after →
      Observed step event start (trace ++ (event state label after).toList) after

theorem Observed.run (observed : Observed step event start trace state) :
    Run step always start state := by
  induction observed with
  | refl => exact .refl
  | next _ stepped ih => exact .next ih trivial stepped

def observe (step : State → Label → Option State) (event : State → Label → State → Option Event)
    (trace : List Event) : State → List Label → Option (List Event × State)
  | state, [] => some (trace, state)
  | state, label :: labels => (step state label).bind fun after =>
    observe step event (trace ++ (event state label after).toList) after labels

theorem Observed.observe {final : State} {labels : List Label} {after : List Event}
    (observed : Observed step event start trace state)
    (executed : observe step event trace state labels = some (after, final)) :
    Observed step event start after final := by
  induction labels generalizing trace state with
  | nil =>
      cases executed
      exact observed
  | cons label labels ih =>
      obtain ⟨next, stepped, rest⟩ := Option.bind_eq_some_iff.mp executed
      exact ih (.next observed stepped) rest

/-- A run found by execution, with what the execution shows about its trace and its end. -/
theorem exists_observed (step : State → Label → Option State)
    (event : State → Label → State → Option Event) (start : State) (labels : List Label)
    (shows : List Event → State → Bool)
    (executed : (observe step event [] start labels).any (fun x => shows x.1 x.2) = true) :
    ∃ trace final, Observed step event start trace final ∧ shows trace final = true := by
  obtain ⟨x, ended, shown⟩ := (Option.any_eq_true _ _).mp executed
  exact ⟨x.1, x.2, Observed.refl.observe ended, shown⟩

theorem exec_append {spec : Spec → Event → Option Spec} (a : Spec) (first second : List Event) :
    exec spec a (first ++ second) = (exec spec a first).bind fun b => exec spec b second := by
  induction first generalizing a with
  | nil => rfl
  | cons e rest ih =>
      simp only [List.cons_append, exec]
      cases spec a e with
      | none => rfl
      | some b => exact ih b

/-- The specification can take the step that `e` stands for, or stays where it is. -/
def Follows (spec : Spec → Event → Option Spec) (a : Spec) : Option Event → Spec → Prop
  | none, b => b = a
  | some e, b => spec a e = some b

/-- Forward simulation: if every step from a reachable state is followed by the specification,
the specification executes the trace of every run. -/
theorem Observed.simulates {spec : Spec → Event → Option Spec} {first : Spec}
    {abstracts : State → Spec → Prop} (observed : Observed step event start trace state)
    (initially : abstracts start first)
    (followed : ∀ {before after : State} {label : Label} {a : Spec},
      Run step always start before → abstracts before a → step before label = some after →
      ∃ b, Follows spec a (event before label after) b ∧ abstracts after b) :
    ∃ a, exec spec first trace = some a ∧ abstracts state a := by
  induction observed with
  | refl => exact ⟨first, rfl, initially⟩
  | @next trace before after label reached stepped ih =>
      obtain ⟨a, executed, abstracted⟩ := ih
      obtain ⟨b, follows, now⟩ := followed reached.run abstracted stepped
      refine ⟨b, ?_, now⟩
      rw [exec_append, executed]
      cases shown : event before label after with
      | none =>
          rw [shown] at follows
          obtain rfl : b = a := follows
          rfl
      | some e =>
          rw [shown] at follows
          have next : spec a e = some b := follows
          simp [exec, next]

end Libtcr.Refinement
