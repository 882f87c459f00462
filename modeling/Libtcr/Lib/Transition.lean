import Mathlib.Logic.Relation

/-! Runs of a labelled partial step function. `ok` restricts the labels a run
may take from a state; the unrestricted runs are those with `ok` always true. -/

set_option autoImplicit false

namespace Libtcr.Transition

variable {State Label : Type}

/-- `Run step ok start state`: a finite run leads from `start` to `state`, and
every label it takes is allowed by `ok` in the state it is taken from. -/
inductive Run (step : State → Label → Option State) (ok : State → Label → Prop)
    (start : State) : State → Prop where
  | refl : Run step ok start start
  | next {state after : State} {label : Label} :
      Run step ok start state → ok state label → step state label = some after →
      Run step ok start after

def always : State → Label → Prop := fun _ _ => True

variable {step : State → Label → Option State} {ok : State → Label → Prop}

/-- What holds initially and is kept by every allowed step holds after every run. -/
theorem Run.invariant {start state : State} (run : Run step ok start state)
    (holds : State → Prop) (initially : holds start)
    (kept : ∀ {before after : State} {label : Label}, holds before → ok before label →
      step before label = some after → holds after) : holds state := by
  induction run with
  | refl => exact initially
  | next _ allowed stepped ih => exact kept ih allowed stepped

/-- The same rule, with the run up to the current state available in the step. -/
theorem Run.invariant_of_reached {start state : State} (run : Run step ok start state)
    (holds : State → Prop) (initially : holds start)
    (kept : ∀ {before after : State} {label : Label}, Run step ok start before →
      holds before → ok before label → step before label = some after → holds after) :
    holds state := by
  induction run with
  | refl => exact initially
  | next reached allowed stepped ih => exact kept reached ih allowed stepped

theorem Run.trans {start middle final : State} (first : Run step ok start middle)
    (second : Run step ok middle final) : Run step ok start final := by
  induction second with
  | refl => exact first
  | next _ allowed stepped ih => exact .next ih allowed stepped

theorem Run.mono {ok' : State → Label → Prop} {start state : State}
    (weaker : ∀ before label, ok before label → ok' before label)
    (run : Run step ok start state) : Run step ok' start state := by
  induction run with
  | refl => exact .refl
  | next _ allowed stepped ih => exact .next ih (weaker _ _ allowed) stepped

/-- Execute a list of labels. -/
def exec (step : State → Label → Option State) : State → List Label → Option State
  | state, [] => some state
  | state, label :: labels => (step state label).bind fun after => exec step after labels

/-- An executed list of labels is an unrestricted run. -/
theorem run_of_exec {start final : State} {labels : List Label}
    (executed : exec step start labels = some final) : Run step always start final := by
  induction labels generalizing start with
  | nil =>
      simp only [exec, Option.some.injEq] at executed
      exact executed ▸ .refl
  | cons label labels ih =>
      simp only [exec, Option.bind_eq_some_iff] at executed
      obtain ⟨after, stepped, rest⟩ := executed
      exact (Run.next .refl trivial stepped).trans (ih rest)

def guarded (step : State → Label → Option State) (ok : State → Label → Bool) (state : State)
    (label : Label) : Option State :=
  if ok state label then step state label else none

theorem Run.of_guarded {ok : State → Label → Bool} {start final : State}
    (run : Run (guarded step ok) always start final) :
    Run step (fun state label => ok state label = true) start final := by
  induction run with
  | refl => exact .refl
  | next _ _ stepped ih =>
      unfold guarded at stepped
      split at stepped
      · next allowed => exact .next ih allowed stepped
      · cases stepped

/-- A run found by execution, with what the execution shows about its end. -/
theorem exists_run (step : State → Label → Option State) (start : State) (labels : List Label)
    (shows : State → Bool) (executed : (exec step start labels).any shows = true) :
    ∃ final, Run step always start final ∧ shows final = true := by
  cases ended : exec step start labels with
  | none => simp [ended] at executed
  | some final => exact ⟨final, run_of_exec ended, by simpa [ended] using executed⟩

end Libtcr.Transition
