import Mathlib.Algebra.Ring.Int.Defs
import Libtcr.ParallelForProperties

/-! The values that a pool of one thread passes to the body of `tc_parallel_for`, against those for
which the `for` statement executes it. The body gets the value of the expression `INC_ST`. -/

set_option autoImplicit false

namespace Libtcr

inductive IncSt (Value : Type) where
  | postIncrement
  | preIncrement
  | postDecrement
  | preDecrement
  | addAssign (k : Value)
  | subAssign (k : Value)
  deriving DecidableEq, Repr

namespace IncSt

variable {Value : Type} [AddGroup Value] [One Value]

def eval : IncSt Value → Value → Value × Value
  | .postIncrement, i => (i, i + 1)
  | .preIncrement, i => (i + 1, i + 1)
  | .postDecrement, i => (i, i - 1)
  | .preDecrement, i => (i - 1, i - 1)
  | .addAssign k, i => (i + k, i + k)
  | .subAssign k, i => (i - k, i - k)

/-- The expression has the value of the variable before it, or leaves the variable as it is. -/
def KeepsValue : IncSt Value → Prop
  | .postIncrement | .postDecrement => True
  | .preIncrement | .preDecrement => (1 : Value) = 0
  | .addAssign k | .subAssign k => k = 0

private theorem eval_fst_iff (inc : IncSt Value) (i : Value) :
    (inc.eval i).1 = i ↔ inc.KeepsValue := by
  cases inc with
  | postIncrement => simp [eval, KeepsValue]
  | preIncrement => simp [eval, KeepsValue]
  | postDecrement => simp [eval, KeepsValue]
  | preDecrement => simp [eval, KeepsValue]
  | addAssign k => simp [eval, KeepsValue]
  | subAssign k => simp [eval, KeepsValue]

end IncSt

variable {Value : Type} {loop : ForLoop Value} {s s' : ForState Value}

/-! ## A pool of one thread -/

def ForLoop.given (loop : ForLoop Value) (vs : List Value) : List Value :=
  vs.map fun v => (loop.inc v).1

/-- The value that has been taken, and not yet passed to the body. -/
def ForPc.inHand : ForPc Value → List Value
  | .taken i | .call i => [i]
  | _ => []

structure SingleInv (loop : ForLoop Value) (s : ForState Value) : Prop where
  given : ∃ vs, loop.Executes loop.init vs s.var ∧ s.passed ++ (s.pc 0).inHand = loop.given vs
  tested : s.pc 0 = .increment → loop.cond s.var = true

theorem SingleInv.moves {pc : ForPc Value} (inv : SingleInv loop s) (var : s'.var = s.var)
    (pcs : s'.pc = Function.update s.pc 0 pc) (kept : s'.passed ++ pc.inHand = s.passed ++ (s.pc 0).inHand)
    (tested : pc = .increment → loop.cond s.var = true) : SingleInv loop s' := by
  obtain ⟨vs, executes, given⟩ := inv.given
  constructor
  · refine ⟨vs, var ▸ executes, ?_⟩
    rw [pcs, Function.update_self, kept, given]
  · rw [pcs, Function.update_self, var]
    exact tested

theorem SingleInv.increment (inv : SingleInv loop s) (pc : s.pc 0 = .increment) :
    SingleInv loop { s.setPc 0 (.taken (loop.inc s.var).1) with var := (loop.inc s.var).2 } := by
  obtain ⟨vs, executes, given⟩ := inv.given
  constructor
  · refine ⟨vs ++ [s.var], executes.next (inv.tested pc), ?_⟩
    simp only [pc, ForPc.inHand, List.append_nil] at given
    simp [ForState.setPc, ForPc.inHand, ForLoop.given, given]
  · simp [ForState.setPc]

theorem SingleInv.step {i : Nat} (inv : SingleInv loop s) (stepped : s.step loop 1 i = some s') :
    SingleInv loop s' := by
  unfold ForState.step at stepped
  split at stepped
  · next inside =>
    obtain rfl : i = 0 := by omega
    cases pc : s.pc 0 with
    | outside =>
        simp only [pc] at stepped
        split at stepped
        · cases stepped
          exact inv.moves rfl rfl (by rw [pc]; rfl) (by simp)
        · cases stepped
    | test =>
        simp only [pc, Option.some.injEq] at stepped
        subst stepped
        refine inv.moves rfl rfl ?_ ?_
        · cases loop.cond s.var <;> simp [pc, ForPc.inHand, ForState.setPc]
        · cases loop.cond s.var <;> simp
    | increment =>
        simp only [pc, Option.some.injEq] at stepped
        subst stepped
        exact inv.increment pc
    | taken v =>
        simp only [pc, Option.some.injEq] at stepped
        subst stepped
        exact inv.moves rfl rfl (by rw [pc]; rfl) (by simp)
    | call v =>
        simp only [pc, Option.some.injEq] at stepped
        subst stepped
        exact inv.moves rfl rfl (by simp [pc, ForPc.inHand]) (by simp)
    | body =>
        simp only [pc, Option.some.injEq] at stepped
        subst stepped
        exact inv.moves rfl rfl (by rw [pc]; rfl) (by simp)
    | leaving =>
        simp only [pc, Option.some.injEq] at stepped
        subst stepped
        exact inv.moves rfl rfl (by rw [pc]; rfl) (by simp)
    | ended => simp [pc] at stepped
  · cases stepped

theorem SingleInv.run (reached : ForReachable loop 1 s) : SingleInv loop s := by
  apply reached.invariant (SingleInv loop)
  · exact ⟨⟨[], .nil _, rfl⟩, fun tested => by cases tested⟩
  · exact fun inv _ stepped => inv.step stepped

theorem ForState.turn (outside : s.pc 0 = .outside) (free : s.lock = none)
    (holds : loop.cond s.var = true) :
    ∃ s', Transition.exec (ForState.step loop 1) s [0, 0, 0, 0, 0, 0] = some s' ∧
      s'.pc 0 = .outside ∧ s'.lock = none ∧ s'.var = (loop.inc s.var).2 ∧
      s'.passed = s.passed ++ [(loop.inc s.var).1] := by
  refine ⟨{ s.setPc 0 .outside with
    var := (loop.inc s.var).2
    passed := s.passed ++ [(loop.inc s.var).1] }, ?_, by simp [ForState.setPc], free, rfl, rfl⟩
  simp [Transition.exec, ForState.step, outside, free, holds, ForState.setPc]

theorem ForLoop.Executes.reached {vs : List Value} {after : Value}
    (executes : loop.Executes loop.init vs after) :
    ∃ s, ForReachable loop 1 s ∧ s.pc 0 = .outside ∧ s.lock = none ∧ s.var = after ∧
      s.passed = loop.given vs := by
  induction executes with
  | nil => exact ⟨.initial loop, .refl, rfl, rfl, rfl, rfl⟩
  | @next after vs _ holds ih =>
      obtain ⟨s, reached, outside, free, var, passed⟩ := ih
      subst var
      obtain ⟨s', turned, outside', free', var', passed'⟩ := ForState.turn outside free holds
      refine ⟨s', reached.trans (Transition.run_of_exec turned), outside', free', var', ?_⟩
      rw [passed', passed, ForLoop.given, ForLoop.given, List.map_append]
      rfl

/-- What the thread has passed to the body, in terms of what the `for` statement does. -/
theorem passed_iff {us : List Value} : (∃ s, ForReachable loop 1 s ∧ s.passed = us) ↔
    ∃ vs after, loop.Executes loop.init vs after ∧ us = loop.given vs := by
  constructor
  · rintro ⟨s, reached, rfl⟩
    obtain ⟨vs, executes, given⟩ := (SingleInv.run reached).given
    have hand : (s.pc 0).inHand = [] ∨ ∃ v, (s.pc 0).inHand = [v] := by
      cases s.pc 0 <;> simp [ForPc.inHand]
    rcases hand with empty | ⟨v, one⟩
    · rw [empty, List.append_nil] at given
      exact ⟨vs, s.var, executes, given⟩
    · rw [one] at given
      generalize s.var = after at executes
      cases executes with
      | nil => simp [ForLoop.given] at given
      | @next before vs executes holds =>
          rw [ForLoop.given, List.map_append] at given
          exact ⟨vs, before, executes, List.append_inj_left' given rfl⟩
  · rintro ⟨vs, after, executes, rfl⟩
    obtain ⟨s, reached, _, _, _, passed⟩ := executes.reached
    exact ⟨s, reached, passed⟩

/-! ## The two statements -/

/-- The values passed to the body by a pool of one thread are, one after the other, those for which
the `for` statement executes it: so are the lists, whether they end or not. -/
def ForLoop.SameValues (loop : ForLoop Value) : Prop :=
  ∀ vs, (∃ s, ForReachable loop 1 s ∧ s.passed = vs) ↔ ∃ after, loop.Executes loop.init vs after

private theorem ForLoop.Executes.eq_of_length {us vs : List Value} {before x y : Value}
    (first : loop.Executes before us x) (second : loop.Executes before vs y)
    (length : us.length = vs.length) : us = vs := by
  rw [first.iterates.1, second.iterates.1, length]

private theorem ForLoop.sameValues_iff : loop.SameValues ↔
    ∀ vs after, loop.Executes loop.init vs after → loop.given vs = vs := by
  constructor
  · intro same vs after executes
    obtain ⟨_, again⟩ := (same _).mp (passed_iff.mpr ⟨vs, after, executes, rfl⟩)
    exact again.eq_of_length executes (by simp [ForLoop.given])
  · intro equal us
    rw [passed_iff]
    constructor
    · rintro ⟨vs, after, executes, rfl⟩
      exact ⟨after, by rwa [equal vs after executes]⟩
    · rintro ⟨after, executes⟩
      exact ⟨us, after, executes, (equal us after executes).symm⟩

variable [AddGroup Value] [One Value]

/-- `tc_parallel_for` with one thread agrees with `for` if and only if the body is not executed at
all, or the increment has the value that the variable had before it. -/
theorem parallel_for_values_iff (init : Value) (cond : Value → Bool) (inc : IncSt Value) :
    (ForLoop.mk init cond inc.eval).SameValues ↔ cond init = false ∨ inc.KeepsValue := by
  rw [ForLoop.sameValues_iff]
  constructor
  · intro equal
    cases holds : cond init with
    | false => exact .inl rfl
    | true =>
        have one := equal [init] _ (.next (.nil init) holds)
        simp only [ForLoop.given, List.map_cons, List.map_nil, List.cons.injEq, and_true] at one
        exact .inr ((inc.eval_fst_iff init).mp one)
  · intro condition vs after executes
    rcases condition with never | keeps
    · have none : vs = [] := by
        by_contra some
        have tested := executes.iterates.2.2 0 (List.length_pos_of_ne_nil some)
        rw [Function.iterate_zero_apply] at tested
        exact Bool.noConfusion (tested.symm.trans never)
      rw [none]
      rfl
    · rw [ForLoop.given]
      exact (List.map_congr_left fun v _ => (inc.eval_fst_iff v).mpr keeps).trans (List.map_id vs)

def ForLoop.preCount : ForLoop Int where
  init := 0
  cond i := decide (i < 2)
  inc := IncSt.preIncrement.eval

/-- With `++i` the first value is left out, and the body is called for one that is out of range. -/
theorem parallel_for_skips : ¬ ForLoop.preCount.SameValues ∧ ForLoop.preCount.Ends [0, 1] ∧
    ∃ s, ForReachable .preCount 1 s ∧ s.pc 0 = .ended ∧ s.passed = [1, 2] := by
  refine ⟨?_, ⟨2, .next (.next (.nil 0) rfl) rfl, rfl⟩, ?_⟩
  · intro same
    have equal := ForLoop.sameValues_iff.mp same [0] 1 (.next (.nil 0) rfl)
    cases equal
  · obtain ⟨s, reached, shown⟩ := Transition.exists_run (ForState.step .preCount 1)
      (.initial .preCount) (List.replicate 15 0) (fun s => s.pc 0 = .ended ∧ s.passed = [1, 2])
      (by decide)
    obtain ⟨ended, passed⟩ := of_decide_eq_true shown
    exact ⟨s, reached, ended, passed⟩

end Libtcr
