import Mathlib.Algebra.BigOperators.Group.Finset.Piecewise
import Mathlib.Algebra.Order.BigOperators.Group.Finset
import Mathlib.Data.Multiset.AddSub
import Libtcr.ParallelFor

/-! The threads of a pool execute the body of `tc_parallel_for` once for every value of the
loop variable for which the `for` statement executes it. -/

set_option autoImplicit false

namespace Libtcr

variable {Value : Type}

/-! ## The `for` statement -/

namespace ForLoop

variable {loop : ForLoop Value} {us vs : List Value} {before after : Value}

def next (loop : ForLoop Value) (v : Value) : Value := (loop.inc v).2

theorem Executes.iterates (executes : loop.Executes before vs after) :
    vs = (List.range vs.length).map (fun k => loop.next^[k] before) ∧
      after = loop.next^[vs.length] before ∧
      ∀ k < vs.length, loop.cond (loop.next^[k] before) = true := by
  induction executes with
  | nil => exact ⟨rfl, rfl, fun k less => absurd less (Nat.not_lt_zero k)⟩
  | @next after vs _ holds ih =>
      obtain ⟨values, reached, tests⟩ := ih
      have length : (vs ++ [after]).length = vs.length + 1 := by simp
      rw [length]
      refine ⟨?_, ?_, fun k less => ?_⟩
      · rw [List.range_succ, List.map_append, ← values, reached]
        rfl
      · rw [Function.iterate_succ_apply', ← reached]
        rfl
      · rcases Nat.lt_or_eq_of_le (Nat.lt_succ_iff.mp less) with earlier | rfl
        · exact tests k earlier
        · exact reached ▸ holds

theorem Executes.length_le (executes : loop.Executes loop.init us after) (ends : loop.Ends vs) :
    us.length ≤ vs.length := by
  obtain ⟨last, whole, isFalse⟩ := ends
  by_contra longer
  have isTrue := executes.iterates.2.2 vs.length (Nat.lt_of_not_le longer)
  rw [← whole.iterates.2.1, isFalse] at isTrue
  cases isTrue

theorem Ends.unique (first : loop.Ends us) (second : loop.Ends vs) : us = vs := by
  obtain ⟨x, whole, _⟩ := id first
  obtain ⟨y, whole', _⟩ := id second
  have length : us.length = vs.length :=
    Nat.le_antisymm (whole.length_le second) (whole'.length_le first)
  rw [whole.iterates.1, whole'.iterates.1, length]

end ForLoop

/-! ## The pool -/

def ForPc.locks : ForPc Value → Bool
  | .test | .increment | .taken _ | .leaving => true
  | .outside | .call _ | .body | .ended => false

/-- The value that the thread has taken and not yet passed to the body. -/
def ForPc.pending : ForPc Value → Multiset Value
  | .taken v | .call v => {v}
  | _ => 0

/-- `COND_ST` was false. -/
def ForPc.stopped : ForPc Value → Bool
  | .leaving | .ended => true
  | _ => false

/-- The values that have been taken and not yet passed to the body. -/
def ForState.pending (threads : Nat) (s : ForState Value) : Multiset Value :=
  ∑ i ∈ Finset.range threads, (s.pc i).pending

structure ForInv (loop : ForLoop Value) (threads : Nat) (s : ForState Value) : Prop where
  others : ∀ i, threads ≤ i → s.pc i = .outside
  locked : ∀ i, (s.pc i).locks = true ↔ s.lock = some i
  holds : ∀ i, s.pc i = .increment → loop.cond s.var = true
  stopped : ∀ i, (s.pc i).stopped = true → loop.cond s.var = false
  executed : ∃ vs : List Value, loop.Executes loop.init vs s.var ∧
    (s.passed : Multiset Value) + s.pending threads = vs

structure ForLocked (loop : ForLoop Value) (s : ForState Value) : Prop where
  locked : ∀ i, (s.pc i).locks = true ↔ s.lock = some i
  holds : ∀ i, s.pc i = .increment → loop.cond s.var = true
  stopped : ∀ i, (s.pc i).stopped = true → loop.cond s.var = false

section Pool

variable {loop : ForLoop Value} {threads i : Nat} {s s' : ForState Value}

private theorem sum_setPc {Amount : Type} [AddCommMonoid Amount] (amount : ForPc Value → Amount)
    (inside : i < threads) (pc : ForPc Value) :
    ∑ j ∈ Finset.range threads, amount ((s.setPc i pc).pc j) + amount (s.pc i) =
      ∑ j ∈ Finset.range threads, amount (s.pc j) + amount pc := by
  have member : i ∈ Finset.range threads := Finset.mem_range.mpr inside
  rw [← Finset.sum_erase_add _ _ member, ← Finset.sum_erase_add _ (fun j => amount (s.pc j)) member]
  have others : ∑ j ∈ (Finset.range threads).erase i, amount ((s.setPc i pc).pc j) =
      ∑ j ∈ (Finset.range threads).erase i, amount (s.pc j) := by
    refine Finset.sum_congr rfl fun j other => ?_
    simp [ForState.setPc, Finset.ne_of_mem_erase other]
  rw [others]
  simp only [ForState.setPc, Function.update_self]
  exact add_right_comm _ _ _

@[simp] theorem setPc_passed (pc : ForPc Value) : (s.setPc i pc).passed = s.passed := rfl

private theorem ForInv.others_setPc (inv : ForInv loop threads s) (inside : i < threads)
    {pc : ForPc Value} (j : Nat) (outside : threads ≤ j) :
    Function.update s.pc i pc j = .outside := by
  have different : j ≠ i := by omega
  rw [Function.update_of_ne different]
  exact inv.others j outside

private theorem ForLocked.locked_setPc (inv : ForLocked loop s) {pc : ForPc Value}
    {lock : Option Nat}
    (change : lock = s.lock ∧ pc.locks = (s.pc i).locks ∨
      (s.lock = none ∨ s.lock = some i) ∧ lock = if pc.locks then some i else none) (j : Nat) :
    (Function.update s.pc i pc j).locks = true ↔ lock = some j := by
  by_cases same : j = i
  · subst same
    rw [Function.update_self]
    rcases change with ⟨rfl, kept⟩ | ⟨_, rfl⟩
    · rw [kept]
      exact inv.locked j
    · cases pc.locks <;> simp
  · rw [Function.update_of_ne same, inv.locked j]
    rcases change with ⟨rfl, _⟩ | ⟨mine, rfl⟩
    · rfl
    · have before : s.lock ≠ some j := by
        rcases mine with free | held
        · simp [free]
        · simpa [held] using Ne.symm same
      have after : (if pc.locks = true then some i else none) ≠ some j := by
        split <;> simp [Ne.symm same]
      exact iff_of_false before after

/-- A thread other than the one that has the lock is not at a point where it needs it. -/
theorem ForLocked.unlocked (inv : ForLocked loop s) (locks : (s.pc i).locks = true) {j : Nat}
    (other : j ≠ i) : (s.pc j).locks = false := by
  have held := (inv.locked i).mp locks
  by_contra also
  have held' := (inv.locked j).mp (by simpa using also)
  exact other (Option.some.inj (held'.symm.trans held))

theorem ForLocked.setPc (inv : ForLocked loop s) {pc : ForPc Value} {lock : Option Nat}
    {passed : List Value} (change : lock = s.lock ∧ pc.locks = (s.pc i).locks ∨
      (s.lock = none ∨ s.lock = some i) ∧ lock = if pc.locks then some i else none)
    (holds : pc = .increment → loop.cond s.var = true)
    (stopped : pc.stopped = true → loop.cond s.var = false) :
    ForLocked loop { s.setPc i pc with lock := lock, passed := passed } where
  locked := inv.locked_setPc change
  holds j increments := by
    by_cases same : j = i
    · exact holds (by simpa [ForState.setPc, same] using increments)
    · exact inv.holds j (by simpa [ForState.setPc, same] using increments)
  stopped j stops := by
    by_cases same : j = i
    · exact stopped (by simpa [ForState.setPc, same] using stops)
    · exact inv.stopped j (by simpa [ForState.setPc, same] using stops)

theorem ForLocked.increment (inv : ForLocked loop s) (pc : s.pc i = .increment) :
    ForLocked loop
      { s.setPc i (.taken (loop.inc s.var).1) with var := (loop.inc s.var).2 } := by
  have holds := inv.holds i pc
  refine ⟨inv.locked_setPc (.inl ⟨rfl, by rw [pc]; rfl⟩), fun j increments => ?_, fun j stops => ?_⟩
  · by_cases same : j = i
    · simp [ForState.setPc, same] at increments
    · -- only one thread has the lock
      have unlocked := inv.unlocked (i := i) (by rw [pc]; rfl) same
      simp only [ForState.setPc, Function.update_of_ne same] at increments
      simp [increments, ForPc.locks] at unlocked
  · by_cases same : j = i
    · simp [ForState.setPc, same, ForPc.stopped] at stops
    · have isFalse := inv.stopped j (by simpa [ForState.setPc, same] using stops)
      simp [holds] at isFalse

theorem ForLocked.step (inv : ForLocked loop s) (stepped : s.step loop threads i = some s') :
    ForLocked loop s' := by
  unfold ForState.step at stepped
  split at stepped
  case isFalse => cases stepped
  case isTrue =>
    have mine : (s.pc i).locks = true → s.lock = none ∨ s.lock = some i :=
      fun locks => .inr ((inv.locked i).mp locks)
    split at stepped
    · next pc =>
      split at stepped
      · next free =>
        cases stepped
        exact inv.setPc (.inr ⟨.inl free, rfl⟩) (by simp) (by simp [ForPc.stopped])
      · cases stepped
    · next pc =>
      cases stepped
      refine inv.setPc (.inl ⟨rfl, ?_⟩) ?_ ?_
      · split <;> simp [pc, ForPc.locks]
      · split <;> simp_all
      · split <;> simp_all [ForPc.stopped]
    · next pc =>
      cases stepped
      exact inv.increment pc
    · next v pc =>
      cases stepped
      exact inv.setPc (.inr ⟨mine (by rw [pc]; rfl), rfl⟩) (by simp) (by simp [ForPc.stopped])
    · next v pc =>
      cases stepped
      exact inv.setPc (.inl ⟨rfl, by simp [pc, ForPc.locks]⟩) (by simp) (by simp [ForPc.stopped])
    · next pc =>
      cases stepped
      exact inv.setPc (.inl ⟨rfl, by simp [pc, ForPc.locks]⟩) (by simp) (by simp [ForPc.stopped])
    · next pc =>
      cases stepped
      have isFalse := inv.stopped i (by rw [pc]; rfl)
      exact inv.setPc (.inr ⟨mine (by rw [pc]; rfl), rfl⟩) (by simp) (fun _ => isFalse)
    · cases stepped

private theorem ForInv.toLocked (inv : ForInv loop threads s) : ForLocked loop s :=
  ⟨inv.locked, inv.holds, inv.stopped⟩

theorem ForInv.setPc (inv : ForInv loop threads s) (inside : i < threads) {pc : ForPc Value}
    {lock : Option Nat} {passed : List Value}
    (locked : ForLocked loop { s.setPc i pc with lock := lock, passed := passed })
    (values : (passed : Multiset Value) + pc.pending = s.passed + (s.pc i).pending) :
    ForInv loop threads { s.setPc i pc with lock := lock, passed := passed } where
  others := inv.others_setPc inside
  locked := locked.locked
  holds := locked.holds
  stopped := locked.stopped
  executed := by
    obtain ⟨vs, executes, total⟩ := inv.executed
    refine ⟨vs, executes, ?_⟩
    have moved : (s.setPc i pc).pending threads + (s.pc i).pending = s.pending threads + pc.pending :=
      sum_setPc ForPc.pending inside pc
    rw [← total]
    refine add_right_cancel (b := (s.pc i).pending) ?_
    calc (passed : Multiset Value) + (s.setPc i pc).pending threads + (s.pc i).pending
        = passed + pc.pending + s.pending threads := by
          rw [add_assoc, moved, add_assoc, add_comm pc.pending]
      _ = s.passed + s.pending threads + (s.pc i).pending := by
          rw [values, add_right_comm]

theorem ForInv.increment (inv : ForInv loop threads s) (old : ∀ v, (loop.inc v).1 = v)
    (inside : i < threads) (pc : s.pc i = .increment) :
    ForInv loop threads
      { s.setPc i (.taken (loop.inc s.var).1) with var := (loop.inc s.var).2 } := by
  have locked := inv.toLocked.increment pc
  refine ⟨inv.others_setPc inside, locked.locked, locked.holds, locked.stopped, ?_⟩
  obtain ⟨vs, executes, total⟩ := inv.executed
  refine ⟨vs ++ [s.var], .next executes (inv.holds i pc), ?_⟩
  have moved : (s.setPc i (.taken (loop.inc s.var).1)).pending threads + (s.pc i).pending =
      s.pending threads + {(loop.inc s.var).1} := sum_setPc ForPc.pending inside _
  simp only [pc, ForPc.pending, add_zero, old] at moved
  calc (s.passed : Multiset Value) + (s.setPc i (.taken (loop.inc s.var).1)).pending threads
      = s.passed + s.pending threads + {s.var} := by rw [old, moved, add_assoc]
    _ = (vs ++ [s.var] : List Value) := by rw [total]; rfl

theorem ForInv.step (inv : ForInv loop threads s) (old : ∀ v, (loop.inc v).1 = v)
    (stepped : s.step loop threads i = some s') : ForInv loop threads s' := by
  have locked := inv.toLocked.step stepped
  unfold ForState.step at stepped
  split at stepped
  case isFalse => cases stepped
  case isTrue inside =>
    split at stepped
    · next pc =>
      split at stepped
      · cases stepped
        exact inv.setPc inside locked (by simp [pc, ForPc.pending])
      · cases stepped
    · next pc =>
      cases stepped
      refine inv.setPc inside locked ?_
      split <;> simp [pc, ForPc.pending]
    · next pc =>
      cases stepped
      exact inv.increment old inside pc
    · next v pc =>
      cases stepped
      exact inv.setPc inside locked (by simp [pc, ForPc.pending])
    · next v pc =>
      cases stepped
      exact inv.setPc inside locked (by simp [pc, ForPc.pending, ← Multiset.coe_add])
    · next pc =>
      cases stepped
      exact inv.setPc inside locked (by simp [pc, ForPc.pending])
    · next pc =>
      cases stepped
      exact inv.setPc inside locked (by simp [pc, ForPc.pending])
    · cases stepped

theorem ForLocked.initial (loop : ForLoop Value) : ForLocked loop (.initial loop) where
  locked i := by simp [ForState.initial, ForPc.locks]
  holds i increments := by simp [ForState.initial] at increments
  stopped i stops := by simp [ForState.initial, ForPc.stopped] at stops

theorem ForInv.initial (loop : ForLoop Value) (threads : Nat) :
    ForInv loop threads (.initial loop) where
  others _ _ := rfl
  locked := (ForLocked.initial loop).locked
  holds := (ForLocked.initial loop).holds
  stopped := (ForLocked.initial loop).stopped
  executed := ⟨[], .nil _, by simp [ForState.initial, ForState.pending, ForPc.pending]⟩

theorem ForInv.run (old : ∀ v, (loop.inc v).1 = v) (reached : ForReachable loop threads s) :
    ForInv loop threads s :=
  reached.invariant (ForInv loop threads) (.initial loop threads) fun inv _ stepped =>
    inv.step old stepped

private theorem ForInv.progress (inv : ForInv loop threads s)
    (stuck : ∀ i, s.step loop threads i = none) (inside : i < threads) : s.pc i = .ended := by
  have moves : ∀ j < threads, s.pc j ≠ .ended → s.pc j = .outside ∧ s.lock ≠ none := by
    intro j inside working
    have none := stuck j
    rw [ForState.step, if_pos inside] at none
    split at none <;> simp_all
  by_contra working
  obtain ⟨_, taken⟩ := moves i inside working
  obtain ⟨j, held⟩ := Option.ne_none_iff_exists'.mp taken
  have locks := (inv.locked j).mpr held
  have pool : j < threads := by
    by_contra outside
    simp [inv.others j (Nat.le_of_not_lt outside), ForPc.locks] at locks
  have busy : s.pc j ≠ .ended := by
    intro ended
    simp [ended, ForPc.locks] at locks
  simp [(moves j pool busy).1, ForPc.locks] at locks

/-- How many steps the thread takes before it needs another value of the variable. -/
def ForPc.stepsLeft : ForPc Value → Nat
  | .outside => 3
  | .test => 2
  | .increment | .leaving => 1
  | .taken _ => 6
  | .call _ => 5
  | .body => 4
  | .ended => 0

def ForState.taken (threads : Nat) (s : ForState Value) : Nat :=
  s.passed.length + (s.pending threads).card

/-- A pool takes six steps for every value, and three for the end of every thread. -/
def ForState.Counted (threads steps : Nat) (s : ForState Value) : Prop :=
  steps + ∑ i ∈ Finset.range threads, (s.pc i).stepsLeft = 6 * s.taken threads + 3 * threads

theorem ForState.Counted.setPc {steps : Nat} (counted : s.Counted threads steps)
    (inside : i < threads) {pc : ForPc Value} {var : Value} {lock : Option Nat}
    {passed : List Value}
    (spent : pc.stepsLeft + 1 + 6 * (s.passed.length + (s.pc i).pending.card) =
      (s.pc i).stepsLeft + 6 * (passed.length + pc.pending.card)) :
    ({ s.setPc i pc with var := var, lock := lock, passed := passed } :
      ForState Value).Counted threads (steps + 1) := by
  have moved := sum_setPc (s := s) ForPc.stepsLeft inside pc
  have cards := congrArg Multiset.card (sum_setPc (s := s) ForPc.pending inside pc)
  simp only [Multiset.card_add] at cards
  simp only [ForState.Counted, ForState.taken, ForState.pending] at *
  omega

theorem ForState.Counted.step {steps : Nat} (counted : s.Counted threads steps)
    (stepped : s.step loop threads i = some s') : s'.Counted threads (steps + 1) := by
  unfold ForState.step at stepped
  split at stepped
  case isFalse => cases stepped
  case isTrue inside =>
    split at stepped
    · next pc =>
      split at stepped
      · cases stepped
        exact counted.setPc inside (by simp [pc, ForPc.stepsLeft, ForPc.pending])
      · cases stepped
    · next pc =>
      cases stepped
      refine counted.setPc inside ?_
      split <;> simp [pc, ForPc.stepsLeft, ForPc.pending]
    · next pc =>
      cases stepped
      refine counted.setPc inside ?_
      simp only [pc, ForPc.stepsLeft, ForPc.pending, setPc_passed, Multiset.card_singleton,
        Multiset.card_zero]
      omega
    · next v pc =>
      cases stepped
      exact counted.setPc inside (by simp [pc, ForPc.stepsLeft, ForPc.pending])
    · next v pc =>
      cases stepped
      refine counted.setPc inside ?_
      simp [pc, ForPc.stepsLeft, ForPc.pending]
    · next pc =>
      cases stepped
      exact counted.setPc inside (by simp [pc, ForPc.stepsLeft, ForPc.pending])
    · next pc =>
      cases stepped
      exact counted.setPc inside (by simp [pc, ForPc.stepsLeft, ForPc.pending])
    · cases stepped

theorem ForState.Counted.exec {steps : Nat} {is : List Nat} (counted : s.Counted threads steps)
    (executed : Transition.exec (ForState.step loop threads) s is = some s') :
    s'.Counted threads (steps + is.length) := by
  induction is generalizing s steps with
  | nil =>
      simp only [Transition.exec, Option.some.injEq] at executed
      exact executed ▸ counted
  | cons i is ih =>
      simp only [Transition.exec, Option.bind_eq_some_iff] at executed
      obtain ⟨middle, stepped, rest⟩ := executed
      have later := ih (counted.step stepped) rest
      rwa [List.length_cons, Nat.add_comm is.length, ← Nat.add_assoc]

theorem ForState.Counted.initial (loop : ForLoop Value) (threads : Nat) :
    (ForState.initial loop).Counted threads 0 := by
  simp [ForState.Counted, ForState.initial, ForState.taken, ForState.pending, ForPc.pending,
    ForPc.stepsLeft, Nat.mul_comm]

end Pool

/-- A pool of at least one thread: a thread ends only when the condition is false; the body has
been called for no other values, and for none more often, than the `for` statement executes it
for; when all threads have ended, for exactly these. If the `for` statement ends, so does the
pool: it stops only when all threads have ended, and there is no infinite run. -/
theorem parallel_for_each_once {loop : ForLoop Value} (old : ∀ v, (loop.inc v).1 = v)
    {threads : Nat} (pool : 0 < threads) {s : ForState Value}
    (reached : ForReachable loop threads s) :
    (∀ i, s.pc i = .ended → loop.cond s.var = false) ∧
      (∃ vs : List Value, loop.Executes loop.init vs s.var ∧ (s.passed : Multiset Value) ≤ vs) ∧
      ((∀ i < threads, s.pc i = .ended) →
        ∃ vs : List Value, loop.Ends vs ∧ (s.passed : Multiset Value) = vs) ∧
      ((∀ i, s.step loop threads i = none) → ∀ i < threads, s.pc i = .ended) ∧
      ∀ vs, loop.Ends vs → ∀ is s',
        Transition.exec (ForState.step loop threads) (.initial loop) is = some s' →
          is.length ≤ 6 * vs.length + 3 * threads := by
  have inv := ForInv.run old reached
  obtain ⟨vs, executes, total⟩ := inv.executed
  have stopped : ∀ i, s.pc i = .ended → loop.cond s.var = false :=
    fun i ended => inv.stopped i (by rw [ended]; rfl)
  refine ⟨stopped, ⟨vs, executes, ?_⟩, fun ended => ?_, fun stuck i inside => ?_, ?_⟩
  · rw [← total]
    exact Multiset.le_add_right _ _
  · refine ⟨vs, ⟨s.var, executes, stopped 0 (ended 0 pool)⟩, ?_⟩
    have none : s.pending threads = 0 := by
      refine Finset.sum_eq_zero fun i inside => ?_
      rw [ended i (Finset.mem_range.mp inside)]
      rfl
    rwa [none, add_zero] at total
  · exact inv.progress stuck inside
  · intro vs ends is s' executed
    have counted := (ForState.Counted.initial loop threads).exec executed
    obtain ⟨us, executes, total⟩ := (ForInv.run old (Transition.run_of_exec executed)).executed
    have taken : s'.taken threads = us.length := by
      have card := congrArg Multiset.card total
      simpa [ForState.taken] using card
    have shorter := executes.length_le ends
    unfold ForState.Counted at counted
    omega

def ForLoop.countTo (n : Nat) : ForLoop Nat where
  init := 0
  cond i := decide (i < n)
  inc i := (i, i + 1)

/-- Two threads and two values; the thread that took the first value passes it last. -/
theorem parallel_for_each_once_two :
    ∃ s, ForReachable (.countTo 2) 2 s ∧ s.passed = [1, 0] ∧
      ∃ vs, (ForLoop.countTo 2).Ends vs ∧ (s.passed : Multiset Nat) = vs := by
  obtain ⟨s, reached, shown⟩ := Transition.exists_run (ForState.step (.countTo 2) 2)
    (.initial (.countTo 2)) [1, 1, 1, 1, 0, 0, 0, 0, 0, 1, 0, 1, 0, 0, 0, 1, 1, 1]
    (fun s => s.passed = [1, 0] ∧ s.pc 0 = .ended ∧ s.pc 1 = .ended) (by decide)
  obtain ⟨passed, first, second⟩ := of_decide_eq_true shown
  refine ⟨s, reached, passed, ?_⟩
  refine (parallel_for_each_once (fun _ => rfl) (by decide) reached).2.2.1 fun i inside => ?_
  obtain rfl | rfl : i = 0 ∨ i = 1 := by omega
  · exact first
  · exact second

end Libtcr
