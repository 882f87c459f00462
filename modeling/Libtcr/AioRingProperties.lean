import Libtcr.AioRing

/-! No completion is left in the ring unnoticed, and each is handled once. -/

set_option autoImplicit false

namespace Libtcr

/-- The part of the counter that the handler has read and not yet worked off. -/
def AioHandler.count : AioHandler → Nat
  | .loop count => count
  | .reap count e2read _ => count - e2read
  | .armed | .read | .arm => 0

def AioHandler.taken : AioHandler → List Nat
  | .reap _ _ ioe => ioe
  | _ => []

structure RingInv (s : AioRing) : Prop where
  noticed : s.ring.length ≤ s.eventfd + s.owed + s.handler.count
  once : ∀ c, s.ring.count c + s.handler.taken.count c + s.done c =
    if c < s.completions then 1 else 0

variable {s s' : AioRing}

theorem RingInv.initial : RingInv .initial where
  noticed := Nat.zero_le _
  once _ := rfl

theorem RingInv.append (inv : RingInv s) (stepped : s.step .append = some s') : RingInv s' := by
  cases stepped
  constructor
  · have before := inv.noticed
    simp only [List.length_append, List.length_singleton]
    omega
  · intro c
    have before := inv.once c
    by_cases new : c = s.completions
    · subst new
      simp only [List.count_append, List.count_singleton_self, Nat.lt_irrefl, if_false] at before ⊢
      rw [if_pos (Nat.lt_succ_self _)]
      omega
    · have other : List.count c [s.completions] = 0 :=
        List.count_eq_zero_of_not_mem (by simpa using new)
      have same : (c < s.completions + 1) = (c < s.completions) := by
        rw [eq_iff_iff]
        omega
      simp only [List.count_append, other, same]
      omega

private theorem RingInv.getevents {count : Nat} (inv : RingInv s) (at_ : s.handler = .loop count) :
    (s.ring.drop aiosAtOnce).length ≤
      s.eventfd + s.owed + (count - if aiosAtOnce < count then aiosAtOnce else count) := by
  have before := inv.noticed
  simp only [at_, AioHandler.count] at before
  rw [List.length_drop]
  split <;> omega

theorem RingInv.reaped {count e2read c : Nat} {ioe : List Nat} (inv : RingInv s)
    (at_ : s.handler = .reap count e2read ioe) (last : ioe.getLast? = some c) :
    RingInv { s with
      done := Function.update s.done c (s.done c + 1)
      handler := .reap count e2read ioe.dropLast } := by
  constructor
  · simpa [at_, AioHandler.count] using inv.noticed
  · intro x
    have before := inv.once x
    have split : ioe.count x = ioe.dropLast.count x + [c].count x := by
      obtain ⟨front, rfl⟩ := List.getLast?_eq_some_iff.mp last
      simp
    simp only [at_, AioHandler.taken] at before ⊢
    by_cases same : x = c
    · subst same
      rw [Function.update_self]
      rw [List.count_singleton_self] at split
      omega
    · have other : List.count x [c] = 0 := List.count_eq_zero_of_not_mem (by simpa using same)
      rw [Function.update_of_ne same]
      omega

theorem RingInv.handle (inv : RingInv s) (stepped : s.handle = some s') : RingInv s' := by
  have noticed := inv.noticed
  have once := inv.once
  unfold AioRing.handle at stepped
  cases at_ : s.handler with
  | armed => simp [at_] at stepped
  | read =>
      simp only [at_] at stepped
      split at stepped
      · cases stepped
        exact ⟨by simpa [at_, AioHandler.count, Nat.add_comm] using noticed,
          by simpa [at_, AioHandler.taken] using once⟩
      · cases stepped
  | loop count =>
      simp only [at_] at stepped
      split at stepped
      · cases stepped
        refine ⟨inv.getevents at_, fun c => ?_⟩
        have whole : s.ring.count c =
            (s.ring.take aiosAtOnce).count c + (s.ring.drop aiosAtOnce).count c := by
          rw [← List.count_append, List.take_append_drop]
        have before := once c
        simp only [at_, AioHandler.taken, List.count_nil] at before ⊢
        omega
      · next empty =>
        cases stepped
        refine ⟨?_, by simpa [at_, AioHandler.taken] using once⟩
        simp only [at_, AioHandler.count] at noticed ⊢
        omega
  | reap count e2read ioe =>
      simp only [at_] at stepped
      cases last : ioe.getLast? with
      | some c =>
          simp only [last, Option.some.injEq] at stepped
          subst stepped
          exact inv.reaped at_ last
      | none =>
          simp only [last, Option.some.injEq] at stepped
          subst stepped
          obtain rfl : ioe = [] := List.getLast?_eq_none_iff.mp last
          exact ⟨by simpa [at_, AioHandler.count] using noticed,
            by simpa [at_, AioHandler.taken] using once⟩
  | arm =>
      simp only [at_, Option.some.injEq] at stepped
      subst stepped
      exact ⟨by simpa [at_, AioHandler.count] using noticed,
        by simpa [at_, AioHandler.taken] using once⟩

theorem RingInv.step {a : RingAction} (inv : RingInv s) (stepped : s.step a = some s') :
    RingInv s' := by
  cases a with
  | append => exact inv.append stepped
  | add =>
      simp only [AioRing.step] at stepped
      split at stepped
      · cases stepped
        refine ⟨?_, inv.once⟩
        have before := inv.noticed
        simp only
        omega
      · cases stepped
  | report =>
      simp only [AioRing.step] at stepped
      split at stepped
      · next ready =>
        cases stepped
        exact ⟨by simpa [ready.1, AioHandler.count] using inv.noticed,
          by simpa [ready.1, AioHandler.taken] using inv.once⟩
      · cases stepped
  | handle => exact inv.handle stepped

theorem RingInv.run (reached : RingReachable s) : RingInv s :=
  reached.invariant RingInv .initial fun inv _ stepped => inv.step stepped

/-- While no handler runs, the ring holds at most as many completions as the counter of the eventfd
and what the kernel has yet to add to it. So if both are 0, all completions have been handled; and
none is handled twice. -/
theorem no_completion_left (reached : RingReachable s) :
    (s.handler = .armed →
      s.ring.length ≤ s.eventfd + s.owed ∧
      (s.eventfd = 0 → s.owed = 0 → ∀ c < s.completions, s.done c = 1)) ∧
    ∀ c, s.done c ≤ 1 ∧ (0 < s.done c ↔ c < s.completions ∧ c ∉ s.ring ∧ c ∉ s.handler.taken) := by
  have inv := RingInv.run reached
  refine ⟨fun idle => ?_, fun c => ?_⟩
  · have noticed := inv.noticed
    simp only [idle, AioHandler.count, Nat.add_zero] at noticed
    refine ⟨noticed, fun zero none c appended => ?_⟩
    have once := inv.once c
    rw [zero, none, Nat.add_zero, Nat.le_zero, List.length_eq_zero_iff] at noticed
    simpa [noticed, idle, AioHandler.taken, appended] using once
  · have once := inv.once c
    have inRing : c ∈ s.ring ↔ 0 < s.ring.count c := List.count_pos_iff.symm
    have inHand : c ∈ s.handler.taken ↔ 0 < s.handler.taken.count c := List.count_pos_iff.symm
    rw [inRing, inHand]
    split at once <;> constructor <;> omega

/-- The handler reaps a completion that the counter has not promised, so that the next one finds the
ring empty. -/
theorem no_completion_left_early : ∃ s, RingReachable s ∧ s.handler = .armed ∧
    (s.ring, s.eventfd, s.owed, s.completions) = ([], 1, 0, 2) ∧
    s.ring.length ≤ s.eventfd + s.owed ∧ ∀ c, s.done c ≤ 1 := by
  obtain ⟨s, reached, shown⟩ := Transition.exists_run AioRing.step .initial
    [.append, .add, .append, .report, .handle, .handle, .handle, .handle, .add, .handle, .handle,
      .handle]
    (fun s => s.handler = .armed && (s.ring, s.eventfd, s.owed, s.completions) = ([], 1, 0, 2))
    (by decide)
  simp only [Bool.and_eq_true, decide_eq_true_eq] at shown
  have left := no_completion_left (show RingReachable s from reached)
  exact ⟨s, reached, shown.1, shown.2, (left.1 shown.1).1, fun c => (left.2 c).1⟩

/-- Between the two steps of the kernel the counter is behind the ring. -/
theorem completion_before_addition : ∃ s, RingReachable s ∧ s.handler = .armed ∧
    s.eventfd = 0 ∧ ¬ s.ring.length ≤ s.eventfd ∧ ¬ ∀ c < s.completions, s.done c = 1 := by
  obtain ⟨s, reached, shown⟩ := Transition.exists_run AioRing.step .initial [.append]
    (fun s => s.handler = .armed && s.eventfd = 0 && s.ring = [0] && s.completions = 1 && s.done 0 = 0)
    (by decide)
  simp only [Bool.and_eq_true, decide_eq_true_eq] at shown
  obtain ⟨⟨⟨⟨idle, zero⟩, ring⟩, completions⟩, notDone⟩ := shown
  refine ⟨s, reached, idle, zero, by simp [ring, zero], fun all => ?_⟩
  have handled := all 0 (by simp [completions])
  simp [notDone] at handled

end Libtcr
