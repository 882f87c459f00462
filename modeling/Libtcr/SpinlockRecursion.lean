import Libtcr.SpinlockProperties

/-! A pthread that calls `spin_lock` on a lock that it holds finds its own marker in the word and
exits, whatever the other pthreads do meanwhile. -/

set_option autoImplicit false

namespace Libtcr

section Recursion

variable {Pthread : Type} [DecidableEq Pthread] {owner : Pthread → BitVec 64}
  {s s' : Spinlock Pthread} {p q : Pthread} {a : SpinlockAction Pthread} {left : Nat}

/-- Pthread `p` holds the lock and is in `__spin_lock`, with `left` steps to the exit. -/
inductive Spinlock.Recursing (owner : Pthread → BitVec 64) (s : Spinlock Pthread) (p : Pthread) :
    Nat → Prop where
  | enters (holds : s.holds p = true) (pc : s.pc p = .enters) : Recursing owner s p 4
  | counts (holds : s.holds p = true) (pc : s.pc p = .counts) : Recursing owner s p 3
  | reads (holds : s.holds p = true) (spins : BitVec 32) (pc : s.pc p = .reads spins) :
      Recursing owner s p 2
  | found (holds : s.holds p = true) (spins : BitVec 32) (pc : s.pc p = .found spins (owner p)) :
      Recursing owner s p 1
  | deadlock (holds : s.holds p = true) (pc : s.pc p = .deadlock) : Recursing owner s p 0

omit [DecidableEq Pthread] in
theorem Spinlock.Recursing.holds (recursing : s.Recursing owner p left) : s.holds p = true := by
  cases recursing <;> assumption

omit [DecidableEq Pthread] in
theorem Spinlock.Recursing.inside (recursing : s.Recursing owner p left) :
    s.pc p ≠ .outside := by
  cases recursing <;> simp [*]

omit [DecidableEq Pthread] in
private theorem Spinlock.Recursing.zero_iff (recursing : s.Recursing owner p left) :
    left = 0 ↔ s.pc p = .deadlock := by
  cases recursing <;> simp [*]

omit [DecidableEq Pthread] in
theorem Spinlock.Recursing.congr (recursing : s.Recursing owner p left)
    (pc : s'.pc p = s.pc p) (holds : s'.holds p = s.holds p) : s'.Recursing owner p left := by
  cases recursing with
  | enters held at_ => exact .enters (holds.trans held) (pc.trans at_)
  | counts held at_ => exact .counts (holds.trans held) (pc.trans at_)
  | reads held spins at_ => exact .reads (holds.trans held) spins (pc.trans at_)
  | found held spins at_ => exact .found (holds.trans held) spins (pc.trans at_)
  | deadlock held at_ => exact .deadlock (holds.trans held) (pc.trans at_)

private theorem Spinlock.trylock_other (next : BitVec 32 → SpinlockPc) (other : p ≠ q) :
    (s.trylock owner q next).pc p = s.pc p ∧ (s.trylock owner q next).holds p = s.holds p := by
  simp only [Spinlock.trylock]
  refine ⟨Function.update_of_ne other _ _, ?_⟩
  split
  · exact Function.update_of_ne other _ _
  · rfl

private theorem Spinlock.spin_other (stepped : s.spin owner q = some s') (other : p ≠ q) :
    s'.pc p = s.pc p ∧ s'.holds p = s.holds p := by
  have goes : ∀ {s : Spinlock Pthread} {pc : SpinlockPc}, (s.goto q pc).pc p = s.pc p := by
    intro s pc
    simp only [Spinlock.goto]
    exact Function.update_of_ne other _ _
  unfold Spinlock.spin at stepped
  cases pc : s.pc q <;> simp only [pc] at stepped
  case enters | retries =>
    cases stepped
    exact Spinlock.trylock_other _ other
  case counts | reads | sleeps | leaves =>
    cases stepped
    exact ⟨goes, rfl⟩
  case found spins currentOwner =>
    split at stepped
    · cases stepped
      exact ⟨goes, rfl⟩
    · split at stepped <;> cases stepped <;> exact ⟨goes, rfl⟩
  case outside | deadlock | assertFailed => cases stepped

theorem Spinlock.Recursing.spin (recursing : s.Recursing owner p (left + 1))
    (inv : SpinlockInv owner s) (nonzero : ∀ p, markerTid (owner p) ≠ 0) :
    ∃ s', s.spin owner p = some s' ∧ s'.Recursing owner p left := by
  have word := inv.word p recursing.holds
  have tid : markerTid s.lock ≠ 0 := word ▸ nonzero p
  have marked : owner p ≠ 0 := fun zero => nonzero p (by rw [zero]; rfl)
  cases recursing with
  | enters holds pc =>
      refine ⟨_, by simp only [Spinlock.spin, pc]; rfl, ?_⟩
      rw [Spinlock.trylock_taken _ tid, if_neg tid]
      exact .counts holds (Function.update_self ..)
  | counts holds pc =>
      refine ⟨_, by simp only [Spinlock.spin, pc]; rfl, ?_⟩
      rw [if_neg marked]
      exact .reads holds _ (Function.update_self ..)
  | reads holds spins pc =>
      refine ⟨_, by simp only [Spinlock.spin, pc]; rfl, ?_⟩
      rw [word, if_neg marked]
      exact .found holds spins (Function.update_self ..)
  | found holds spins pc =>
      refine ⟨s.goto p .deadlock, by simp only [Spinlock.spin, pc, if_pos], ?_⟩
      exact .deadlock holds (Function.update_self ..)

theorem Spinlock.Recursing.other (recursing : s.Recursing owner p left)
    (inv : SpinlockInv owner s) (distinct : Function.Injective fun p => markerTid (owner p))
    (stepped : s.step owner a = some s') (apart : a ≠ .spin p) : s'.Recursing owner p left := by
  cases a with
  | lock q =>
      simp only [Spinlock.step] at stepped
      split at stepped
      · next at_ =>
        cases stepped
        have other : p ≠ q := fun same => recursing.inside (same ▸ at_)
        exact recursing.congr (Spinlock.trylock_other _ other).1 (Spinlock.trylock_other _ other).2
      · cases stepped
  | trylock q =>
      simp only [Spinlock.step] at stepped
      split at stepped
      · next at_ =>
        cases stepped
        have other : p ≠ q := fun same => recursing.inside (same ▸ at_)
        exact recursing.congr (Spinlock.trylock_other _ other).1 (Spinlock.trylock_other _ other).2
      · cases stepped
  | unlock q =>
      simp only [Spinlock.step] at stepped
      split at stepped
      · next allowed =>
        -- Nobody else holds the lock, and its holder is in `__spin_lock`.
        have same : p = q := inv.exclusive distinct recursing.holds allowed.2
        exact absurd (same ▸ allowed.1) recursing.inside
      · cases stepped
  | spin q =>
      have other : p ≠ q := fun same => apart (same ▸ rfl)
      obtain ⟨pc, holds⟩ := Spinlock.spin_other stepped other
      exact recursing.congr pc holds

theorem Spinlock.Recursing.exec {labels : List (SpinlockAction Pthread)}
    (recursing : s.Recursing owner p left) (inv : SpinlockInv owner s)
    (distinct : Function.Injective fun p => markerTid (owner p))
    (nonzero : ∀ p, markerTid (owner p) ≠ 0)
    (executed : Transition.exec (Spinlock.step owner) s labels = some s') :
    SpinlockInv owner s' ∧ ∃ left', s'.Recursing owner p left' ∧
      left' + labels.count (.spin p) = left := by
  have finite : Finite Pthread := .of_injective _ (BitVec.toFin_injective.comp distinct)
  induction labels generalizing s left with
  | nil =>
      cases executed
      exact ⟨inv, left, recursing, rfl⟩
  | cons a labels ih =>
      simp only [Transition.exec, Option.bind_eq_some_iff] at executed
      obtain ⟨s₁, stepped, rest⟩ := executed
      have kept := inv.step distinct nonzero stepped
      by_cases own : a = .spin p
      · subst own
        cases left with
        | zero =>
            have exited := recursing.zero_iff.mp rfl
            simp [Spinlock.step, Spinlock.spin, exited] at stepped
        | succ left =>
            obtain ⟨s₂, moved, closer⟩ := recursing.spin inv nonzero
            obtain rfl : s₁ = s₂ := Option.some.inj (stepped.symm.trans moved)
            obtain ⟨inv', left', still, count⟩ := ih closer kept rest
            refine ⟨inv', left', still, ?_⟩
            rw [List.count_cons_self]
            omega
      · obtain ⟨inv', left', still, count⟩ :=
          ih (recursing.other inv distinct stepped own) kept rest
        exact ⟨inv', left', still, by rw [List.count_cons_of_ne own, count]⟩

end Recursion

/-- Deadlock detection: a pthread that calls `spin_lock` with the lock in its hands keeps it, can
always take its next step, and is in the exit after four of them, in every interleaving. -/
theorem recursive_spin_lock_exits {Pthread : Type} [DecidableEq Pthread]
    {owner : Pthread → BitVec 64} {s s₁ s' : Spinlock Pthread} {p : Pthread}
    {labels : List (SpinlockAction Pthread)}
    (distinct : Function.Injective fun p => markerTid (owner p))
    (nonzero : ∀ p, markerTid (owner p) ≠ 0) (reached : SpinlockReachable owner s)
    (holds : s.holds p = true) (called : s.step owner (.lock p) = some s₁)
    (executed : Transition.exec (Spinlock.step owner) s₁ labels = some s') :
    s'.holds p = true ∧ s'.lock = owner p ∧ labels.count (.spin p) ≤ 4 ∧
    (s'.pc p = .deadlock ↔ labels.count (.spin p) = 4) ∧
    (labels.count (.spin p) < 4 → (s'.step owner (.spin p)).isSome = true) := by
  have inv := SpinlockInv.run distinct nonzero reached
  have inv₁ := SpinlockInv.run distinct nonzero (reached.next trivial called)
  have tid : markerTid s.lock ≠ 0 := inv.word p holds ▸ nonzero p
  have recursing : s₁.Recursing owner p 4 := by
    simp only [Spinlock.step] at called
    split at called
    · cases called
      rw [Spinlock.trylock_taken _ tid, if_pos tid]
      exact .enters holds (Function.update_self ..)
    · cases called
  obtain ⟨inv', left, still, count⟩ := recursing.exec inv₁ distinct nonzero executed
  refine ⟨still.holds, inv'.word p still.holds, by omega, ?_, fun more => ?_⟩
  · rw [← still.zero_iff]
    omega
  · obtain ⟨left, rfl⟩ : ∃ n, left = n + 1 := ⟨left - 1, by omega⟩
    obtain ⟨after, moved, _⟩ := still.spin inv' nonzero
    exact Option.isSome_of_mem moved

theorem recursive_spin_lock_exits_contended : ∃ s,
    SpinlockReachable twoMarkers s ∧ s.pc 0 = .deadlock ∧ s.holds 0 = true ∧
      s.pc 1 = .reads 101 := by
  obtain ⟨s, reached, shown⟩ := Transition.exists_run (Spinlock.step twoMarkers) .initial
    [.lock 0] (fun s => s.holds 0 && (s.step twoMarkers (.lock 0)).any fun s₁ : Spinlock (Fin 2) =>
      (Transition.exec (Spinlock.step twoMarkers) s₁ [.spin 0, .lock 1, .spin 1, .spin 0, .spin 1,
        .spin 1, .spin 0, .spin 1, .spin 0]).any fun s' : Spinlock (Fin 2) =>
          decide (s'.pc 1 = .reads 101)) (by decide)
  simp only [Bool.and_eq_true, decide_eq_true_eq, Option.any_eq_true] at shown
  obtain ⟨holds, s₁, called, s', executed, other⟩ := shown
  obtain ⟨kept, _, _, exits, _⟩ := recursive_spin_lock_exits (by decide) (by decide) reached holds
    called executed
  have whole := (reached.next trivial called).trans (Transition.run_of_exec executed)
  exact ⟨s', whole, exits.mpr (by decide), kept, other⟩

end Libtcr
