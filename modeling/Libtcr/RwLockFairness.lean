import Libtcr.RwLockSteps

/-! Fairness against a writer: `tc_rw_r_lock` takes the mutex that a waiting writer holds,
so no reader that comes after the writer is let in before it. -/

set_option autoImplicit false

namespace Libtcr

open State

/-- Thread `t` has the mutex of the lock and waits until there are no readers. -/
def RwState.Waits (s : RwState) (t : Tid) : Prop :=
  s.pc t = .wLocked ∨ ∃ e, s.pc t = .wWaiting e

/-- Thread `t` is still in `tc_rw_w_lock`, or has returned from it with the lock. -/
def RwState.Claims (s : RwState) (t : Tid) : Prop :=
  s.Waits t ∨ s.writing t = true ∨ ∃ rv, s.pc t = .wInterrupted rv

/-! ## One step -/

section Steps

variable {m : MutexId} {k : Nat} {s s' : RwState} {t u : Tid} {w : WorkerId}

theorem RwState.Waits.inside (waits : s.Waits t) : s.pc t ≠ .outside := by
  rcases waits with pc | ⟨e, pc⟩
  · simp [pc]
  · simp [pc]

private theorem RwInv.held_of_waits (inv : RwInv m k s) (waits : s.Waits t) :
    s.sys.held t m = true := by
  have thread := inv.thread t
  rcases waits with pc | ⟨e, pc⟩
  · simp only [RwThreadInv, pc] at thread
    exact thread.2.1
  · simp only [RwThreadInv, pc] at thread
    exact thread.2.2.1

private theorem RwInv.held_of_claims (inv : RwInv m k s) (claims : s.Claims t) :
    s.sys.held t m = true := by
  rcases claims with waits | writing | ⟨rv, pc⟩
  · exact inv.held_of_waits waits
  · exact (inv.thread t).held writing
  · have thread := inv.thread t
    simp only [RwThreadInv, pc] at thread
    exact thread.2.1

/-- What a step of thread `u` leaves to the other threads: only one that has the mutex adds a
reader. -/
structure RwFrame (s s' : RwState) (u : Tid) : Prop where
  others : ∀ t, t ≠ u → s'.pc t = s.pc t
  readers : s'.readLocks.Sublist s.readLocks ∨ s.pc u = .rLocked ∨ s.writing u = true

theorem RwFrame.of_eq (pc : ∀ t, t ≠ u → s'.pc t = s.pc t) (same : s'.readLocks = s.readLocks) :
    RwFrame s s' u :=
  ⟨pc, .inl (same ▸ List.Sublist.refl _)⟩

theorem RwFrame.setPc (s : RwState) (sys : State) (u : Tid) (pc : RwPc) :
    RwFrame s ({ s with sys := sys }.setPc u pc) u :=
  .of_eq (fun _ other => Function.update_of_ne other _ _) rfl

theorem RwFrame.returns (s : RwState) (sys : State) (u : Tid) (call : RwCall) (rv : Rv) :
    RwFrame s ({ s with sys := sys }.returns u call rv) u :=
  .of_eq (fun _ other => Function.update_of_ne other _ _) rfl

theorem RwFrame.acquire (s : RwState) (u : Tid) (call : RwCall) :
    RwFrame s (s.acquire u call) u :=
  .of_eq (fun _ other => Function.update_of_ne other _ _) rfl

theorem RwFrame.enters (s : RwState) (sys : State) (u : Tid) (pc : RwPc) :
    RwFrame s ({ s with sys := sys }.enters u pc) u :=
  .of_eq (fun _ other => Function.update_of_ne other _ _) rfl

theorem RwFrame.call {a : Action} {after : State → RwState} (called : s.call a after = some s')
    (done : ∀ sys, RwFrame s (after sys) u) : RwFrame s s' u := by
  obtain ⟨sys, _, rfl⟩ | ⟨fault, _, rfl⟩ := State.call_cases called
  · exact done sys
  · exact .of_eq (fun _ _ => rfl) rfl

theorem RwFrame.nextStep {n : Nat} (moved : s.nextStep m k w u n = some s') : RwFrame s s' u := by
  unfold RwState.nextStep at moved
  cases pc : s.pc u <;> simp only [pc] at moved
  case outside => cases moved
  case rLocking e =>
    split at moved
    · cases moved
    · cases moved
      exact .setPc s s.sys u _
    · cases moved
      exact .returns s s.sys u _ _
  case rLocked =>
    cases moved
    exact ⟨fun _ other => Function.update_of_ne other _ _, .inr (.inl pc)⟩
  case rCounted => exact .call moved fun sys => .returns s sys u _ _
  case wLocking e =>
    split at moved
    · cases moved
    · cases moved
      exact .setPc s s.sys u _
    · cases moved
      exact .returns s s.sys u _ _
  case wLocked => exact .call moved fun sys => .setPc s sys u _
  case wWaiting e =>
    split at moved
    · cases moved
    · cases moved
      exact .acquire s u _
    · cases moved
      exact .setPc s s.sys u _
  case wInterrupted rv => exact .call moved fun sys => .returns s sys u _ _
  case tLocked =>
    split at moved
    · cases moved
      exact .setPc s s.sys u _
    · cases moved
      exact .acquire s u _
  case tRefused => exact .call moved fun sys => .returns s sys u _ _
  case rReleased => exact .call moved fun sys => .setPc s sys u _
  case wDowngraded => exact .call moved fun sys => .setPc s sys u _

theorem RwFrame.beginStep {op : RwOp} (begun : s.beginStep m w u op = some s') :
    RwFrame s s' u := by
  cases op with
  | rLock n => exact .call begun fun sys => .enters s sys u _
  | wLock n => exact .call begun fun sys => .enters s sys u _
  | rUnlock v =>
      simp only [RwState.beginStep] at begun
      split at begun
      · cases begun
        exact ⟨fun _ other => Function.update_of_ne other _ _, .inl (List.erase_sublist)⟩
      · cases begun
  | wTrylock =>
      apply RwFrame.call begun
      intro sys
      split
      · exact .enters s sys u _
      · exact .returns s sys u _ _
  | wUnlock =>
      simp only [RwState.beginStep] at begun
      split at begun
      · apply RwFrame.call begun
        intro sys
        exact .of_eq (fun _ other => Function.update_of_ne other _ _) rfl
      · cases begun
  | w2rLock =>
      simp only [RwState.beginStep] at begun
      split at begun
      · next writing =>
        cases begun
        exact ⟨fun _ other => Function.update_of_ne other _ _, .inr (.inr writing)⟩
      · cases begun

private theorem RwState.Waits.of_pc (waits : s.Waits t) (same : s'.pc t = s.pc t) : s'.Waits t := by
  unfold RwState.Waits
  rw [same]
  exact waits

theorem RwFrame.other (frame : RwFrame s s' u) (inv : RwInv m k s) (waits : s.Waits t)
    (other : t ≠ u) : s'.readLocks.Sublist s.readLocks ∧ s'.Claims t := by
  have held := inv.held_of_waits waits
  constructor
  · rcases frame.readers with fewer | locked | writing
    · exact fewer
    · have thread := inv.thread u
      simp only [RwThreadInv, locked] at thread
      exact absurd (held_unique inv.sys held thread.2.1) other
    · exact absurd (held_unique inv.sys held ((inv.thread u).held writing)) other
  · exact .inl (waits.of_pc (frame.others t other))

/-- The waiting writer's own step ends the wait in one of the ways of `Claims`. -/
theorem RwState.Waits.nextStep {n : Nat} (waits : s.Waits t)
    (moved : s.nextStep m k w t n = some s') :
    s'.readLocks.Sublist s.readLocks ∧ s'.Claims t := by
  unfold RwState.nextStep at moved
  rcases waits with pc | ⟨e, pc⟩
  · simp only [pc] at moved
    obtain ⟨sys, _, rfl⟩ | ⟨fault, _, rfl⟩ := State.call_cases moved
    · exact ⟨List.Sublist.refl _, .inl (.inr ⟨_, Function.update_self ..⟩)⟩
    · exact ⟨List.Sublist.refl _, .inl (.inl pc)⟩
  · simp only [pc] at moved
    split at moved
    · cases moved
    · cases moved
      exact ⟨List.Sublist.refl _, .inr (.inl (Function.update_self ..))⟩
    · cases moved
      exact ⟨List.Sublist.refl _, .inr (.inr ⟨_, Function.update_self ..⟩)⟩

private theorem RwInv.waits_step {a : RwAction} (inv : RwInv m k s) (waits : s.Waits t)
    (stepped : s.step m k a = some s') : s'.readLocks.Sublist s.readLocks ∧ s'.Claims t := by
  cases a with
  | system a =>
      simp only [RwState.step] at stepped
      split at stepped
      · obtain ⟨sys, _, rfl⟩ := Option.map_eq_some_iff.mp stepped
        exact ⟨List.Sublist.refl _, .inl waits⟩
      · cases stepped
  | begin w op =>
      obtain ⟨u, _, begun⟩ := Option.bind_eq_some_iff.mp stepped
      split at begun
      · next ready =>
        have other : t ≠ u := fun same => waits.inside (same ▸ ready.2)
        exact (RwFrame.beginStep begun).other inv waits other
      · cases begun
  | next w n =>
      obtain ⟨u, _, moved⟩ := Option.bind_eq_some_iff.mp stepped
      split at moved
      · by_cases same : t = u
        · exact waits.nextStep (same ▸ moved)
        · exact (RwFrame.nextStep moved).other inv waits same
      · cases moved

end Steps

/-! ## Runs -/

/-- From the moment a writer has the mutex until it has the lock or gives up, the read locks
only get fewer, and no other writer gets in. -/
theorem waiting_writer_not_overtaken {m : MutexId} {k workers : Nat}
    {domainOf : WorkerId → DomainId} {s s' : RwState} {t : Tid}
    (reached : RwReachable m k workers domainOf s) (waits : s.Waits t)
    (waiting : Transition.Run (RwState.step m k) (fun s _ => s.Waits t) s s') :
    s'.readLocks.Sublist s.readLocks ∧ s'.readers ≤ s.readers ∧ s'.Claims t ∧
      ∀ u, s'.writing u = true → u = t := by
  obtain ⟨inv, fewer, claims⟩ : RwInv m k s' ∧ s'.readLocks.Sublist s.readLocks ∧ s'.Claims t := by
    induction waiting with
    | refl => exact ⟨RwInv.run reached, List.Sublist.refl _, .inl waits⟩
    | next _ still stepped ih =>
        obtain ⟨inv, fewer, _⟩ := ih
        obtain ⟨less, claims⟩ := inv.waits_step still stepped
        exact ⟨inv.step stepped, less.trans fewer, claims⟩
  refine ⟨fewer, ?_, claims, fun u writing => ?_⟩
  · rw [inv.count, (RwInv.run reached).count]
    exact Int.ofNat_le.mpr fewer.length_le
  · exact held_unique inv.sys ((inv.thread u).held writing) (inv.held_of_claims claims)

def writerWaits : List RwAction :=
  [.begin 0 (.rLock 0), .system (.advance 0), .next 0 0, .next 0 0, .next 0 0,
    .begin 1 (.wLock 0), .system (.advance 1), .next 1 0, .next 1 1,
    .system (.condition 1 false), .system (.advance 1), .system (.condition 1 false),
    .system (.advance 1)]

/-- A third thread asks for a read lock before thread 0 releases its own. -/
def latecomer : List RwAction :=
  [.begin 2 (.rLock 0), .system (.advance 2), .begin 0 (.rUnlock 0), .next 0 0,
    .system (.leave 1), .system (.runImmediate 1 .any), .system (.enter 1), .system (.advance 1),
    .system (.advance 1), .system (.condition 1 true), .system (.advance 1), .next 1 0]

set_option maxRecDepth 20000 in
theorem waiting_writer_not_overtaken_latecomer : ∃ s s',
    RwReachable 0 0 3 (fun _ => 0) s ∧ s.Waits 1 ∧ s.readLocks = [0] ∧
    Transition.Run (RwState.step 0 0) (fun s _ => s.Waits 1) s s' ∧ s'.writing 1 = true ∧
    s'.pc 2 = .rLocking (.auto 2 0) ∧ s'.readLocks.Sublist s.readLocks := by
  have waits : ∀ s : RwState, s.pc 1 = .wWaiting (.auto 1 1) → s.Waits 1 :=
    fun s pc => .inr ⟨_, pc⟩
  obtain ⟨s, reached, shown⟩ := Transition.exists_run (RwState.step 0 0)
    (.initial 3 (fun _ => 0)) writerWaits
    (fun s => decide (s.pc 1 = .wWaiting (.auto 1 1)) && decide (s.readLocks = [0]) &&
      (Transition.exec (Transition.guarded (RwState.step 0 0)
        fun s _ => decide (s.pc 1 = .wWaiting (.auto 1 1))) s latecomer).any
          fun s' : RwState => s'.writing 1 && decide (s'.pc 2 = .rLocking (.auto 2 0))) (by decide)
  simp only [Bool.and_eq_true, decide_eq_true_eq, Option.any_eq_true] at shown
  obtain ⟨⟨pc, reader⟩, s', executed, writing, late⟩ := shown
  have waiting : Transition.Run (RwState.step 0 0) (fun s _ => s.Waits 1) s s' :=
    (Transition.Run.of_guarded (Transition.run_of_exec executed)).mono
      fun s _ allowed => waits s (by simpa using allowed)
  exact ⟨s, s', reached, waits s pc, reader, waiting, writing, late,
    (waiting_writer_not_overtaken reached (waits s pc) waiting).1⟩

end Libtcr
