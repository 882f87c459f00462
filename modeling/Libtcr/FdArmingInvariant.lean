import Libtcr.FdArming
import Libtcr.FdProperties

/-! What holds at the points of the critical sections in which a `tc_fd` is armed. -/

set_option autoImplicit false

namespace Libtcr

private theorem calcEpollEventMask_contains {α : Type} (epEvents : α → Mask) {es : List α} {e : α}
    (member : e ∈ es) : epEvents e &&& calcEpollEventMask epEvents es = epEvents e := by
  have grows : ∀ (es : List α) (start mask : Mask), mask &&& start = mask →
      mask &&& es.foldl (fun em e => em ||| epEvents e) start = mask := by
    intro es
    induction es with
    | nil => exact fun _ _ contained => contained
    | cons x es ih =>
        intro start mask contained
        refine ih _ _ ?_
        rw [← contained]
        ext i
        simp
        tauto
  have found : ∀ (es : List α) (start : Mask), e ∈ es →
      epEvents e &&& es.foldl (fun em e => em ||| epEvents e) start = epEvents e := by
    intro es
    induction es with
    | nil => exact fun _ member => nomatch member
    | cons x es ih =>
        intro start member
        rcases List.mem_cons.mp member with rfl | below
        · refine grows es _ _ ?_
          ext i
          simp
          tauto
        · exact ih _ below
  exact found es 0 member

namespace FdState

/-- A worker has a report for the `tc_fd` that it has not begun to handle. -/
def InFlight (s : FdState) : Prop := ∃ w em, s.reporter w = .reported em

/-- A report is in flight, or the kernel watches for what the waiters `es` wait for. -/
def Covered (s : FdState) (es : List Tid) : Prop :=
  es ≠ [] → s.InFlight ∨
    ∃ mask, s.kernel = some mask ∧ ∀ t ∈ es, s.epEvents t &&& mask = s.epEvents t

/-- `tcfd->ep_events` is the mask in the kernel, unless it is 0 or a report is in flight. -/
def CacheValid (s : FdState) : Prop :=
  s.cached ≠ 0 → s.kernel = some s.cached ∨ s.InFlight

end FdState

def WaiterPc.listed : WaiterPc → Bool
  | .adding | .waiting | .woken true | .cleared true => true
  | _ => false

def ArmInv (s : FdState) : ArmPc → Prop
  | .compare => s.CacheValid
  | .store mask => mask = s.neededMask
  | .modify mask => mask = s.neededMask ∧ (s.cached = mask ∨ s.cached = 0)
  | .armed => s.Covered s.events ∧ s.CacheValid

/-- What holds at the points of the critical sections, and outside of them. -/
def SectionInv (s : FdState) : Option FdSection → Prop
  | none => s.Covered s.events ∧ s.CacheValid
  | some (.addEventFd _ pc) | some (.tcRearm _ pc) | some (.rearm _ _ pc) => ArmInv s pc
  | some (.matched _ _) => True
  | some (.run _ e) => s.Covered (e.elim s.events s.events.erase) ∧ s.CacheValid

def FdSection.worker : FdSection → Option WorkerId
  | .addEventFd _ _ | .tcRearm _ _ => none
  | .matched w _ | .rearm w _ _ | .run w _ => some w

structure FdArmInv (s : FdState) : Prop where
  nodup : s.events.Nodup
  listed : ∀ t ∈ s.events, (s.waiter t).listed = true
  oneshot : ∀ t ∈ s.events, s.epEvents t ≠ 0
  rearming : ∀ t pc, s.lock = some (.tcRearm t pc) → s.waiter t = .rearming
  handling : ∀ part w, s.lock = some part → part.worker = some w → s.reporter w = .locked
  guarded : s.errHup = false → SectionInv s s.lock

section Arm

variable {s s' : FdState}

private theorem FdState.covered_of_needed
    (armed : s.kernel = some s.neededMask ∨ s.InFlight) : s.Covered s.events := by
  intro _
  rcases armed with kernel | flight
  · exact .inr ⟨_, kernel, fun t member => calcEpollEventMask_contains s.epEvents member⟩
  · exact .inl flight

private theorem FdState.events_nil_of_needed (oneshot : ∀ t ∈ s.events, s.epEvents t ≠ 0)
    (nothing : s.neededMask = 0) : s.events = [] := by
  refine List.eq_nil_iff_forall_not_mem.mpr fun t member => oneshot t member ?_
  have contained := calcEpollEventMask_contains s.epEvents member
  rw [← contained]
  have none : calcEpollEventMask s.epEvents s.events = 0 := nothing
  simp [none]

theorem FdState.Covered.congr {es es' : List Tid} (covered : s.Covered es)
    (flight : s.InFlight → s'.InFlight) (kernel : s'.kernel = s.kernel ∨ s'.InFlight)
    (masks : ∀ t ∈ es', s'.epEvents t = s.epEvents t) (fewer : ∀ t ∈ es', t ∈ es) :
    s'.Covered es' := by
  intro some_
  rcases kernel with same | now
  · have before : es ≠ [] := by
      obtain ⟨t, member⟩ := List.exists_mem_of_ne_nil es' some_
      exact List.ne_nil_of_mem (fewer t member)
    rcases covered before with old | ⟨mask, armed, contained⟩
    · exact .inl (flight old)
    · refine .inr ⟨mask, same.trans armed, fun t member => ?_⟩
      rw [masks t member]
      exact contained t (fewer t member)
  · exact .inl now

theorem FdState.CacheValid.congr (valid : s.CacheValid) (flight : s.InFlight → s'.InFlight)
    (kernel : s'.kernel = s.kernel ∨ s'.InFlight) (cached : s'.cached = s.cached ∨ s'.cached = 0) :
    s'.CacheValid := by
  intro used
  rcases cached with same | none
  · rcases kernel with equal | now
    · rcases valid (same ▸ used) with armed | old
      · exact .inl (by rw [equal, armed, same])
      · exact .inr (flight old)
    · exact .inr now
  · exact absurd none used

/-- The invariant of the critical section does not depend on the other threads, on reports
that arrive, or on the cached mask being cleared. -/
theorem SectionInv.congr {lock : Option FdSection} (inv : SectionInv s lock)
    (flight : s.InFlight → s'.InFlight) (kernel : s'.kernel = s.kernel ∨ s'.InFlight)
    (cached : s'.cached = s.cached ∨ s'.cached = 0) (events : s'.events = s.events)
    (masks : s'.epEvents = s.epEvents) : SectionInv s' lock := by
  have covered : ∀ {es}, s.Covered es → s'.Covered es := fun before =>
    before.congr flight kernel (fun _ _ => by rw [masks]) fun _ member => member
  have valid : s.CacheValid → s'.CacheValid := fun before => before.congr flight kernel cached
  have needed : s'.neededMask = s.neededMask := by
    rw [FdState.neededMask, FdState.neededMask, events, masks]
  have armed : ∀ {pc}, ArmInv s pc → ArmInv s' pc := by
    intro pc before
    cases pc with
    | compare => exact valid before
    | store mask => exact before.trans needed.symm
    | modify mask =>
        refine ⟨before.1.trans needed.symm, ?_⟩
        rcases cached with same | none
        · rw [same]
          exact before.2
        · exact .inr none
    | armed =>
        refine ⟨?_, valid before.2⟩
        rw [events]
        exact covered before.1
  cases lock with
  | none =>
      refine ⟨?_, valid inv.2⟩
      rw [events]
      exact covered inv.1
  | some part =>
      cases part with
      | addEventFd t pc => exact armed inv
      | tcRearm t pc => exact armed inv
      | matched w e => trivial
      | rearm w e pc => exact armed inv
      | run w e =>
          refine ⟨?_, valid inv.2⟩
          rw [events]
          exact covered inv.1

/-- `arm` skips the system call only when the kernel has the mask, or will be looked at
again by the worker that handles the report in flight. -/
theorem ArmInv.step {pc : ArmPc} (inv : ArmInv s pc)
    (oneshot : ∀ t ∈ s.events, s.epEvents t ≠ 0) :
    ArmInv (s.armStep pc).1 (s.armStep pc).2 := by
  cases pc with
  | compare =>
      by_cases same : s.neededMask = s.cached
      · rw [FdState.armStep, if_pos same]
        refine ⟨?_, inv⟩
        by_cases nothing : s.neededMask = 0
        · exact fun waiters => absurd (FdState.events_nil_of_needed oneshot nothing) waiters
        · refine FdState.covered_of_needed ?_
          rw [same] at nothing ⊢
          exact inv nothing
      · rw [FdState.armStep, if_neg same]
        rfl
  | store mask => exact ⟨inv, .inl rfl⟩
  | modify mask =>
      obtain ⟨rfl, cached⟩ := inv
      refine ⟨FdState.covered_of_needed (.inl rfl), fun used => .inl ?_⟩
      rcases cached with same | none
      · exact congrArg some same.symm
      · exact absurd none used
  | armed => exact inv

end Arm

end Libtcr
