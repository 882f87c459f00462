import Libtcr.Lib.Refinement
import Libtcr.RwLockSteps
import Mathlib.Data.Multiset.AddSub

/-! What `struct tc_rw_lock` is for: a lock that is shared by readers or held by one writer, in
which a writer that has made its claim keeps new readers out. The functions of the lock, in the
system with its scheduler, mutexes, wait queues and signals, refine it. -/

set_option autoImplicit false

namespace Libtcr

open State Transition Refinement

/-! ## The lock as it is meant -/

/-- The states of a reader/writer lock. There is no state with a writer and readers. -/
inductive RwSpec (Thread : Type) where
  | shared (claim : Option Thread) (readers : Multiset Thread)
  | exclusive (writer : Thread)

inductive RwEvent (Thread : Type) where
  | rLock (t : Thread)
  | rUnlock (t : Thread)
  | claim (t : Thread)
  | abandon (t : Thread)
  | wLock (t : Thread)
  | wUnlock (t : Thread)
  | downgrade (t : Thread)
  deriving DecidableEq, Repr

namespace RwSpec

variable {Thread : Type} [DecidableEq Thread]

def step : RwSpec Thread → RwEvent Thread → Option (RwSpec Thread)
  | .shared none readers, .rLock t => some (.shared none (t ::ₘ readers))
  | .shared claim readers, .rUnlock t =>
    if t ∈ readers then some (.shared claim (readers.erase t)) else none
  | .shared none readers, .claim t => some (.shared (some t) readers)
  | .shared (some u) readers, .abandon t => if t = u then some (.shared none readers) else none
  | .shared (some u) readers, .wLock t => if t = u ∧ readers = 0 then some (.exclusive t) else none
  | .exclusive u, .wUnlock t => if t = u then some (.shared none 0) else none
  | .exclusive u, .downgrade t => if t = u then some (.shared (some t) {t}) else none
  | _, _ => none

variable {t : Thread} {a b : RwSpec Thread} {e : RwEvent Thread} {events : List (RwEvent Thread)}

private theorem exclusive_step (stepped : step (.exclusive t) e = some b) :
    e = .wUnlock t ∨ e = .downgrade t := by
  cases e with
  | wUnlock u =>
      simp only [step, Option.ite_none_right_eq_some] at stepped
      exact .inl (by rw [stepped.1])
  | downgrade u =>
      simp only [step, Option.ite_none_right_eq_some] at stepped
      exact .inr (by rw [stepped.1])
  | _ => cases stepped

private theorem wLock_step (stepped : step a (.wLock t) = some b) : b = .exclusive t := by
  cases a with
  | exclusive u => cases stepped
  | shared claim readers =>
      cases claim with
      | none => cases stepped
      | some u =>
          simp only [step, Option.ite_none_right_eq_some, Option.some.injEq] at stepped
          exact stepped.2.symm

private theorem claim_step (stepped : step a (.claim t) = some b) :
    ∃ readers, b = .shared (some t) readers := by
  cases a with
  | exclusive u => cases stepped
  | shared claim readers =>
      cases claim with
      | none =>
          cases stepped
          exact ⟨readers, rfl⟩
      | some u => cases stepped

private theorem exclusive_exec (executed : exec step (.exclusive t) events = some b)
    (keeps : ∀ e ∈ events, e ≠ .wUnlock t ∧ e ≠ .downgrade t) : events = [] := by
  cases events with
  | nil => rfl
  | cons e rest =>
      obtain ⟨next, stepped, _⟩ := Option.bind_eq_some_iff.mp executed
      obtain ⟨unlock, downgrade⟩ := keeps e (.head _)
      rcases exclusive_step stepped with same | same
      · exact absurd same unlock
      · exact absurd same downgrade

private theorem claimed_step {readers : Multiset Thread}
    (stepped : step (.shared (some t) readers) e = some b) :
    (∃ u, e = .rUnlock u ∧ b = .shared (some t) (readers.erase u)) ∨ e = .abandon t ∨
      e = .wLock t := by
  cases e with
  | rUnlock u =>
      simp only [step, Option.ite_none_right_eq_some, Option.some.injEq] at stepped
      exact .inl ⟨u, rfl, stepped.2.symm⟩
  | abandon u =>
      simp only [step, Option.ite_none_right_eq_some] at stepped
      exact .inr (.inl (by rw [stepped.1]))
  | wLock u =>
      simp only [step, Option.ite_none_right_eq_some] at stepped
      exact .inr (.inr (by rw [stepped.1.1]))
  | _ => cases stepped

private theorem claimed_exec {readers : Multiset Thread}
    (executed : exec step (.shared (some t) readers) events = some b)
    (keeps : ∀ e ∈ events, e ≠ .abandon t ∧ e ≠ .wLock t) : ∀ e ∈ events, ∃ u, e = .rUnlock u := by
  induction events generalizing readers with
  | nil => simp
  | cons e rest ih =>
      obtain ⟨next, stepped, later⟩ := Option.bind_eq_some_iff.mp executed
      obtain ⟨abandon, wLock⟩ := keeps e (.head _)
      rcases claimed_step stepped with ⟨u, rfl, rfl⟩ | same | same
      · intro e member
        rcases List.mem_cons.mp member with rfl | below
        · exact ⟨u, rfl⟩
        · exact ih later (fun e member => keeps e (.tail _ member)) e below
      · exact absurd same abandon
      · exact absurd same wLock

end RwSpec

/-! ## The functions of the lock -/

/-- The thread has the mutex of the lock and has no write lock, and is no reader in
`tc_rw_r_lock`. -/
def RwPc.claims : RwPc → Bool
  | .wLocked | .wWaiting _ | .wInterrupted _ | .tLocked | .tRefused | .wDowngraded => true
  | _ => false

namespace RwState

def nextEvent (s s' : RwState) (t : Tid) : Option (RwEvent Tid) :=
  match s.pc t, s'.pc t with
  | .rLocked, .rCounted => some (.rLock t)
  | .wLocking _, .wLocked => some (.claim t)
  | .wWaiting _, .outside | .tLocked, .outside => some (.wLock t)
  | .wInterrupted _, .outside | .tRefused, .outside | .wDowngraded, .outside => some (.abandon t)
  | _, _ => none

def beginEvent (s' : RwState) (t : Tid) : RwOp → Option (RwEvent Tid)
  | .rUnlock u => some (.rUnlock u)
  | .wTrylock => if s'.pc t = .tLocked then some (.claim t) else none
  | .wUnlock => if s'.writing t = false then some (.wUnlock t) else none
  | .w2rLock => some (.downgrade t)
  | .rLock _ | .wLock _ => none

def event (s : RwState) : RwAction → RwState → Option (RwEvent Tid)
  | .system _, _ => none
  | .begin w op, s' => (s.sys.current w).bind fun t => s'.beginEvent t op
  | .next w _, s' => (s.sys.current w).bind fun t => s.nextEvent s' t

/-- The lock as it is meant, in state `s`. -/
def Abstracts (s : RwState) : RwSpec Tid → Prop
  | .shared claim readers => readers = ↑s.readLocks ∧ (∀ t, s.writing t = false) ∧
      ∀ t, (s.pc t).claims = true ↔ claim = some t
  | .exclusive writer => s.readLocks = [] ∧ (∀ t, s.writing t = true ↔ t = writer) ∧
      ∀ t, (s.pc t).claims = false

end RwState

section Steps

variable {m : MutexId} {k : Nat} {s s' : RwState} {w : WorkerId} {t u : Tid} {a : RwSpec Tid}

private theorem RwInv.held_of_claim (inv : RwInv m k s) (claims : (s.pc t).claims = true) :
    s.sys.held t m = true ∧ s.writing t = false := by
  have thread := inv.thread t
  unfold RwThreadInv at thread
  cases pc : s.pc t with
  | wWaiting e =>
      simp only [pc] at thread
      exact ⟨thread.2.2.1, thread.1⟩
  | wLocked | wInterrupted _ | tLocked | tRefused | wDowngraded =>
      simp only [pc] at thread
      exact ⟨thread.2.1, thread.1⟩
  | _ => simp [pc, RwPc.claims] at claims

theorem RwState.Abstracts.same (abstracts : s.Abstracts a) (readLocks : s'.readLocks = s.readLocks)
    (writing : s'.writing = s.writing) (claims : ∀ t, (s'.pc t).claims = (s.pc t).claims) :
    s'.Abstracts a := by
  cases a with
  | shared claim readers =>
      obtain ⟨same, none, claimed⟩ := abstracts
      exact ⟨readLocks ▸ same, writing ▸ none, fun t => by rw [claims]; exact claimed t⟩
  | exclusive writer =>
      obtain ⟨empty, one, none⟩ := abstracts
      exact ⟨readLocks ▸ empty, writing ▸ one, fun t => by rw [claims]; exact none t⟩

/-- A thread with the mutex that neither claims nor writes has the lock to itself and the
readers. -/
theorem RwState.Abstracts.unclaimed (abstracts : s.Abstracts a) (inv : RwInv m k s)
    (held : s.sys.held t m = true) (writing : s.writing t = false)
    (claims : (s.pc t).claims = false) : a = .shared none s.readLocks := by
  cases a with
  | shared claim readers =>
      obtain ⟨rfl, _, claimed⟩ := abstracts
      cases claim with
      | none => rfl
      | some u =>
          have other := (claimed u).mpr rfl
          have same := held_unique inv.sys (inv.held_of_claim other).1 held
          rw [same, claims] at other
          cases other
  | exclusive u =>
      have writes := (abstracts.2.1 u).mpr rfl
      have same := held_unique inv.sys ((inv.thread u).held writes) held
      rw [same, writing] at writes
      cases writes

private theorem RwState.Abstracts.claimed (abstracts : s.Abstracts a)
    (claims : (s.pc t).claims = true) : a = .shared (some t) s.readLocks := by
  cases a with
  | shared claim readers =>
      obtain ⟨rfl, _, claimed⟩ := abstracts
      rw [(claimed t).mp claims]
  | exclusive u => simp [abstracts.2.2 t] at claims

theorem RwState.Abstracts.written (abstracts : s.Abstracts a) (writes : s.writing t = true) :
    a = .exclusive t := by
  cases a with
  | shared claim readers => simp [abstracts.2.1 t] at writes
  | exclusive u => rw [(abstracts.2.1 t).mp writes]

theorem RwState.Abstracts.moved {pc : RwPc} (abstracts : s.Abstracts a)
    (after : s'.pc = Function.update s.pc t pc) (claims : pc.claims = (s.pc t).claims)
    (readLocks : s'.readLocks = s.readLocks) (writing : s'.writing = s.writing) :
    s'.Abstracts a := by
  refine abstracts.same readLocks writing fun u => ?_
  rw [after]
  by_cases same : u = t
  · rw [same, Function.update_self, claims]
  · rw [Function.update_of_ne same]

theorem RwState.Abstracts.rLock {pc : RwPc} (abstracts : s.Abstracts (.shared none s.readLocks))
    (after : s'.pc = Function.update s.pc t pc) (claims : pc.claims = (s.pc t).claims)
    (readLocks : s'.readLocks = t :: s.readLocks) (writing : s'.writing = s.writing) :
    s'.Abstracts (.shared none (t ::ₘ s.readLocks)) := by
  obtain ⟨_, none, claimed⟩ := abstracts
  refine ⟨by rw [readLocks]; rfl, writing ▸ none, fun u => ?_⟩
  rw [after, ← claimed u]
  by_cases same : u = t
  · rw [same, Function.update_self, claims]
  · rw [Function.update_of_ne same]

private theorem RwState.Abstracts.claim {pc : RwPc}
    (abstracts : s.Abstracts (.shared none s.readLocks)) (after : s'.pc = Function.update s.pc t pc)
    (claims : pc.claims = true) (readLocks : s'.readLocks = s.readLocks)
    (writing : s'.writing = s.writing) : s'.Abstracts (.shared (some t) s.readLocks) := by
  obtain ⟨_, none, claimed⟩ := abstracts
  refine ⟨by rw [readLocks], writing ▸ none, fun u => ?_⟩
  rw [after]
  by_cases same : u = t
  · simp [same, claims]
  · have other : (s.pc u).claims ≠ true := by simp [claimed u]
    simp [same, other, Ne.symm same]

theorem RwState.Abstracts.abandon {pc : RwPc}
    (abstracts : s.Abstracts (.shared (some t) s.readLocks))
    (after : s'.pc = Function.update s.pc t pc) (claims : pc.claims = false)
    (readLocks : s'.readLocks = s.readLocks) (writing : s'.writing = s.writing) :
    s'.Abstracts (.shared none s.readLocks) := by
  obtain ⟨_, none, claimed⟩ := abstracts
  refine ⟨by rw [readLocks], writing ▸ none, fun u => ?_⟩
  rw [after]
  by_cases same : u = t
  · simp [same, claims]
  · have other : (s.pc u).claims ≠ true := by simpa [claimed u, eq_comm] using same
    simp [same, other]

theorem RwState.Abstracts.wLock {pc : RwPc} (abstracts : s.Abstracts (.shared (some t) s.readLocks))
    (after : s'.pc = Function.update s.pc t pc) (claims : pc.claims = false)
    (readLocks : s'.readLocks = []) (writing : s'.writing = Function.update s.writing t true) :
    s'.Abstracts (.exclusive t) := by
  obtain ⟨_, none, claimed⟩ := abstracts
  refine ⟨readLocks, fun u => ?_, fun u => ?_⟩
  · rw [writing]
    by_cases same : u = t
    · simp [same]
    · simp [same, none u]
  · rw [after]
    by_cases same : u = t
    · simp [same, claims]
    · have other : (s.pc u).claims ≠ true := by simpa [claimed u, eq_comm] using same
      simpa [same] using other

private theorem RwInv.readLocks_of_writing (inv : RwInv m k s) (writes : s.writing t = true) :
    s.readLocks = [] := by
  have none := inv.write t writes
  have count := inv.count
  exact List.eq_nil_of_length_eq_zero (by omega)

theorem RwState.Abstracts.rUnlock {pc : RwPc} {claim : Option Tid}
    (abstracts : s.Abstracts (.shared claim s.readLocks))
    (after : s'.pc = Function.update s.pc t pc) (claims : pc.claims = (s.pc t).claims)
    (readLocks : s'.readLocks = s.readLocks.erase u) (writing : s'.writing = s.writing) :
    s'.Abstracts (.shared claim ((s.readLocks : Multiset Tid).erase u)) := by
  obtain ⟨_, none, claimed⟩ := abstracts
  refine ⟨by rw [readLocks, Multiset.coe_erase], writing ▸ none, fun v => ?_⟩
  rw [after, ← claimed v]
  by_cases same : v = t
  · rw [same, Function.update_self, claims]
  · rw [Function.update_of_ne same]

theorem RwState.Abstracts.released {pc : RwPc} {claim : Option Tid} {readers : Multiset Tid}
    (abstracts : s.Abstracts (.exclusive t)) (after : s'.pc = Function.update s.pc t pc)
    (claims : ∀ u, claim = some u ↔ u = t ∧ pc.claims = true)
    (readLocks : readers = ↑s'.readLocks) (writing : s'.writing = Function.update s.writing t false) :
    s'.Abstracts (.shared claim readers) := by
  obtain ⟨_, one, none⟩ := abstracts
  refine ⟨readLocks, fun u => ?_, fun u => ?_⟩
  · rw [writing]
    by_cases same : u = t
    · simp [same]
    · have other : s.writing u ≠ true := fun writes => same ((one u).mp writes)
      simpa [same] using other
  · rw [after, claims u]
    by_cases same : u = t
    · simp [same]
    · simp [same, none u]

def RwState.Followed (a : RwSpec Tid) (shown : Option (RwEvent Tid)) (s' : RwState) : Prop :=
  ∃ b, Follows RwSpec.step a shown b ∧ s'.Abstracts b

theorem RwState.Followed.silent (abstracts : s'.Abstracts a) : s'.Followed a none :=
  ⟨a, rfl, abstracts⟩

theorem RwState.Followed.fault (abstracts : s.Abstracts a) (t : Tid) (fault : Fault) :
    RwState.Followed a (s.nextEvent { s with sys := { s.sys with fault := some fault } } t)
      { s with sys := { s.sys with fault := some fault } } := by
  have none : s.nextEvent { s with sys := { s.sys with fault := some fault } } t = none := by
    unfold RwState.nextEvent
    cases s.pc t <;> rfl
  rw [none]
  exact .silent (abstracts.same rfl rfl fun u => rfl)

private theorem RwState.Abstracts.follows_abandon {pc : RwPc} (abstracts : s.Abstracts a)
    (before : (s.pc t).claims = true) (after : s'.pc = Function.update s.pc t pc)
    (claims : pc.claims = false) (readLocks : s'.readLocks = s.readLocks)
    (writing : s'.writing = s.writing) : s'.Followed a (some (.abandon t)) := by
  obtain rfl := abstracts.claimed before
  exact ⟨_, by simp [Follows, RwSpec.step], abstracts.abandon after claims readLocks writing⟩

private theorem RwState.Abstracts.follows_wLock {pc : RwPc} (abstracts : s.Abstracts a)
    (inv' : RwInv m k s') (before : (s.pc t).claims = true)
    (after : s'.pc = Function.update s.pc t pc) (claims : pc.claims = false)
    (readLocks : s'.readLocks = s.readLocks)
    (writing : s'.writing = Function.update s.writing t true) :
    s'.Followed a (some (.wLock t)) := by
  obtain rfl := abstracts.claimed before
  have empty : s'.readLocks = [] := inv'.readLocks_of_writing (t := t) (by simp [writing])
  refine ⟨.exclusive t, ?_, abstracts.wLock after claims empty writing⟩
  simp [Follows, RwSpec.step, ← readLocks, empty]

private theorem RwState.Abstracts.follows_rUnlock {pc : RwPc} (abstracts : s.Abstracts a)
    (member : u ∈ s.readLocks) (after : s'.pc = Function.update s.pc t pc)
    (claims : pc.claims = (s.pc t).claims) (readLocks : s'.readLocks = s.readLocks.erase u)
    (writing : s'.writing = s.writing) : s'.Followed a (some (.rUnlock u)) := by
  cases a with
  | shared claim readers =>
      obtain rfl := abstracts.1
      refine ⟨_, ?_, abstracts.rUnlock after claims readLocks writing⟩
      simp only [Follows, RwSpec.step, Multiset.mem_coe, member, if_true]
  | exclusive v => simp [abstracts.1] at member

private theorem RwState.Abstracts.follows_claim {pc : RwPc} (abstracts : s.Abstracts a)
    (inv' : RwInv m k s') (before : (s.pc t).claims = false)
    (after : s'.pc = Function.update s.pc t pc) (claims : pc.claims = true)
    (readLocks : s'.readLocks = s.readLocks) (writing : s'.writing = s.writing) :
    s'.Followed a (some (.claim t)) := by
  have own : (s'.pc t).claims = true := by rw [after, Function.update_self, claims]
  obtain ⟨held, idle⟩ := inv'.held_of_claim own
  have open_ : a = .shared none s.readLocks := by
    cases a with
    | shared claim readers =>
        obtain ⟨rfl, _, claimed⟩ := abstracts
        cases claim with
        | none => rfl
        | some u =>
            have other := (claimed u).mpr rfl
            have apart : u ≠ t := by
              intro same
              rw [same, before] at other
              cases other
            have still : (s'.pc u).claims = true := by rwa [after, Function.update_of_ne apart]
            exact absurd (held_unique inv'.sys (inv'.held_of_claim still).1 held) apart
    | exclusive u =>
        have writes : s'.writing u = true := by rw [writing]; exact (abstracts.2.1 u).mpr rfl
        have same := held_unique inv'.sys ((inv'.thread u).held writes) held
        rw [same, idle] at writes
        cases writes
  subst open_
  exact ⟨_, rfl, abstracts.claim after claims readLocks writing⟩

/-- The next step of a function is a step of the lock as it is meant, or does not concern it. -/
theorem RwInv.next_followed {n : Nat} (inv : RwInv m k s) (inv' : RwInv m k s')
    (running : s.sys.fault = none) (abstracts : s.Abstracts a)
    (stepped : s.nextStep m k w t n = some s') : s'.Followed a (s.nextEvent s' t) := by
  unfold RwState.nextStep at stepped
  cases pc : s.pc t with
  | outside => simp [pc] at stepped
  | rLocking e =>
      simp only [pc] at stepped
      split at stepped
      · cases stepped
      · cases stepped
        simp only [RwState.nextEvent, pc, RwState.setPc, Function.update_self]
        exact .silent (abstracts.moved rfl (by simp [pc, RwPc.claims]) rfl rfl)
      · cases stepped
        simp only [RwState.nextEvent, pc, RwState.returns, RwState.setPc, Function.update_self]
        exact .silent (abstracts.moved rfl (by simp [pc, RwPc.claims]) rfl rfl)
  | rLocked =>
      have thread := inv.thread t
      simp only [RwThreadInv, pc] at thread
      simp only [pc, Option.some.injEq] at stepped
      subst stepped
      obtain rfl := abstracts.unclaimed inv thread.2.1 thread.1 (by simp [pc, RwPc.claims])
      simp only [RwState.nextEvent, pc, RwState.setPc, Function.update_self]
      exact ⟨_, rfl, abstracts.rLock rfl (by simp [pc, RwPc.claims]) rfl rfl⟩
  | rCounted =>
      simp only [pc] at stepped
      obtain ⟨sys, _, _, rfl⟩ | ⟨fault, _, rfl⟩ := State.call_step stepped running
      · simp only [RwState.nextEvent, pc, RwState.returns, RwState.setPc, Function.update_self]
        exact .silent (abstracts.moved rfl (by simp [pc, RwPc.claims]) rfl rfl)
      · exact .fault abstracts t fault
  | wLocking e =>
      simp only [pc] at stepped
      split at stepped
      · cases stepped
      · cases stepped
        simp only [RwState.nextEvent, pc, RwState.setPc, Function.update_self]
        exact abstracts.follows_claim inv' (by simp [pc, RwPc.claims]) rfl rfl rfl rfl
      · cases stepped
        simp only [RwState.nextEvent, pc, RwState.returns, RwState.setPc, Function.update_self]
        exact .silent (abstracts.moved rfl (by simp [pc, RwPc.claims]) rfl rfl)
  | wLocked =>
      simp only [pc] at stepped
      obtain ⟨sys, _, _, rfl⟩ | ⟨fault, _, rfl⟩ := State.call_step stepped running
      · simp only [RwState.nextEvent, pc, RwState.setPc, Function.update_self]
        exact .silent (abstracts.moved rfl (by simp [pc, RwPc.claims]) rfl rfl)
      · exact .fault abstracts t fault
  | wWaiting e =>
      simp only [pc] at stepped
      split at stepped
      · cases stepped
      · cases stepped
        simp only [RwState.nextEvent, pc, RwState.acquire, RwState.returns, RwState.setPc,
          Function.update_self]
        exact abstracts.follows_wLock inv' (by simp [pc, RwPc.claims]) rfl rfl rfl rfl
      · cases stepped
        simp only [RwState.nextEvent, pc, RwState.setPc, Function.update_self]
        exact .silent (abstracts.moved rfl (by simp [pc, RwPc.claims]) rfl rfl)
  | wInterrupted rv =>
      simp only [pc] at stepped
      obtain ⟨sys, _, _, rfl⟩ | ⟨fault, _, rfl⟩ := State.call_step stepped running
      · simp only [RwState.nextEvent, pc, RwState.returns, RwState.setPc, Function.update_self]
        exact abstracts.follows_abandon (by simp [pc, RwPc.claims]) rfl rfl rfl rfl
      · exact .fault abstracts t fault
  | tLocked =>
      simp only [pc] at stepped
      split at stepped
      · cases stepped
        simp only [RwState.nextEvent, pc, RwState.setPc, Function.update_self]
        exact .silent (abstracts.moved rfl (by simp [pc, RwPc.claims]) rfl rfl)
      · cases stepped
        simp only [RwState.nextEvent, pc, RwState.acquire, RwState.returns, RwState.setPc,
          Function.update_self]
        exact abstracts.follows_wLock inv' (by simp [pc, RwPc.claims]) rfl rfl rfl rfl
  | tRefused =>
      simp only [pc] at stepped
      obtain ⟨sys, _, _, rfl⟩ | ⟨fault, _, rfl⟩ := State.call_step stepped running
      · simp only [RwState.nextEvent, pc, RwState.returns, RwState.setPc, Function.update_self]
        exact abstracts.follows_abandon (by simp [pc, RwPc.claims]) rfl rfl rfl rfl
      · exact .fault abstracts t fault
  | rReleased =>
      simp only [pc] at stepped
      obtain ⟨sys, _, _, rfl⟩ | ⟨fault, _, rfl⟩ := State.call_step stepped running
      · simp only [RwState.nextEvent, pc, RwState.setPc, Function.update_self]
        exact .silent (abstracts.moved rfl (by simp [pc, RwPc.claims]) rfl rfl)
      · exact .fault abstracts t fault
  | wDowngraded =>
      simp only [pc] at stepped
      obtain ⟨sys, _, _, rfl⟩ | ⟨fault, _, rfl⟩ := State.call_step stepped running
      · simp only [RwState.nextEvent, pc, RwState.setPc, Function.update_self]
        exact abstracts.follows_abandon (by simp [pc, RwPc.claims]) rfl rfl rfl rfl
      · exact .fault abstracts t fault

private theorem RwInv.begin_followed {op : RwOp} (inv' : RwInv m k s')
    (running : s.sys.fault = none) (outside : s.pc t = .outside) (abstracts : s.Abstracts a)
    (stepped : s.beginStep m w t op = some s') : s'.Followed a (s'.beginEvent t op) := by
  have before : (s.pc t).claims = false := by simp [outside, RwPc.claims]
  cases op with
  | rLock n =>
      simp only [RwState.beginStep] at stepped
      obtain ⟨sys, _, _, rfl⟩ | ⟨fault, _, rfl⟩ := State.call_step stepped running
      · exact .silent (abstracts.moved rfl before.symm rfl rfl)
      · exact .silent (abstracts.same rfl rfl fun u => rfl)
  | wLock n =>
      simp only [RwState.beginStep] at stepped
      obtain ⟨sys, _, _, rfl⟩ | ⟨fault, _, rfl⟩ := State.call_step stepped running
      · exact .silent (abstracts.moved rfl before.symm rfl rfl)
      · exact .silent (abstracts.same rfl rfl fun u => rfl)
  | rUnlock u =>
      simp only [RwState.beginStep] at stepped
      split at stepped
      · next member =>
        cases stepped
        exact abstracts.follows_rUnlock member rfl (by rw [before]; split <;> rfl) rfl rfl
      · cases stepped
  | wTrylock =>
      simp only [RwState.beginStep] at stepped
      obtain ⟨sys, _, _, same⟩ | ⟨fault, _, rfl⟩ := State.call_step stepped running
      · split at same
        · subst same
          simp only [RwState.beginEvent, RwState.enters, RwState.setPc, Function.update_self, if_true]
          exact abstracts.follows_claim inv' before rfl rfl rfl rfl
        · subst same
          simp only [RwState.beginEvent, RwState.returns, RwState.setPc, Function.update_self,
            reduceCtorEq, if_false]
          exact .silent (abstracts.moved rfl before.symm rfl rfl)
      · simp only [RwState.beginEvent, outside, reduceCtorEq, if_false]
        exact .silent (abstracts.same rfl rfl fun u => rfl)
  | wUnlock =>
      simp only [RwState.beginStep] at stepped
      split at stepped
      · next writes =>
        obtain ⟨sys, _, _, rfl⟩ | ⟨fault, _, rfl⟩ := State.call_step stepped running
        · simp only [RwState.beginEvent, Function.update_self, if_true]
          obtain rfl := abstracts.written writes
          refine ⟨.shared none 0, by simp [Follows, RwSpec.step], ?_⟩
          exact abstracts.released rfl (by simp [RwPc.claims]) (by rw [abstracts.1]; rfl) rfl
        · simp only [RwState.beginEvent, writes, Bool.true_eq_false, if_false]
          exact .silent (abstracts.same rfl rfl fun u => rfl)
      · cases stepped
  | w2rLock =>
      simp only [RwState.beginStep] at stepped
      split at stepped
      · next writes =>
        cases stepped
        obtain rfl := abstracts.written writes
        refine ⟨.shared (some t) {t}, by simp [RwState.beginEvent, Follows, RwSpec.step], ?_⟩
        refine abstracts.released rfl ?_ (by rw [abstracts.1]; rfl) rfl
        intro u
        simp [RwPc.claims, eq_comm]
      · cases stepped

theorem RwInv.followed {l : RwAction} (inv : RwInv m k s) (abstracts : s.Abstracts a)
    (stepped : s.step m k l = some s') : s'.Followed a (s.event l s') := by
  have inv' := inv.step stepped
  cases l with
  | system _ =>
      simp only [RwState.step] at stepped
      split at stepped
      · obtain ⟨sys, _, rfl⟩ := Option.map_eq_some_iff.mp stepped
        exact .silent (abstracts.same rfl rfl fun u => rfl)
      · cases stepped
  | begin w op =>
      obtain ⟨t, current, begun⟩ := Option.bind_eq_some_iff.mp stepped
      split at begun
      · next ready =>
        obtain ⟨_, running⟩ := RwState.runs_iff ready.1
        simp only [RwState.event, current, Option.bind_some]
        exact inv'.begin_followed running ready.2 abstracts begun
      · cases begun
  | next w n =>
      obtain ⟨t, current, moved⟩ := Option.bind_eq_some_iff.mp stepped
      split at moved
      · next ready =>
        obtain ⟨_, running⟩ := RwState.runs_iff ready
        simp only [RwState.event, current, Option.bind_some]
        exact inv.next_followed inv' running abstracts moved
      · cases moved

end Steps

/-! ## Traces -/

/-- In every run of the system the trace of the lock is one of the lock as it is meant, which ends
in the same state; so nothing happens to the lock between the events with which a thread gets the
write lock and gives it back, and no reader is let in while a writer has its claim. -/
theorem rw_lock_refines {m : MutexId} {k workers : Nat} {domainOf : WorkerId → DomainId}
    {trace : List (RwEvent Tid)} {s : RwState}
    (observed : Observed (RwState.step m k) RwState.event (.initial workers domainOf) trace s) :
    (∃ a, exec RwSpec.step (.shared none 0) trace = some a ∧ s.Abstracts a) ∧
    (∀ t before between after, trace = before ++ .wLock t :: (between ++ after) →
      (∀ e ∈ between, e ≠ .wUnlock t ∧ e ≠ .downgrade t) → between = []) ∧
    ∀ t before between after, trace = before ++ .claim t :: (between ++ after) →
      (∀ e ∈ between, e ≠ .abandon t ∧ e ≠ .wLock t) → ∀ e ∈ between, ∃ u, e = .rUnlock u := by
  have initially : (RwState.initial workers domainOf).Abstracts (.shared none 0) := by
    simp [RwState.Abstracts, RwState.initial, RwPc.claims]
  obtain ⟨a, executed, abstracts⟩ :
      ∃ a, exec RwSpec.step (.shared none 0) trace = some a ∧ s.Abstracts a :=
    observed.simulates initially fun reached abstracts stepped =>
      (RwInv.run reached).followed abstracts stepped
  refine ⟨⟨a, executed, abstracts⟩, ?_, ?_⟩
  · intro t before between after split keeps
    rw [split, exec_append] at executed
    obtain ⟨b, _, rest⟩ := Option.bind_eq_some_iff.mp executed
    obtain ⟨c, locked, later⟩ := Option.bind_eq_some_iff.mp rest
    rw [exec_append] at later
    obtain ⟨d, during, _⟩ := Option.bind_eq_some_iff.mp later
    obtain rfl := RwSpec.wLock_step locked
    exact RwSpec.exclusive_exec during keeps
  · intro t before between after split keeps
    rw [split, exec_append] at executed
    obtain ⟨b, _, rest⟩ := Option.bind_eq_some_iff.mp executed
    obtain ⟨c, claimed, later⟩ := Option.bind_eq_some_iff.mp rest
    rw [exec_append] at later
    obtain ⟨d, during, _⟩ := Option.bind_eq_some_iff.mp later
    obtain ⟨readers, rfl⟩ := RwSpec.claim_step claimed
    exact RwSpec.claimed_exec during keeps

/-- Thread 1 claims the lock while thread 0 reads, and gets it when thread 0 is done; a third
thread asks for a read lock in between. -/
def claimedWhileRead : List RwAction :=
  [.begin 0 (.rLock 0), .system (.advance 0), .next 0 0, .next 0 0, .next 0 0,
    .begin 1 (.wLock 0), .system (.advance 1), .next 1 0, .next 1 1,
    .system (.condition 1 false), .system (.advance 1), .system (.condition 1 false),
    .system (.advance 1), .begin 2 (.rLock 0), .system (.advance 2), .begin 0 (.rUnlock 0),
    .next 0 0, .system (.leave 1), .system (.runImmediate 1 .any), .system (.enter 1),
    .system (.advance 1), .system (.advance 1), .system (.condition 1 true), .system (.advance 1),
    .next 1 0]

set_option maxRecDepth 20000 in
theorem rw_lock_refines_claimed : ∃ s,
    Observed (RwState.step 0 0) RwState.event (.initial 3 fun _ => 0)
      [.rLock 0, .claim 1, .rUnlock 0, .wLock 1] s ∧ s.Abstracts (.exclusive 1) := by
  obtain ⟨trace, s, observed, shown⟩ := exists_observed (RwState.step 0 0) RwState.event
    (.initial 3 fun _ => 0) claimedWhileRead
    (fun trace _ => trace = [.rLock 0, .claim 1, .rUnlock 0, .wLock 1]) (by decide)
  obtain rfl : trace = [.rLock 0, .claim 1, .rUnlock 0, .wLock 1] := by simpa using shown
  obtain ⟨⟨a, executed, abstracts⟩, _⟩ := rw_lock_refines observed
  have ends : exec RwSpec.step (.shared none 0) [.rLock 0, .claim 1, .rUnlock 0, .wLock 1] =
      some (.exclusive 1) := by
    simp [exec, RwSpec.step]
  obtain rfl : a = .exclusive 1 := Option.some.inj (executed.symm.trans ends)
  exact ⟨s, observed, abstracts⟩

end Libtcr
