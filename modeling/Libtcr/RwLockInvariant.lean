import Libtcr.RwLock
import Libtcr.OwnerProperties

/-! The invariant of a reader/writer lock: who holds its mutex, and what a thread that has
found no readers can rely on. -/

set_option autoImplicit false

namespace Libtcr

open State

/-- The frames of a thread that is in no sleeping call of the lock. -/
def Clean (m : MutexId) (k : Nat) (frames : List Frame) : Prop :=
  ∀ f ∈ frames, f.call ≠ .mutex m ∧ f.call ≠ .cond k ∧ f.call ≠ .waitq k

def Pc.parked : Pc → Bool
  | .pushed | .asleep | .woke => true
  | _ => false

/-- Thread `t` is in the call of `tc_mutex_lock` with event `e`, or has returned from it. -/
def InLock (m : MutexId) (k : Nat) (s : State) (t : Tid) (e : EventId) : Prop :=
  (∃ f rest, s.frames t = f :: rest ∧ f.e = e ∧ f.call = .mutex m ∧ s.held t m = false ∧
      Clean m k rest) ∨
    ∃ rv, s.result e = some rv ∧ (s.held t m = true ↔ rv = .ok) ∧ Clean m k (s.frames t)

/-- A reader will wake the writer. -/
def RwState.Served (s : RwState) : Prop := 0 < s.readers ∨ ∃ u, s.pc u = .rReleased

/-- Thread `t` waits on `wr_wq` with event `e`, or has returned from the wait. -/
def InWait (m : MutexId) (k : Nat) (s : RwState) (t : Tid) (e : EventId) : Prop :=
  (∃ f rest, s.sys.frames t = f :: rest ∧ f.e = e ∧ f.call = .cond k ∧ Clean m k rest ∧
      (f.pc = .holds → s.readers = 0) ∧
      (f.pc.parked = true → s.sys.el e = some (.waiters (.user k)) → s.Served)) ∨
    ∃ rv, s.sys.result e = some rv ∧ (rv = .ok → s.readers = 0) ∧ Clean m k (s.sys.frames t)

/-- What holds of a thread, by where it is in the functions of the lock. -/
def RwThreadInv (m : MutexId) (k : Nat) (s : RwState) (t : Tid) : Prop :=
  match s.pc t with
  | .outside | .rReleased => s.sys.held t m = s.writing t ∧ Clean m k (s.sys.frames t)
  | .rLocking e | .wLocking e => s.writing t = false ∧ (∃ n, e = .auto t n) ∧ InLock m k s.sys t e
  | .wWaiting e => s.writing t = false ∧ (∃ n, e = .auto t n) ∧ s.sys.held t m = true ∧
      InWait m k s t e
  | .rLocked | .rCounted | .wLocked | .wInterrupted _ | .tLocked | .tRefused | .wDowngraded =>
      s.writing t = false ∧ s.sys.held t m = true ∧ Clean m k (s.sys.frames t)

structure RwInv (m : MutexId) (k : Nat) (s : RwState) : Prop where
  sys : SystemInv s.sys
  owner : OwnerInv s.sys m
  thread : ∀ t, RwThreadInv m k s t
  count : s.readers = s.readLocks.length
  write : ∀ t, s.writing t = true → s.readers = 0
  returned : ∀ t call rv, s.returned t = some (call, rv) → s.pc t = .outside ∧
    (rv ≠ .ok → call ≠ .wTrylock true → s.writing t = false)

/-! ## Consequences -/

section Facts

variable {m : MutexId} {k : Nat} {s : RwState} {t u : Tid}

theorem Clean.tail {f : Frame} {rest : List Frame} (clean : Clean m k (f :: rest)) :
    Clean m k rest :=
  fun g member => clean g (.tail _ member)

theorem Clean.setTop {f g : Frame} {rest : List Frame} (clean : Clean m k (f :: rest))
    (call : g.call = f.call) : Clean m k (g :: rest) := by
  intro h member
  rcases List.mem_cons.mp member with rfl | below
  · rw [call]
    exact clean f (.head _)
  · exact clean.tail h below

theorem RwInv.nonneg (inv : RwInv m k s) : 0 ≤ s.readers := by
  rw [inv.count]
  exact Int.natCast_nonneg _

theorem RwThreadInv.held (inv : RwThreadInv m k s t) (writing : s.writing t = true) :
    s.sys.held t m = true := by
  unfold RwThreadInv at inv
  split at inv
  · exact inv.1.trans writing
  · exact inv.1.trans writing
  all_goals simp [writing] at inv

theorem RwInv.waiting (inv : RwInv m k s) {e : EventId}
    (on : s.sys.el e = some (.waiters (.user k))) :
    s.pc e.owner = .wWaiting e ∧ s.sys.held e.owner m = true := by
  obtain ⟨f, member, event, home⟩ := inv.sys.frame_of_resting on rfl
  have dirty : ¬ Clean m k (s.sys.frames e.owner) := by
    intro clean
    obtain ⟨_, cond, waitq⟩ := clean f member
    cases call : f.call with
    | cond n => simp_all [Call.home]
    | waitq n => simp_all [Call.home]
    | _ => simp [call, Call.home] at home
  have notLock : f.call ≠ .mutex m := by
    intro call
    simp [call, Call.home] at home
  have located : ∀ {g : Frame} {rest : List Frame}, s.sys.frames e.owner = g :: rest →
      Clean m k rest → f = g := by
    intro g rest frames clean
    rw [frames] at member
    rcases List.mem_cons.mp member with same | below
    · exact same
    · obtain ⟨_, cond, waitq⟩ := clean f below
      cases call : f.call with
      | cond n => simp_all [Call.home]
      | waitq n => simp_all [Call.home]
      | _ => simp [call, Call.home] at home
  have thread := inv.thread e.owner
  unfold RwThreadInv at thread
  cases pc : s.pc e.owner with
  | wWaiting x =>
      simp only [pc] at thread
      obtain ⟨_, _, held, ⟨g, rest, frames, same, _, clean, _⟩ | ⟨rv, _, _, clean⟩⟩ := thread
      · refine ⟨?_, held⟩
        rw [← same, ← located frames clean, event]
      · exact absurd clean dirty
  | rLocking x =>
      simp only [pc] at thread
      obtain ⟨_, _, ⟨g, rest, frames, _, call, _, clean⟩ | ⟨rv, _, _, clean⟩⟩ := thread
      · exact absurd (located frames clean ▸ call) notLock
      · exact absurd clean dirty
  | wLocking x =>
      simp only [pc] at thread
      obtain ⟨_, _, ⟨g, rest, frames, _, call, _, clean⟩ | ⟨rv, _, _, clean⟩⟩ := thread
      · exact absurd (located frames clean ▸ call) notLock
      · exact absurd clean dirty
  | outside =>
      simp only [pc] at thread
      exact absurd thread.2 dirty
  | rReleased =>
      simp only [pc] at thread
      exact absurd thread.2 dirty
  | _ =>
      simp only [pc] at thread
      exact absurd thread.2.2 dirty

theorem RwInv.waiting_unique (inv : RwInv m k s) {e e' : EventId}
    (first : s.sys.el e = some (.waiters (.user k)))
    (second : s.sys.el e' = some (.waiters (.user k))) : e = e' := by
  obtain ⟨pc, held⟩ := inv.waiting first
  obtain ⟨pc', held'⟩ := inv.waiting second
  have same := held_unique inv.sys held held'
  rw [same, pc'] at pc
  exact (RwPc.wWaiting.inj pc).symm

end Facts

end Libtcr
