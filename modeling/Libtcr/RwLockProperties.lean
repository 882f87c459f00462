import Libtcr.RwLockSteps

/-! Reader/writer exclusion, and that a waiting writer is woken by the last reader. -/

set_option autoImplicit false

namespace Libtcr

open State

/-- A thread that neither holds the write lock nor waits for the mutex does not own it. -/
theorem RwInv.holds_nothing {m : MutexId} {k : Nat} {s : RwState} {t : Tid} (inv : RwInv m k s)
    (outside : s.pc t = .outside) (writing : s.writing t = false) :
    s.sys.held t m = false ∧ s.sys.owner m ≠ some t := by
  have thread := inv.thread t
  simp only [RwThreadInv, outside] at thread
  have free : s.sys.held t m = false := thread.1.trans writing
  refine ⟨free, fun owner => ?_⟩
  rcases inv.owner t owner with held | ⟨f, rest, frames, call⟩
  · simp [free] at held
  · exact (thread.2 f (by simp [frames])).1 call

/-- A writer excludes readers and other writers; `readers` counts the read locks that are
held; and the calls that fail leave nothing behind. -/
theorem rw_lock_exclusive {m : MutexId} {k workers : Nat} {domainOf : WorkerId → DomainId}
    {s : RwState} (reached : RwReachable m k workers domainOf s) :
    (∀ t, s.writing t = true → s.readers = 0 ∧ ∀ u, s.writing u = true → u = t) ∧
    s.readers = s.readLocks.length ∧ 0 ≤ s.readers ∧
    ∀ t, s.returned t = some (.wLock, .intr) ∨ s.returned t = some (.wTrylock false, .failed) →
      s.writing t = false ∧ s.sys.held t m = false ∧ s.sys.owner m ≠ some t := by
  have inv := RwInv.run reached
  refine ⟨fun t writes => ⟨inv.write t writes, fun u other => ?_⟩, inv.count, inv.nonneg,
    fun t failed => ?_⟩
  · exact held_unique inv.sys ((inv.thread u).held other) ((inv.thread t).held writes)
  · obtain ⟨outside, writing⟩ : s.pc t = .outside ∧ s.writing t = false := by
      rcases failed with returned | returned
      · obtain ⟨outside, free⟩ := inv.returned t _ _ returned
        exact ⟨outside, free (by simp) (by simp)⟩
      · obtain ⟨outside, free⟩ := inv.returned t _ _ returned
        exact ⟨outside, free (by simp) (by simp)⟩
    exact ⟨writing, inv.holds_nothing outside writing⟩

/-- A reader downgraded from a writer, and a writer that a signal has interrupted. -/
def interruptedWriter : List RwAction :=
  [.begin 0 .wTrylock, .next 0 0, .begin 0 .w2rLock, .next 0 0, .system (.user 1 (.subscribe 0 0)),
    .begin 1 (.wLock 0), .system (.advance 1), .next 1 0, .next 1 1,
    .system (.condition 1 false), .system (.advance 1), .system (.condition 1 false),
    .system (.advance 1), .system (.leave 1), .system (.user 0 (.fire 0)),
    .system (.runImmediate 1 .any), .system (.enter 1), .system (.advance 1), .next 1 0, .next 1 0]

set_option maxRecDepth 20000 in
theorem rw_lock_exclusive_interrupted : ∃ s, RwReachable 0 0 2 (fun _ => 0) s ∧
    s.returned 1 = some (.wLock, .intr) ∧ s.readLocks = [0] ∧ s.readers = 1 ∧
    s.writing 1 = false ∧ s.sys.held 1 0 = false ∧ s.sys.owner 0 ≠ some 1 := by
  obtain ⟨s, reached, shown⟩ := Transition.exists_run (RwState.step 0 0)
    (.initial 2 (fun _ => 0)) interruptedWriter
    (fun s => decide (s.returned 1 = some (.wLock, .intr)) && decide (s.readLocks = [0]))
    (by decide)
  simp only [Bool.and_eq_true, decide_eq_true_eq] at shown
  obtain ⟨_, count, _, failed⟩ := rw_lock_exclusive
    (show RwReachable 0 0 2 (fun _ => 0) s from reached)
  exact ⟨s, reached, shown.1, shown.2, by simpa [shown.2] using count, failed 1 (.inl shown.1)⟩

/-- `tc_rw_w_trylock` also fails for the thread that already has the write lock, which then
keeps it. -/
theorem rw_trylock_of_writer :
    ¬ ∀ s, RwReachable 0 0 1 (fun _ => 0) s → ∀ t holding,
      s.returned t = some (.wTrylock holding, .failed) →
        s.writing t = false ∧ s.sys.held t 0 = false := by
  obtain ⟨s, reached, shown⟩ := Transition.exists_run (RwState.step 0 0)
    (.initial 1 (fun _ => 0)) [.begin 0 .wTrylock, .next 0 0, .begin 0 .wTrylock]
    (fun s => decide (s.returned 0 = some (.wTrylock true, .failed)) && s.writing 0) (by decide)
  simp only [Bool.and_eq_true, decide_eq_true_eq] at shown
  intro all
  have free := (all s reached 0 true shown.1).1
  simp [shown.2] at free

/-- There is at most one event on `wr_wq`, that of the thread that owns the mutex; and while
its thread sleeps there is a reader, or one that is about to wake it. -/
theorem waiting_writer_woken {m : MutexId} {k workers : Nat} {domainOf : WorkerId → DomainId}
    {s : RwState} (reached : RwReachable m k workers domainOf s) :
    (s.sys.events (.waiters (.user k))).length ≤ 1 ∧
    (∀ e ∈ s.sys.events (.waiters (.user k)),
      s.sys.tc e = e.owner ∧ s.pc e.owner = .wWaiting e ∧ s.sys.owner m = some e.owner) ∧
    ∀ t e f rest, s.pc t = .wWaiting e → s.sys.frames t = f :: rest → f.e = e → f.pc = .asleep →
      s.sys.el e = some (.waiters (.user k)) → 0 < s.readers ∨ ∃ u, s.pc u = .rReleased := by
  have inv := RwInv.run reached
  have on : ∀ {e}, e ∈ s.sys.events (.waiters (.user k)) ↔ s.sys.el e = some (.waiters (.user k)) :=
    inv.sys.lists.mem_events
  refine ⟨?_, fun e member => ?_, fun t e f rest pc frames event asleep listed => ?_⟩
  · rcases queue : s.sys.events (.waiters (.user k)) with _ | ⟨e, _ | ⟨x, es⟩⟩
    · simp
    · simp
    · have nodup := inv.sys.lists.lists.nodup (.waiters (.user k))
      have same := inv.waiting_unique (on.mp (queue ▸ List.mem_cons_self))
        (on.mp (queue ▸ List.mem_cons_of_mem _ List.mem_cons_self))
      change (s.sys.events (.waiters (.user k))).Nodup at nodup
      rw [queue, same] at nodup
      simp at nodup
  · have listed := on.mp member
    obtain ⟨pc, held⟩ := inv.waiting listed
    refine ⟨inv.sys.lists.owner e (by simp [listed]), pc, ?_⟩
    have mine := (inv.sys.mutex e.owner).holder m (by simpa [State.view] using held)
    simpa [State.view] using mine
  · have thread := inv.thread t
    simp only [RwThreadInv, pc] at thread
    obtain ⟨_, _, _, ⟨g, rest', frames', _, _, _, _, parked⟩ | ⟨rv, result, _⟩⟩ := thread
    · obtain ⟨rfl, _⟩ := List.cons.inj (frames.symm.trans frames')
      exact parked (by simp [asleep, Pc.parked]) listed
    · have none := inv.sys.result_none (t := t) (f := f) (by simp [frames])
      simp [event, result] at none

/-- A writer sleeps while another thread is inside `tc_rw_r_unlock`. -/
def lastReader : List RwAction :=
  [.begin 0 (.rLock 0), .system (.advance 0), .next 0 0, .next 0 0, .next 0 0,
    .begin 1 (.wLock 0), .system (.advance 1), .next 1 0, .next 1 1,
    .system (.condition 1 false), .system (.advance 1), .system (.condition 1 false),
    .system (.advance 1), .begin 0 (.rUnlock 0)]

set_option maxRecDepth 20000 in
theorem waiting_writer_woken_last_reader : ∃ s, RwReachable 0 0 2 (fun _ => 0) s ∧
    s.sys.events (.waiters (.user 0)) = [.auto 1 1] ∧ s.readers = 0 ∧ s.pc 0 = .rReleased ∧
    s.sys.owner 0 = some 1 ∧ (0 < s.readers ∨ ∃ u, s.pc u = .rReleased) := by
  obtain ⟨s, reached, shown⟩ := Transition.exists_run (RwState.step 0 0)
    (.initial 2 (fun _ => 0)) lastReader
    (fun s => decide (s.sys.events (.waiters (.user 0)) = [.auto 1 1]) && decide (s.readers = 0) &&
      decide (s.pc 0 = .rReleased) && decide (s.pc 1 = .wWaiting (.auto 1 1)) &&
      decide (s.sys.frames 1 = [⟨.cond 0, .auto 1 1, .asleep, none⟩])) (by decide)
  simp only [Bool.and_eq_true, decide_eq_true_eq] at shown
  obtain ⟨⟨⟨⟨queue, none⟩, released⟩, pc⟩, frames⟩ := shown
  obtain ⟨_, owner, woken⟩ := waiting_writer_woken
    (show RwReachable 0 0 2 (fun _ => 0) s from reached)
  have member : EventId.auto 1 1 ∈ s.sys.events (.waiters (.user 0)) := by simp [queue]
  have listed := (RwInv.run reached).sys.lists.mem_events.mp member
  exact ⟨s, reached, queue, none, released, (owner _ member).2.2,
    woken 1 _ _ _ pc frames rfl rfl listed⟩

end Libtcr
