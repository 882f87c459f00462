import Libtcr.SyncWakeup
import Libtcr.DeferredFreeProperties

/-! A worker that has to synchronise does not sleep through it, unless its signal arrives just
before `epoll_wait`. -/

set_option autoImplicit false

namespace Libtcr

/-- The last signal for a worker that has to synchronise does not arrive while the worker, with no
work to do, is about to call `epoll_wait`. -/
def WakeupState.arrivesInTime (s : WakeupState) : WakeupAction → Bool
  | .arrive w =>
    !(s.sync.mustSync w && s.epoll w = .entering && !s.haveWork w && s.signals w = 1)
  | _ => true

def EpollPc.inLoop : EpollPc → Bool
  | .outside => false
  | _ => true

structure WakeupInv (s : WakeupState) : Prop where
  sync : DeferredInv s.sync
  loop : ∀ w, (s.epoll w).inLoop = true → s.sync.pc w = .sleeping
  signals : ∀ w, s.sync.mustSync w = true → s.epoll w = .entering ∨ s.epoll w = .waiting →
    s.haveWork w = false → 0 < s.signals w

theorem WakeupInv.awake {s : WakeupState} (inv : WakeupInv s) (w : WorkerId) : ¬ s.SleepsThrough w := by
  intro ⟨must, waiting, work, consumed⟩
  have sent := inv.signals w must (.inr waiting) work
  omega

section Steps

variable {s s' : WakeupState} {w : WorkerId}

private theorem SyncState.step_pc {s s' : SyncState} {a : SyncAction} (inv : SyncInv s)
    (stepped : s.step a = some s') (w : WorkerId) (other : w ≠ a.worker) : s'.pc w = s.pc w := by
  have processed : ∀ {v : WorkerId} {t : SyncState}, w ≠ v → (t.processFreeList v).pc w = t.pc w := by
    intro v t apart
    exact Function.update_of_ne apart _ _
  unfold SyncState.step at stepped
  split at stepped
  case isFalse => cases stepped
  case isTrue exists_ =>
    cases a with
    | registerFd v x =>
        simp only [SyncState.act] at stepped
        split at stepped
        · cases stepped
          rfl
        · cases stepped
    | unregisterFd v x =>
        simp only [SyncState.act] at stepped
        split at stepped
        · cases stepped
          exact Function.update_of_ne other _ _
        · cases stepped
    | storeForLaterFree v =>
        replace other : w ≠ v := other
        replace exists_ : v < s.workers := exists_
        simp only [SyncState.act] at stepped
        split at stepped
        · next x unregistering =>
          cases stepped
          have queued : SyncInv { s with
              freeList := x :: s.freeList
              stage := Function.update s.stage x .stored
              pc := Function.update s.pc v .running } :=
            inv.proceed exists_ (by simp [unregistering, SyncPc.asleep]) _ _ _
          obtain ⟨_, _, _, _, pc, _⟩ := queued.markSleepers
          have moved : Function.update s.pc v .running w = s.pc w := Function.update_of_ne other _ _
          unfold SyncState.storeForLaterFree
          dsimp only
          split
          · rw [pc]
            exact moved
          · rw [processed other, pc]
            exact moved
        · cases stepped
    | prepareSleep v =>
        simp only [SyncState.act] at stepped
        split at stepped
        · cases stepped
          exact Function.update_of_ne other _ _
        · cases stepped
    | epollWait v x =>
        cases x with
        | none =>
            simp only [SyncState.act] at stepped
            split at stepped
            · cases stepped
              exact Function.update_of_ne other _ _
            · cases stepped
        | some x =>
            simp only [SyncState.act] at stepped
            split at stepped
            · cases stepped
              exact Function.update_of_ne other _ _
            · cases stepped
    | afterSleep v =>
        replace other : w ≠ v := other
        have woken : (s.workerAfterSleep v).pc w = s.pc w := by
          have moved : Function.update s.pc v .running w = s.pc w := Function.update_of_ne other _ _
          unfold SyncState.workerAfterSleep
          dsimp only
          split_ifs
          · rw [processed other]
            exact moved
          · exact moved
          · exact moved
        simp only [SyncState.act] at stepped
        split at stepped
        · cases stepped
          exact woken
        · cases stepped
          exact woken
        · cases stepped
    | free v =>
        simp only [SyncState.act] at stepped
        split at stepped
        · cases stepped
          exact Function.update_of_ne other _ _
        · cases stepped
          exact Function.update_of_ne other _ _
        · cases stepped

theorem WakeupInv.syncStep {a : SyncAction} (inv : WakeupInv s) (stepped : s.syncStep a = some s') :
    DeferredInv s'.sync ∧ s'.epoll = s.epoll ∧ s'.haveWork = s.haveWork ∧
      (∀ w, w ≠ a.worker → s'.sync.pc w = s.sync.pc w) ∧
      ∀ w, s'.sync.mustSync w = true → s.epoll w = .entering ∨ s.epoll w = .waiting →
        s.haveWork w = false → 0 < s'.signals w := by
  obtain ⟨sync, done, rfl⟩ := Option.map_eq_some_iff.mp stepped
  refine ⟨inv.sync.step done, rfl, rfl, SyncState.step_pc inv.sync.sync done, fun w must loop work => ?_⟩
  dsimp only at must ⊢
  split
  · exact Nat.succ_pos _
  · next old =>
    have before : s.sync.mustSync w = true := by simpa [must] using old
    exact inv.signals w before loop work

theorem WakeupInv.leaves {a : SyncAction} (inv : WakeupInv s) (stepped : s.syncStep a = some s') :
    WakeupInv (s'.setEpoll a.worker .outside) := by
  obtain ⟨sync, epoll, work, pc, signals⟩ := inv.syncStep stepped
  have elsewhere : ∀ {w pc}, (s'.setEpoll a.worker .outside).epoll w = pc → pc ≠ .outside →
      w ≠ a.worker ∧ s.epoll w = pc := by
    intro w pc there inside
    by_cases same : w = a.worker
    · simp [WakeupState.setEpoll, same] at there
      exact absurd there.symm inside
    · exact ⟨same, by simpa [WakeupState.setEpoll, same, epoll] using there⟩
  refine ⟨sync, fun w loop => ?_, fun w must loop idle => ?_⟩
  · have inside : (s'.setEpoll a.worker .outside).epoll w ≠ .outside := by
      intro outside
      rw [outside] at loop
      cases loop
    obtain ⟨other, there⟩ := elsewhere (w := w) rfl inside
    rw [← there] at loop
    exact (pc w other).trans (inv.loop w loop)
  · refine signals w must ?_ (work ▸ idle)
    rcases loop with entering | waiting
    · exact .inl (elsewhere entering (by simp)).2
    · exact .inr (elsewhere waiting (by simp)).2

theorem WakeupInv.setEpoll {pc : EpollPc} (inv : WakeupInv s) (inside : (s.epoll w).inLoop = true)
    (sent : s.sync.mustSync w = true → pc = .entering ∨ pc = .waiting → s.haveWork w = false →
      0 < s.signals w) : WakeupInv (s.setEpoll w pc) := by
  refine ⟨inv.sync, fun v loop => ?_, fun v must loop idle => ?_⟩
  · by_cases same : v = w
    · exact same ▸ inv.loop w inside
    · exact inv.loop v (by simpa [WakeupState.setEpoll, same] using loop)
  · by_cases same : v = w
    · subst same
      exact sent must (by simpa [WakeupState.setEpoll] using loop) idle
    · exact inv.signals v must (by simpa [WakeupState.setEpoll, same] using loop) idle

private theorem WakeupState.awake_of_outsideLoop {a : SyncAction} (outside : outsideLoop a = true)
    (stepped : s.syncStep a = some s') : s.sync.pc a.worker ≠ .sleeping := by
  obtain ⟨sync, done, _⟩ := Option.map_eq_some_iff.mp stepped
  unfold SyncState.step at done
  split at done
  · intro sleeping
    cases a with
    | prepareSleep w => cases outside
    | epollWait w x => cases outside
    | _ => simp [SyncAction.worker] at sleeping; simp [SyncState.act, sleeping] at done
  · cases done

/-- After `worker_prepare_sleep` the worker is asleep, and has not yet to synchronise. -/
theorem WakeupInv.prepared (inv : WakeupInv s) (stepped : s.syncStep (.prepareSleep w) = some s') :
    s'.sync.pc w = .sleeping ∧ s'.sync.mustSync w = false := by
  obtain ⟨sync, done, rfl⟩ := Option.map_eq_some_iff.mp stepped
  unfold SyncState.step at done
  split at done
  · simp only [SyncState.act] at done
    split at done
    · next running =>
      cases done
      refine ⟨by simp [SyncState.workerPrepareSleep], ?_⟩
      cases must : s.sync.mustSync w with
      | false => exact must
      | true =>
          have asleep := inv.sync.sync.synced w must
          simp [running, SyncPc.asleep] at asleep
    · cases done
  · cases done

theorem WakeupInv.step {a : WakeupAction} (inv : WakeupInv s) (time : s.arrivesInTime a = true)
    (stepped : s.step a = some s') : WakeupInv s' := by
  cases a with
  | sync a =>
      simp only [WakeupState.step] at stepped
      split at stepped
      · next outside =>
        obtain ⟨sync, epoll, work, pc, signals⟩ := inv.syncStep stepped
        have awake := WakeupState.awake_of_outsideLoop outside stepped
        refine ⟨sync, fun w loop => ?_, fun w must loop idle => ?_⟩
        · rw [epoll] at loop
          have asleep := inv.loop w loop
          have other : w ≠ a.worker := by
            rintro rfl
            exact awake asleep
          exact (pc w other).trans asleep
        · exact signals w must (epoll ▸ loop) (work ▸ idle)
      · cases stepped
  | prepareSleep w haveWork =>
      obtain ⟨s₁, done, rfl⟩ := Option.map_eq_some_iff.mp stepped
      obtain ⟨sync, epoll, work, pc, signals⟩ := inv.syncStep done
      obtain ⟨asleep, free⟩ := inv.prepared done
      refine ⟨sync, fun v loop => ?_, fun v must loop idle => ?_⟩
      · by_cases same : v = w
        · exact same ▸ asleep
        · have inside : (s.epoll v).inLoop = true := by
            simpa [WakeupState.setEpoll, same, epoll] using loop
          exact (pc v same).trans (inv.loop v inside)
      · by_cases same : v = w
        · subst same
          simp [WakeupState.setEpoll, free] at must
        · refine signals v must ?_ ?_
          · simpa [WakeupState.setEpoll, same, epoll] using loop
          · simpa [same, work] using idle
  | epollWait w =>
      simp only [WakeupState.step] at stepped
      split at stepped
      · next entering =>
        cases stepped
        refine inv.setEpoll (by simp [entering, EpollPc.inLoop]) fun must _ idle => ?_
        exact inv.signals w must (.inl entering) idle
      · cases stepped
  | epollReturns w x =>
      simp only [WakeupState.step] at stepped
      split at stepped
      · obtain ⟨s₁, done, rfl⟩ := Option.map_eq_some_iff.mp stepped
        exact inv.leaves done
      · cases stepped
  | arrive w =>
      simp only [WakeupState.step] at stepped
      split at stepped
      · next sent =>
        cases stepped
        split
        · next waiting =>
          refine ⟨inv.sync, fun v loop => ?_, fun v must loop idle => ?_⟩
          · by_cases same : v = w
            · exact same ▸ inv.loop w (by rw [show s.epoll w = .waiting from waiting]; rfl)
            · exact inv.loop v (by simpa [WakeupState.setEpoll, same] using loop)
          · by_cases same : v = w
            · simp [WakeupState.setEpoll, same] at loop
            · have before := inv.signals v must (by simpa [WakeupState.setEpoll, same] using loop) idle
              simpa [WakeupState.setEpoll, same] using before
        · next outside =>
          refine ⟨inv.sync, inv.loop, fun v must loop idle => ?_⟩
          have before := inv.signals v must loop idle
          by_cases same : v = w
          · subst same
            have entering : s.epoll v = .entering := loop.resolve_right outside
            have more : s.signals v ≠ 1 := by
              intro last
              simp only at must idle
              simp [WakeupState.arrivesInTime, must, entering, idle, last] at time
            dsimp only
            rw [Function.update_self]
            omega
          · dsimp only
            rw [Function.update_of_ne same]
            exact before
      · cases stepped
  | otherSignal w =>
      simp only [WakeupState.step] at stepped
      split at stepped
      · next waiting =>
        cases stepped
        exact inv.setEpoll (by simp [waiting, EpollPc.inLoop]) (by simp)
      · cases stepped
  | testSync w =>
      simp only [WakeupState.step] at stepped
      split at stepped
      · next interrupted =>
        split at stepped
        · obtain ⟨s₁, done, rfl⟩ := Option.map_eq_some_iff.mp stepped
          exact inv.leaves done
        · next free =>
          cases stepped
          exact inv.setEpoll (by simp [interrupted, EpollPc.inLoop]) fun must => absurd must free
      · cases stepped

end Steps

theorem WakeupInv.initial (workers : Nat) : WakeupInv (.initial workers) where
  sync := .initial workers
  loop w loop := by simp [WakeupState.initial, EpollPc.inLoop] at loop
  signals w must := by simp [WakeupState.initial, SyncState.initial] at must

/-- Where no worker gets its last signal just before `epoll_wait`, none that has to synchronise is
blocked there with its signal consumed. -/
theorem no_worker_sleeps_through {workers : Nat} {s : WakeupState}
    (run : WakeupRun workers (fun s a => s.arrivesInTime a = true) s) (w : WorkerId) :
    ¬ s.SleepsThrough w := by
  have inv : WakeupInv s := run.invariant WakeupInv (.initial workers) fun inv time stepped =>
    inv.step time stepped
  exact inv.awake w

def marksSleeper : List WakeupAction :=
  [.prepareSleep 1 false, .sync (.registerFd 0 0), .sync (.unregisterFd 0 0),
    .sync (.storeForLaterFree 0)]

/-- The signal arrives in `epoll_wait`. -/
theorem no_worker_sleeps_through_woken : ∃ s,
    WakeupRun 2 (fun s a => s.arrivesInTime a = true) s ∧ s.sync.mustSync 1 = true ∧
      s.epoll 1 = .interrupted ∧ ¬ s.SleepsThrough 1 := by
  obtain ⟨s, run, ended⟩ := Transition.exists_run
    (Transition.guarded WakeupState.step WakeupState.arrivesInTime) (.initial 2)
    (marksSleeper ++ [.epollWait 1, .arrive 1])
    (fun s => s.sync.mustSync 1 && s.epoll 1 = .interrupted) (by decide)
  simp only [Bool.and_eq_true, decide_eq_true_eq] at ended
  exact ⟨s, run.of_guarded, ended.1, ended.2, no_worker_sleeps_through run.of_guarded 1⟩

/-- The signal arrives before `epoll_wait`. -/
theorem worker_sleeps_through : ∃ s, WakeupRun 2 Transition.always s ∧ s.SleepsThrough 1 := by
  obtain ⟨s, run, ended⟩ := Transition.exists_run WakeupState.step (.initial 2)
    (marksSleeper ++ [.arrive 1, .epollWait 1])
    (fun s => s.sync.mustSync 1 && s.epoll 1 = .waiting && !s.haveWork 1 && s.signals 1 = 0) (by decide)
  simp only [Bool.and_eq_true, decide_eq_true_eq, Bool.not_eq_true'] at ended
  exact ⟨s, run, ended.1.1.1, ended.1.1.2, ended.1.2, ended.2⟩

end Libtcr
