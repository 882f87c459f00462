import Libtcr.FreeListInvariant

/-! A `tc_fd` is freed once, and not while a worker has a pointer to it. -/

set_option autoImplicit false

namespace Libtcr

section Deferred

variable {s s' : SyncState} {w : WorkerId}

/-- The free list is taken only when it has been found to be safe. -/
def SyncState.Drained (s : SyncState) : Prop := s.syncBarrier = 0 → s.freeList = []

structure DeferredInv (s : SyncState) : Prop where
  sync : SyncInv s
  free : FreeInv s
  drained : s.Drained

theorem DeferredInv.processFreeList (sync : SyncInv s) (free : FreeInv s)
    (running : s.pc w = .running) (exists_ : w < s.workers) (zero : s.syncBarrier = 0) :
    DeferredInv (s.processFreeList w) where
  sync := sync.proceed exists_ (by simp [running, SyncPc.asleep]) _ _ _
  free := free.processFreeList running (sync.nobody zero)
  drained _ := rfl

theorem DeferredInv.afterSleep (inv : DeferredInv s) (asleep : (s.pc w).asleep = true) :
    DeferredInv (s.workerAfterSleep w) := by
  have sync := inv.sync.afterSleep asleep
  have idle : ∀ cur, s.pc w ≠ .freeing cur := by
    intro cur freeing
    simp [freeing, SyncPc.asleep] at asleep
  have kept : (s.leaveSleepers w).freeList = s.freeList ∧ (s.leaveSleepers w).stage = s.stage ∧
      (s.leaveSleepers w).freed = s.freed ∧ (s.leaveSleepers w).mustSync = s.mustSync ∧
      (s.leaveSleepers w).syncBarrier = s.syncBarrier := by
    unfold SyncState.leaveSleepers
    split <;> exact ⟨rfl, rfl, rfl, rfl, rfl⟩
  obtain ⟨freeList, stage, freed, mustSync, barrier⟩ := kept
  have free : FreeInv { s.leaveSleepers w with
      pc := Function.update s.pc w .running
      mustSync := Function.update s.mustSync w false
      syncBarrier := if s.mustSync w then s.syncBarrier - 1 else s.syncBarrier } := by
    refine inv.free.proceed (inv.free.not_taken idle) (by simp) (by simp) (by simp) freeList stage freed
      rfl ?_
    intro w' other must
    simpa [other] using must
  have exists_ := inv.sync.asleep_lt asleep
  unfold SyncState.workerAfterSleep
  dsimp only
  rw [mustSync, barrier]
  by_cases must : s.mustSync w = true
  · simp only [must, ↓reduceIte] at sync free ⊢
    split
    · next zero =>
      refine .processFreeList sync free (by simp) ?_ zero
      unfold SyncState.leaveSleepers
      split <;> exact exists_
    · next positive => exact ⟨sync, free, fun zero => absurd zero positive⟩
  · have unchanged : Function.update s.mustSync w false = s.mustSync := by
      rw [Function.update_eq_self_iff]
      simpa using must
    simp only [must, Bool.false_eq_true, ↓reduceIte, unchanged] at sync free ⊢
    exact ⟨sync, free, fun zero => freeList.trans (inv.drained zero)⟩

theorem DeferredInv.storeForLaterFree (inv : DeferredInv s) {x : FdId}
    (unregistering : s.pc w = .unregistering x) : DeferredInv (s.storeForLaterFree w x) := by
  have removed := inv.free.unregistering w x unregistering
  have exists_ := inv.sync.bounded w (by simp [unregistering])
  have queued : SyncInv { s with
      freeList := x :: s.freeList
      stage := Function.update s.stage x .stored
      pc := Function.update s.pc w .running } :=
    inv.sync.proceed exists_ (by simp [unregistering, SyncPc.asleep]) _ _ _
  obtain ⟨sync, nobody, workers, freeList, pc, stage, freed⟩ := queued.markSleepers
  have free := inv.free.store removed freeList stage freed pc (by simp [unregistering])
    fun w' asleep => (sync.noted w' asleep).resolve_left (by simp [nobody])
  unfold SyncState.storeForLaterFree
  dsimp only
  split
  · next positive => exact ⟨sync, free, fun zero => absurd zero positive⟩
  · next zero =>
    refine .processFreeList sync free ?_ ?_ (by simpa using zero)
    · rw [pc]
      simp
    · rw [workers]
      exact exists_

theorem DeferredInv.step (inv : DeferredInv s) {a : SyncAction} (stepped : s.step a = some s') :
    DeferredInv s' := by
  unfold SyncState.step at stepped
  split at stepped
  case isFalse => cases stepped
  case isTrue exists_ =>
    cases a with
    | registerFd w x =>
        simp only [SyncState.act] at stepped
        split at stepped
        · next free =>
          cases stepped
          refine ⟨?_, inv.free.setStage (.inl free.2) (.inl rfl), inv.drained⟩
          exact { inv.sync with }
        · cases stepped
    | unregisterFd w x =>
        replace exists_ : w < s.workers := exists_
        simp only [SyncState.act] at stepped
        split at stepped
        · next free =>
          cases stepped
          have removed := inv.free.setStage (.inr free.2) (.inr ⟨w, rfl⟩)
          refine ⟨inv.sync.proceed exists_ (by simp [free.1, SyncPc.asleep]) _ _ _, ?_, inv.drained⟩
          refine removed.proceed (removed.not_taken (by simp [free.1])) (by simp) (fun y equal => ?_)
            (by simp) rfl rfl rfl rfl fun _ _ must => must
          obtain rfl := SyncPc.unregistering.inj equal
          simp
        · cases stepped
    | storeForLaterFree w =>
        simp only [SyncState.act] at stepped
        split at stepped
        · next x unregistering =>
          cases stepped
          exact inv.storeForLaterFree unregistering
        · cases stepped
    | prepareSleep w =>
        replace exists_ : w < s.workers := exists_
        simp only [SyncState.act] at stepped
        split at stepped
        · next running =>
          cases stepped
          have idle := inv.free.not_taken (w := w) (by simp [running])
          refine ⟨inv.sync.prepareSleep exists_ running, ?_, inv.drained⟩
          exact inv.free.proceed idle (by simp) (by simp) (by simp) rfl rfl rfl rfl
            fun _ _ must => must
        · cases stepped
    | epollWait w x =>
        replace exists_ : w < s.workers := exists_
        cases x with
        | none =>
            simp only [SyncState.act] at stepped
            split at stepped
            · next sleeping =>
              cases stepped
              have idle := inv.free.not_taken (w := w) (by simp [sleeping])
              refine ⟨inv.sync.proceed exists_ (by simp [sleeping, SyncPc.asleep]) _ _ _, ?_,
                inv.drained⟩
              exact inv.free.proceed idle (by simp) (by simp) (by simp) rfl rfl rfl rfl
                fun _ _ must => must
            · cases stepped
        | some x =>
            simp only [SyncState.act] at stepped
            split at stepped
            · next sleeping =>
              cases stepped
              have idle := inv.free.not_taken (w := w) (by simp [sleeping.1])
              refine ⟨inv.sync.proceed exists_ (by simp [sleeping.1, SyncPc.asleep]) _ _ _, ?_,
                inv.drained⟩
              refine inv.free.proceed idle (by simp) (by simp) (fun y equal => ?_) rfl rfl rfl rfl
                fun _ _ must => must
              obtain rfl := SyncPc.reported.inj equal
              exact sleeping.2
            · cases stepped
    | afterSleep w =>
        simp only [SyncState.act] at stepped
        split at stepped
        · next woken =>
          cases stepped
          exact inv.afterSleep (by simp [woken, SyncPc.asleep])
        · next x reported =>
          cases stepped
          exact inv.afterSleep (by simp [reported, SyncPc.asleep])
        · cases stepped
    | free w =>
        replace exists_ : w < s.workers := exists_
        simp only [SyncState.act] at stepped
        split at stepped
        · next freeing =>
          cases stepped
          have idle : ∀ x, s.stage x ≠ .taken w := by
            intro x taken
            have member := ((inv.free.taken w _ freeing).2 x).mpr taken
            cases member
          refine ⟨inv.sync.proceed exists_ (by simp [freeing, SyncPc.asleep]) _ _ _, ?_, inv.drained⟩
          exact inv.free.proceed idle (by simp) (by simp) (by simp) rfl rfl rfl rfl
            fun _ _ must => must
        · next x rest freeing =>
          cases stepped
          exact ⟨inv.sync.proceed exists_ (by simp [freeing, SyncPc.asleep]) _ _ _,
            inv.free.free freeing, inv.drained⟩
        · cases stepped

end Deferred

theorem DeferredInv.initial (workers : Nat) : DeferredInv (.initial workers) where
  sync := {
    sleepers := ⟨[], Links.Ring.init _ _, by simp [SyncState.initial]⟩
    bounded := by simp [SyncState.initial]
    sleeps := by simp [SyncState.initial]
    synced := by simp [SyncState.initial]
    noted := by simp [SyncState.initial, SyncPc.asleep]
    barrier := by simp [SyncState.initial, SyncState.syncing] }
  free := {
    distinct := List.nodup_nil
    listed := by simp [SyncState.initial]
    taken := by simp [SyncState.initial]
    takenBy := by simp [SyncState.initial]
    unregistering := by simp [SyncState.initial]
    freed := by simp [SyncState.initial]
    held := by simp [SyncState.initial] }
  drained _ := rfl

theorem DeferredInv.run {workers : Nat} {s : SyncState} (reached : SyncReachable workers s) :
    DeferredInv s :=
  reached.invariant DeferredInv (.initial workers) fun inv _ stepped => inv.step stepped

def SyncState.Linked (s : SyncState) (w : WorkerId) : Prop :=
  ∃ k, s.links.next^[k] .sleepingWorkers = .sleepingChain w

private theorem SyncState.markSleepers_freed (s : SyncState) : s.markSleepers.freed = s.freed := by
  unfold SyncState.markSleepers
  split
  · rfl
  · refine Links.forEach_invariant (fun acc : SyncState => acc.freed = s.freed)
      (fun acc node same => ?_) _ _ _ rfl
    cases node with
    | sleepingWorkers => exact same
    | sleepingChain w =>
        unfold SyncState.markSleeper
        dsimp only
        split <;> exact same

private theorem SyncState.step_freed {s s' : SyncState} {a : SyncAction}
    (stepped : s.step a = some s') {x : FdId} (changed : s'.freed x ≠ s.freed x) :
    s'.freed x = s.freed x + 1 ∧ ∃ w rest, s.pc w = .freeing (x :: rest) := by
  unfold SyncState.step at stepped
  split at stepped
  case isFalse => cases stepped
  case isTrue =>
    cases a with
    | storeForLaterFree w =>
        simp only [SyncState.act] at stepped
        split at stepped
        · cases stepped
          refine absurd ?_ changed
          unfold SyncState.storeForLaterFree
          dsimp only
          split <;> simp [SyncState.processFreeList, SyncState.markSleepers_freed]
        · cases stepped
    | afterSleep w =>
        simp only [SyncState.act] at stepped
        have same : (s.workerAfterSleep w).freed = s.freed := by
          have left : (s.leaveSleepers w).freed = s.freed := by
            unfold SyncState.leaveSleepers
            split <;> rfl
          unfold SyncState.workerAfterSleep
          dsimp only
          split
          · split <;> exact left
          · exact left
        split at stepped
        · cases stepped
          exact absurd (congrFun same x) changed
        · cases stepped
          exact absurd (congrFun same x) changed
        · cases stepped
    | free w =>
        simp only [SyncState.act] at stepped
        split at stepped
        · cases stepped
          exact absurd rfl changed
        · next y rest freeing =>
          cases stepped
          by_cases same : x = y
          · subst same
            exact ⟨by simp, w, rest, freeing⟩
          · exact absurd (by simp [same]) changed
        · cases stepped
    | epollWait w y =>
        cases y <;>
        · simp only [SyncState.act] at stepped
          split at stepped
          · cases stepped
            exact absurd rfl changed
          · cases stepped
    | _ =>
        simp only [SyncState.act] at stepped
        split at stepped
        · cases stepped
          exact absurd rfl changed
        · cases stepped

/-- A `tc_fd` that has been unregistered is on the free list, or taken from it by the one
worker that frees it, or has been freed once; it is freed only while no worker has a pointer
to it from `epoll_wait`. The barrier counts the workers that have to synchronise, the list of
sleeping workers has those whose flag says so, and without a barrier the free list is
empty. -/
theorem deferred_free_safe {workers : Nat} {s : SyncState} (reached : SyncReachable workers s) :
    (∀ x, s.Unregistered x →
        s.freeList.count x = 1 ∧ (∀ w, ¬ s.Frees w x) ∧ s.freed x = 0 ∨
        x ∉ s.freeList ∧ (∃ w, s.Frees w x ∧ ∀ w', s.Frees w' x → w' = w) ∧ s.freed x = 0 ∨
        x ∉ s.freeList ∧ (∀ w, ¬ s.Frees w x) ∧ s.freed x = 1) ∧
      (∀ a s' x, s.step a = some s' → s'.freed x ≠ s.freed x →
        s.Unregistered x ∧ s'.freed x = 1 ∧ ∀ w, s.pc w ≠ .reported x) ∧
      (∀ w x, s.pc w = .reported x → s.freed x = 0) ∧
      s.syncBarrier = s.syncing.card ∧ (∀ w, s.Linked w ↔ s.isOnSleepingList w = true) ∧
      (s.syncBarrier = 0 → s.freeList = []) := by
  have inv := DeferredInv.run reached
  refine ⟨fun x => inv.free.unregistered, fun a s' x stepped changed => ?_,
    fun w x held => (inv.free.not_held held).1, inv.sync.barrier, fun w => ?_, inv.drained⟩
  · obtain ⟨once, w, rest, freeing⟩ := SyncState.step_freed stepped changed
    obtain ⟨nodup, members⟩ := inv.free.taken w _ freeing
    have taken := (members x).mp (.head _)
    refine ⟨.inr (.inl ⟨w, taken⟩), ?_, fun w' held => ?_⟩
    · rw [once, inv.free.freed]
      simp [taken]
    · refine (inv.free.not_held held).2 w ⟨_, freeing, ?_⟩
      exact List.count_eq_one_of_mem nodup (.head _)
  · obtain ⟨ws, ring, linked⟩ := inv.sync.sleepers
    rw [SyncState.Linked, ring.reachable, ← linked]
    simp

/-- Two workers sleep, one with a report of the `tc_fd` that a third one unregisters. The
second frees it, after the first has gone through `worker_after_sleep`. -/
theorem deferred_free_safe_reported :
    ∃ s s', SyncReachable 3 s ∧ s.pc 1 = .freeing [0] ∧ s.step (.free 1) = some s' ∧
      s'.freed 0 = 1 ∧ ∀ w, s.pc w ≠ .reported 0 := by
  obtain ⟨s, reached, shown⟩ := Transition.exists_run SyncState.step (.initial 3)
    [.registerFd 2 0, .prepareSleep 0, .prepareSleep 1, .epollWait 0 (some 0), .unregisterFd 2 0,
      .storeForLaterFree 2, .afterSleep 0, .prepareSleep 0, .epollWait 1 none, .afterSleep 1]
    (fun s => (s.pc 1 = .freeing [0] ∧ s.freed 0 = 0) &&
      (s.step (.free 1)).any fun s' => s'.freed 0 = 1) (by decide)
  obtain ⟨before, after⟩ := Bool.and_eq_true_iff.mp shown
  obtain ⟨freeing, zero⟩ := of_decide_eq_true before
  obtain ⟨s', stepped, one⟩ := (Option.any_eq_true _ _).mp after
  have changed : s'.freed 0 ≠ s.freed 0 := by simp [zero, of_decide_eq_true one]
  have safe := (deferred_free_safe reached).2.1 _ s' 0 stepped changed
  exact ⟨s, s', reached, freeing, stepped, safe.2⟩

end Libtcr
