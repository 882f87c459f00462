import Mathlib.Data.Finset.Card
import Mathlib.Data.Finset.Range
import Libtcr.DeferredFree

/-! The list of sleeping workers, and the barrier that counts those who have to
synchronise. -/

set_option autoImplicit false

namespace Libtcr

def SyncPc.asleep : SyncPc → Bool
  | .sleeping | .reported _ | .woken => true
  | _ => false

def SyncState.syncing (s : SyncState) : Finset WorkerId :=
  (Finset.range s.workers).filter fun w => s.mustSync w = true

structure SyncInv (s : SyncState) : Prop where
  sleepers : ∃ ws : List WorkerId, s.links.Ring .sleepingWorkers (ws.map .sleepingChain) ∧
    ∀ w, w ∈ ws ↔ s.isOnSleepingList w = true
  bounded : ∀ w, s.pc w ≠ .running → w < s.workers
  sleeps : ∀ w, s.isOnSleepingList w = true → (s.pc w).asleep = true ∧ s.mustSync w = false
  synced : ∀ w, s.mustSync w = true → (s.pc w).asleep = true
  noted : ∀ w, (s.pc w).asleep = true → s.isOnSleepingList w = true ∨ s.mustSync w = true
  barrier : s.syncBarrier = s.syncing.card

section Sync

variable {s : SyncState}

theorem SyncInv.asleep_lt (inv : SyncInv s) {w : WorkerId} (asleep : (s.pc w).asleep = true) :
    w < s.workers := by
  refine inv.bounded w fun running => ?_
  simp [running, SyncPc.asleep] at asleep

private theorem SyncState.mem_syncing {w : WorkerId} :
    w ∈ s.syncing ↔ w < s.workers ∧ s.mustSync w = true := by
  simp [SyncState.syncing]

theorem SyncInv.proceed (inv : SyncInv s) {w : WorkerId} (exists_ : w < s.workers) {pc : SyncPc}
    (same : pc.asleep = (s.pc w).asleep) (freeList : List FdId) (stage : FdId → Stage)
    (freed : FdId → Nat) :
    SyncInv { s with
      freeList := freeList
      pc := Function.update s.pc w pc
      stage := stage
      freed := freed } := by
  have kept : ∀ w', (Function.update s.pc w pc w').asleep = (s.pc w').asleep := by
    intro w'
    by_cases equal : w' = w
    · simpa [equal] using same
    · simp [equal]
  refine ⟨inv.sleepers, fun w' busy => ?_, fun w' on => ?_, fun w' must => ?_, fun w' asleep => ?_,
    inv.barrier⟩
  · by_cases equal : w' = w
    · exact equal ▸ exists_
    · exact inv.bounded w' (by simpa [equal] using busy)
  · rw [kept]
    exact inv.sleeps w' on
  · rw [kept]
    exact inv.synced w' must
  · rw [kept] at asleep
    exact inv.noted w' asleep

theorem SyncInv.prepareSleep (inv : SyncInv s) {w : WorkerId} (exists_ : w < s.workers)
    (running : s.pc w = .running) : SyncInv (s.workerPrepareSleep w) := by
  obtain ⟨ws, ring, linked⟩ := inv.sleepers
  have awake : s.isOnSleepingList w = false ∧ s.mustSync w = false := by
    refine ⟨?_, ?_⟩
    · by_contra on
      have asleep := (inv.sleeps w (by simpa using on)).1
      simp [running, SyncPc.asleep] at asleep
    · by_contra must
      have asleep := inv.synced w (by simpa using must)
      simp [running, SyncPc.asleep] at asleep
  have fresh : w ∉ ws := by
    rw [linked, awake.1]
    simp
  refine ⟨⟨w :: ws, ?_, fun w' => ?_⟩, fun w' busy => ?_, fun w' on => ?_, fun w' must => ?_,
    fun w' asleep => ?_, inv.barrier⟩
  · simp only [SyncState.workerPrepareSleep, awake.1, Bool.false_eq_true, ↓reduceIte]
    exact ring.insertAfter (by simpa using fresh)
  · by_cases equal : w' = w
    · simp [SyncState.workerPrepareSleep, equal]
    · simp [SyncState.workerPrepareSleep, equal, linked w']
  · by_cases equal : w' = w
    · exact equal ▸ exists_
    · exact inv.bounded w' (by simpa [SyncState.workerPrepareSleep, equal] using busy)
  · by_cases equal : w' = w
    · simpa [SyncState.workerPrepareSleep, equal, SyncPc.asleep] using awake.2
    · simpa [SyncState.workerPrepareSleep, equal] using
        inv.sleeps w' (by simpa [SyncState.workerPrepareSleep, equal] using on)
  · by_cases equal : w' = w
    · simp [SyncState.workerPrepareSleep, equal, SyncPc.asleep]
    · simpa [SyncState.workerPrepareSleep, equal] using inv.synced w' must
  · by_cases equal : w' = w
    · simp [SyncState.workerPrepareSleep, equal]
    · simpa [SyncState.workerPrepareSleep, equal] using
        inv.noted w' (by simpa [SyncState.workerPrepareSleep, equal] using asleep)

theorem SyncInv.afterSleep (inv : SyncInv s) {w : WorkerId} (asleep : (s.pc w).asleep = true) :
    SyncInv { s.leaveSleepers w with
      pc := Function.update s.pc w .running
      mustSync := Function.update s.mustSync w false
      syncBarrier := if s.mustSync w then s.syncBarrier - 1 else s.syncBarrier } := by
  obtain ⟨ws, ring, linked⟩ := inv.sleepers
  have exists_ := inv.asleep_lt asleep
  have on : ∀ w', (s.leaveSleepers w).isOnSleepingList w' =
      (s.isOnSleepingList w' && decide (w' ≠ w)) := by
    intro w'
    by_cases here : s.isOnSleepingList w = true
    · by_cases equal : w' = w
      · simp [SyncState.leaveSleepers, here, equal]
      · simp [SyncState.leaveSleepers, here, equal]
    · by_cases equal : w' = w
      · simp [SyncState.leaveSleepers, here, equal]
      · simp [SyncState.leaveSleepers, here, equal]
  have workers : (s.leaveSleepers w).workers = s.workers := by
    unfold SyncState.leaveSleepers
    split <;> rfl
  refine ⟨⟨ws.erase w, ?_, fun w' => ?_⟩, fun w' busy => ?_, fun w' member => ?_, fun w' must => ?_,
    fun w' sleeping => ?_, ?_⟩
  · have mapped : (ws.erase w).map SleepNode.sleepingChain =
        (ws.map SleepNode.sleepingChain).erase (.sleepingChain w) :=
      List.map_erase (fun _ _ equal => SleepNode.sleepingChain.inj equal) _
    rw [mapped]
    by_cases here : s.isOnSleepingList w = true
    · simp only [SyncState.leaveSleepers, here, ↓reduceIte]
      exact ring.remove (List.mem_map_of_mem ((linked w).mpr here))
    · simp only [SyncState.leaveSleepers, here, Bool.false_eq_true, ↓reduceIte]
      rw [List.erase_of_not_mem]
      · exact ring
      · intro member
        obtain ⟨w', found, equal⟩ := List.mem_map.mp member
        cases equal
        exact here ((linked w).mp found)
  · have distinct : ws.Nodup := (List.nodup_cons.mp ring.nodup).2.of_map
    dsimp only
    rw [distinct.mem_erase_iff, on, linked]
    simp [and_comm]
  · by_cases equal : w' = w
    · simp [equal] at busy
    · dsimp only
      rw [workers]
      exact inv.bounded w' (by simpa [equal] using busy)
  · dsimp only at member
    rw [on] at member
    obtain ⟨listed, other⟩ := Bool.and_eq_true_iff.mp member
    have other : w' ≠ w := of_decide_eq_true other
    simpa [other] using inv.sleeps w' listed
  · by_cases equal : w' = w
    · simp [equal] at must
    · simpa [equal] using inv.synced w' (by simpa [equal] using must)
  · by_cases equal : w' = w
    · simp [equal, SyncPc.asleep] at sleeping
    · dsimp only
      rw [on]
      simpa [equal] using inv.noted w' (by simpa [equal] using sleeping)
  · have after : { s.leaveSleepers w with
        pc := Function.update s.pc w .running
        mustSync := Function.update s.mustSync w false
        syncBarrier := if s.mustSync w then s.syncBarrier - 1 else s.syncBarrier
      }.syncing = s.syncing.erase w := by
      ext w'
      rw [Finset.mem_erase, SyncState.mem_syncing, SyncState.mem_syncing]
      by_cases equal : w' = w
      · simp [equal]
      · simp [equal, workers]
    rw [after]
    dsimp only
    rw [inv.barrier]
    split
    · next must =>
      have member : w ∈ s.syncing := SyncState.mem_syncing.mpr ⟨exists_, must⟩
      have positive := Finset.card_pos.mpr ⟨w, member⟩
      rw [Finset.card_erase_of_mem member]
      omega
    · next free =>
      rw [Finset.erase_eq_of_notMem]
      rw [SyncState.mem_syncing]
      exact fun both => free both.2

/-- The loop of `store_for_later_free` over workers that do not have to synchronise yet. -/
theorem markSleeper_foldl (s : SyncState) {ws : List WorkerId} (distinct : ws.Nodup)
    (free : ∀ w ∈ ws, s.mustSync w = false) :
    (ws.map SleepNode.sleepingChain).foldl SyncState.markSleeper s = { s with
      mustSync := fun w => decide (w ∈ ws) || s.mustSync w
      syncBarrier := s.syncBarrier + ws.length
      isOnSleepingList := fun w => !decide (w ∈ ws) && s.isOnSleepingList w } := by
  induction ws generalizing s with
  | nil => simp
  | cons w ws ih =>
      obtain ⟨fresh, distinct⟩ := List.nodup_cons.mp distinct
      have marked : s.markSleeper (.sleepingChain w) = { s with
          mustSync := Function.update s.mustSync w true
          syncBarrier := s.syncBarrier + 1
          isOnSleepingList := Function.update s.isOnSleepingList w false } := by
        simp [SyncState.markSleeper, free w (.head _)]
      rw [List.map_cons, List.foldl_cons, marked, ih _ distinct]
      · congr 1
        · funext w'
          by_cases equal : w' = w <;> simp [equal]
        · funext w'
          by_cases equal : w' = w <;> simp [equal]
        · dsimp only
          rw [List.length_cons]
          omega
      · intro w' member
        have other : w' ≠ w := fun equal => fresh (equal ▸ member)
        simpa [other] using free w' (.tail _ member)

/-- After the loop nobody is on the list, and those who were have to synchronise. -/
theorem SyncInv.markSleepers (inv : SyncInv s) :
    SyncInv s.markSleepers ∧ (∀ w, s.markSleepers.isOnSleepingList w = false) ∧
      s.markSleepers.workers = s.workers ∧ s.markSleepers.freeList = s.freeList ∧ s.markSleepers.pc = s.pc ∧
      s.markSleepers.stage = s.stage ∧ s.markSleepers.freed = s.freed := by
  obtain ⟨ws, ring, linked⟩ := inv.sleepers
  have distinct : ws.Nodup := (List.nodup_cons.mp ring.nodup).2.of_map
  have free : ∀ w ∈ ws, s.mustSync w = false := fun w member =>
    (inv.sleeps w ((linked w).mp member)).2
  have below : ∀ w ∈ ws, w < s.workers := fun w member =>
    inv.asleep_lt (inv.sleeps w ((linked w).mp member)).1
  have enough : (ws.map SleepNode.sleepingChain).length ≤ s.workers := by
    have subset : ws.toFinset ⊆ Finset.range s.workers := by
      intro w member
      exact Finset.mem_range.mpr (below w (List.mem_toFinset.mp member))
    have small := Finset.card_le_card subset
    rwa [List.toFinset_card_of_nodup distinct, Finset.card_range, ← List.length_map] at small
  have looped := ring.segment.forEach (List.nodup_cons.mp ring.nodup).1 SyncState.markSleeper
    enough s
  rw [markSleeper_foldl s distinct free] at looped
  have off : ∀ w, (!decide (w ∈ ws) && s.isOnSleepingList w) = false := by
    intro w
    by_cases member : w ∈ ws
    · simp [member]
    · simp only [member, decide_false, Bool.not_false, Bool.true_and]
      exact Bool.eq_false_iff.mpr fun on => member ((linked w).mpr on)
  have after : s.markSleepers = { s with
      links := if ws = [] then s.links else s.links.init .sleepingWorkers
      mustSync := fun w => decide (w ∈ ws) || s.mustSync w
      syncBarrier := s.syncBarrier + ws.length
      isOnSleepingList := fun w => !decide (w ∈ ws) && s.isOnSleepingList w } := by
    unfold SyncState.markSleepers
    by_cases none : ws = []
    · have empty := ring.isEmpty.mpr (by simp [none])
      simp [empty, none]
    · have listed : s.links.isEmpty .sleepingWorkers = false := by
        refine Bool.eq_false_iff.mpr fun empty => none ?_
        simpa using ring.isEmpty.mp empty
      simp only [listed, Bool.false_eq_true, ↓reduceIte, none, looped]
  refine ⟨?_, by rw [after]; exact off, by rw [after], by rw [after], by rw [after], by rw [after],
    by rw [after]⟩
  rw [after]
  refine ⟨⟨[], ?_, fun w => ?_⟩, inv.bounded, fun w on => ?_, fun w must => ?_, fun w asleep => ?_, ?_⟩
  · by_cases none : ws = []
    · simpa [none] using ring
    · simpa [none] using Links.Ring.init s.links .sleepingWorkers
  · simp [off w]
  · simp [off w] at on
  · rcases Bool.or_eq_true_iff.mp must with member | old
    · exact (inv.sleeps w ((linked w).mp (of_decide_eq_true member))).1
    · exact inv.synced w old
  · refine .inr ?_
    rcases inv.noted w asleep with on | old
    · simp [(linked w).mpr on]
    · simp [old]
  · have grown : { s with
        links := if ws = [] then s.links else s.links.init .sleepingWorkers
        mustSync := fun w => decide (w ∈ ws) || s.mustSync w
        syncBarrier := s.syncBarrier + ws.length
        isOnSleepingList := fun w => !decide (w ∈ ws) && s.isOnSleepingList w
      }.syncing = s.syncing ∪ ws.toFinset := by
      ext w
      rw [Finset.mem_union, SyncState.mem_syncing, SyncState.mem_syncing, List.mem_toFinset]
      have small := below w
      by_cases member : w ∈ ws
      · simp [member, small member]
      · simp [member]
    have apart : Disjoint s.syncing ws.toFinset := by
      refine Finset.disjoint_left.mpr fun w syncing member => ?_
      have must := (SyncState.mem_syncing.mp syncing).2
      simp [free w (List.mem_toFinset.mp member)] at must
    rw [grown, Finset.card_union_of_disjoint apart, List.toFinset_card_of_nodup distinct,
      Nat.cast_add, ← inv.barrier]

theorem SyncInv.nobody (inv : SyncInv s) (zero : s.syncBarrier = 0) (w' : WorkerId) :
    s.mustSync w' = false := by
  have none : s.syncing = ∅ := by
    have barrier := inv.barrier
    exact Finset.card_eq_zero.mp (by omega)
  by_contra must
  have must : s.mustSync w' = true := by simpa using must
  have member := SyncState.mem_syncing.mpr ⟨inv.asleep_lt (inv.synced w' must), must⟩
  simp [none] at member

end Sync

end Libtcr
