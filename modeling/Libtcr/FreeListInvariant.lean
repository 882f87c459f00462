import Libtcr.SleepersInvariant

/-! Where a `tc_fd` is on its way from `tc_unregister_fd` to `free`. -/

set_option autoImplicit false

namespace Libtcr

/-- Where the `tc_fd`s are. A worker has a pointer to one that is on the free list only
while it has to synchronise. -/
structure FreeInv (s : SyncState) : Prop where
  distinct : s.freeList.Nodup
  listed : ∀ x, x ∈ s.freeList ↔ s.stage x = .stored
  taken : ∀ w cur, s.pc w = .freeing cur → cur.Nodup ∧ ∀ x, x ∈ cur ↔ s.stage x = .taken w
  takenBy : ∀ x w, s.stage x = .taken w → ∃ cur, s.pc w = .freeing cur
  unregistering : ∀ w x, s.pc w = .unregistering x → s.stage x = .removed w
  freed : ∀ x, s.freed x = if s.stage x = .freed then 1 else 0
  held : ∀ w x, s.pc w = .reported x → s.stage x = .registered ∨
    (∃ w', s.stage x = .removed w') ∨ s.stage x = .stored ∧ s.mustSync w = true

section Free

variable {s s' : SyncState} {w : WorkerId}

theorem FreeInv.not_taken (inv : FreeInv s) (idle : ∀ cur, s.pc w ≠ .freeing cur) (x : FdId) :
    s.stage x ≠ .taken w := by
  intro taken
  obtain ⟨cur, freeing⟩ := inv.takenBy x w taken
  exact idle cur freeing

theorem FreeInv.proceed (inv : FreeInv s) {pc : SyncPc} (idle : ∀ x, s.stage x ≠ .taken w)
    (plain : ∀ cur, pc ≠ .freeing cur)
    (unregistering : ∀ x, pc = .unregistering x → s.stage x = .removed w)
    (reported : ∀ x, pc = .reported x → s.stage x = .registered)
    (freeList : s'.freeList = s.freeList) (stage : s'.stage = s.stage) (freed : s'.freed = s.freed)
    (moved : s'.pc = Function.update s.pc w pc)
    (mustSync : ∀ w', w' ≠ w → s.mustSync w' = true → s'.mustSync w' = true) : FreeInv s' := by
  have other : ∀ {w'}, w' ≠ w → s'.pc w' = s.pc w' := fun other => by rw [moved]; simp [other]
  have own : s'.pc w = pc := by rw [moved]; simp
  refine ⟨freeList ▸ inv.distinct, fun x => ?_, fun w' cur freeing => ?_, fun x w' taken => ?_,
    fun w' x began => ?_, fun x => ?_, fun w' x held => ?_⟩
  · rw [freeList, stage]
    exact inv.listed x
  · by_cases same : w' = w
    · exact absurd (own.symm.trans (same ▸ freeing)) (plain cur)
    · rw [stage]
      exact inv.taken w' cur ((other same).symm.trans freeing)
  · rw [stage] at taken
    have same : w' ≠ w := fun equal => idle x (equal ▸ taken)
    rw [other same]
    exact inv.takenBy x w' taken
  · rw [stage]
    by_cases same : w' = w
    · rw [same]
      exact unregistering x (own.symm.trans (same ▸ began))
    · exact inv.unregistering w' x ((other same).symm.trans began)
  · rw [freed, stage]
    exact inv.freed x
  · rw [stage]
    by_cases same : w' = w
    · exact .inl (reported x (own.symm.trans (same ▸ held)))
    · exact (inv.held w' x ((other same).symm.trans held)).imp_right fun stored =>
        stored.imp_right fun both => ⟨both.1, mustSync w' same both.2⟩

/-- The free list is taken while nobody has to synchronise: nobody has a pointer to one of
its elements. -/
theorem FreeInv.processFreeList (inv : FreeInv s) (running : s.pc w = .running)
    (nobody : ∀ w', s.mustSync w' = false) : FreeInv (s.processFreeList w) := by
  have own : (s.processFreeList w).pc w = .freeing s.freeList := by
    simp [SyncState.processFreeList]
  have other : ∀ {w'}, w' ≠ w → (s.processFreeList w).pc w' = s.pc w' := by
    intro w' other
    simp [SyncState.processFreeList, other]
  have on : ∀ {x}, x ∈ s.freeList → (s.processFreeList w).stage x = .taken w := by
    intro x member
    simp [SyncState.processFreeList, member]
  have off : ∀ {x}, x ∉ s.freeList → (s.processFreeList w).stage x = s.stage x := by
    intro x absent
    simp [SyncState.processFreeList, absent]
  have idle := inv.not_taken (w := w) (by simp [running])
  refine ⟨List.nodup_nil, fun x => ?_, fun w' cur freeing => ?_, fun x w' taken => ?_,
    fun w' x unregistering => ?_, fun x => ?_, fun w' x held => ?_⟩
  · refine iff_of_false (by simp [SyncState.processFreeList]) fun stored => ?_
    by_cases member : x ∈ s.freeList
    · simp [on member] at stored
    · exact member ((inv.listed x).mpr (off member ▸ stored))
  · by_cases same : w' = w
    · obtain rfl : s.freeList = cur := by
        have equal := own.symm.trans (same ▸ freeing)
        exact SyncPc.freeing.inj equal
      refine ⟨inv.distinct, fun x => ?_⟩
      rw [same]
      refine ⟨on, fun taken => ?_⟩
      by_contra absent
      exact idle x (off absent ▸ taken)
    · obtain ⟨nodup, members⟩ := inv.taken w' cur ((other same).symm.trans freeing)
      refine ⟨nodup, fun x => (members x).trans ?_⟩
      by_cases member : x ∈ s.freeList
      · simp [on member, (inv.listed x).mp member, Ne.symm same]
      · rw [off member]
  · by_cases member : x ∈ s.freeList
    · obtain rfl : w = w' := Stage.taken.inj ((on member).symm.trans taken)
      exact ⟨_, own⟩
    · have old := (off member).symm.trans taken
      have same : w' ≠ w := fun equal => idle x (equal ▸ old)
      rw [other same]
      exact inv.takenBy x w' old
  · have same : w' ≠ w := by
      rintro rfl
      simp [own] at unregistering
    have removed := inv.unregistering w' x ((other same).symm.trans unregistering)
    rw [off]
    · exact removed
    · rw [inv.listed, removed]
      simp
  · have before : (s.processFreeList w).freed x = if s.stage x = .freed then 1 else 0 := inv.freed x
    by_cases member : x ∈ s.freeList
    · simpa [on member, (inv.listed x).mp member] using before
    · rw [off member]
      exact before
  · have same : w' ≠ w := by
      rintro rfl
      simp [own] at held
    rcases inv.held w' x ((other same).symm.trans held) with registered | ⟨w'', removed⟩ | stored
    · refine .inl (off ?_ |>.trans registered)
      rw [inv.listed, registered]
      simp
    · refine .inr (.inl ⟨w'', off ?_ |>.trans removed⟩)
      rw [inv.listed, removed]
      simp
    · simp [nobody w'] at stored

/-- `x` is put on the free list, and all workers that sleep have to synchronise. -/
theorem FreeInv.store (inv : FreeInv s) {x : FdId} (removed : s.stage x = .removed w)
    (freeList : s'.freeList = x :: s.freeList) (stage : s'.stage = Function.update s.stage x .stored)
    (freed : s'.freed = s.freed) (pc : s'.pc = Function.update s.pc w .running)
    (idle : ∀ cur, s.pc w ≠ .freeing cur)
    (synced : ∀ w', (s'.pc w').asleep = true → s'.mustSync w' = true) : FreeInv s' := by
  have own : s'.pc w = .running := by rw [pc]; simp
  have other : ∀ {w'}, w' ≠ w → s'.pc w' = s.pc w' := fun other => by rw [pc]; simp [other]
  have here : s'.stage x = .stored := by rw [stage]; simp
  have elsewhere : ∀ {y}, y ≠ x → s'.stage y = s.stage y := fun other => by rw [stage]; simp [other]
  have fresh : x ∉ s.freeList := by
    rw [inv.listed, removed]
    simp
  refine ⟨?_, fun y => ?_, fun w' cur freeing => ?_, fun y w' taken => ?_,
    fun w' y unregistering => ?_, fun y => ?_, fun w' y held => ?_⟩
  · rw [freeList]
    exact List.nodup_cons.mpr ⟨fresh, inv.distinct⟩
  · rw [freeList]
    by_cases same : y = x
    · simp [same, here]
    · rw [elsewhere same, ← inv.listed]
      simp [same]
  · have same : w' ≠ w := by
      rintro rfl
      simp [own] at freeing
    obtain ⟨nodup, members⟩ := inv.taken w' cur ((other same).symm.trans freeing)
    refine ⟨nodup, fun y => (members y).trans ?_⟩
    by_cases equal : y = x
    · simp [equal, here, removed]
    · rw [elsewhere equal]
  · have equal : y ≠ x := by
      rintro rfl
      simp [here] at taken
    have old := (elsewhere equal).symm.trans taken
    have same : w' ≠ w := fun same => inv.not_taken idle y (same ▸ old)
    rw [other same]
    exact inv.takenBy y w' old
  · have same : w' ≠ w := by
      rintro rfl
      simp [own] at unregistering
    have old := inv.unregistering w' y ((other same).symm.trans unregistering)
    have equal : y ≠ x := by
      rintro rfl
      exact same (Stage.removed.inj (old.symm.trans removed))
    rw [elsewhere equal]
    exact old
  · rw [freed, inv.freed]
    by_cases equal : y = x
    · simp [equal, here, removed]
    · rw [elsewhere equal]
  · have same : w' ≠ w := by
      rintro rfl
      simp [own] at held
    have must := synced w' (by simp [held, SyncPc.asleep])
    by_cases equal : y = x
    · exact .inr (.inr ⟨equal ▸ here, must⟩)
    · rw [elsewhere equal]
      exact (inv.held w' y ((other same).symm.trans held)).imp_right fun stored =>
        stored.imp_right fun both => ⟨both.1, must⟩

theorem FreeInv.free (inv : FreeInv s) {x : FdId} {rest : List FdId}
    (freeing : s.pc w = .freeing (x :: rest)) :
    FreeInv { s with
      pc := Function.update s.pc w (.freeing rest)
      stage := Function.update s.stage x .freed
      freed := Function.update s.freed x (s.freed x + 1) } := by
  obtain ⟨nodup, members⟩ := inv.taken w _ freeing
  obtain ⟨fresh, nodup⟩ := List.nodup_cons.mp nodup
  have taken : s.stage x = .taken w := (members x).mp (.head _)
  refine ⟨inv.distinct, fun y => ?_, fun w' cur freeing' => ?_, fun y w' taken' => ?_,
    fun w' y unregistering => ?_, fun y => ?_, fun w' y held => ?_⟩
  · by_cases same : y = x
    · simp [same, inv.listed, taken]
    · simpa [same] using inv.listed y
  · by_cases here : w' = w
    · obtain rfl : rest = cur := by simpa [here] using freeing'
      refine ⟨nodup, fun y => ?_⟩
      by_cases same : y = x
      · simp [same, fresh]
      · simpa [same, here] using members y
    · obtain ⟨nodup', members'⟩ := inv.taken w' cur (by simpa [here] using freeing')
      refine ⟨nodup', fun y => (members' y).trans ?_⟩
      by_cases same : y = x
      · simp [same, taken, Ne.symm here]
      · simp [same]
  · have same : y ≠ x := by
      rintro rfl
      simp at taken'
    obtain ⟨cur, old⟩ := inv.takenBy y w' (by simpa [same] using taken')
    by_cases here : w' = w
    · exact ⟨rest, by simp [here]⟩
    · exact ⟨cur, by simpa [here] using old⟩
  · have here : w' ≠ w := by
      rintro rfl
      simp at unregistering
    have removed := inv.unregistering w' y (by simpa [here] using unregistering)
    have same : y ≠ x := by
      rintro rfl
      simp [taken] at removed
    simpa [same] using removed
  · have before := inv.freed y
    by_cases same : y = x
    · simpa [same, taken] using inv.freed x
    · simpa [same] using before
  · have here : w' ≠ w := by
      rintro rfl
      simp at held
    have old := inv.held w' y (by simpa [here] using held)
    have same : y ≠ x := by
      rintro rfl
      simp [taken] at old
    simpa [same] using old

theorem FreeInv.setStage (inv : FreeInv s) {x : FdId} {stage : Stage}
    (early : s.stage x = .unused ∨ s.stage x = .registered)
    (later : stage = .registered ∨ ∃ w', stage = .removed w') :
    FreeInv { s with stage := Function.update s.stage x stage } := by
  refine ⟨inv.distinct, fun y => ?_, fun w' cur freeing => ?_, fun y w' taken => ?_,
    fun w' y unregistering => ?_, fun y => ?_, fun w' y held => ?_⟩
  · by_cases same : y = x
    · rcases early with old | old <;> rcases later with rfl | ⟨w', rfl⟩ <;>
        simp [same, inv.listed, old]
    · simpa [same] using inv.listed y
  · obtain ⟨nodup, members⟩ := inv.taken w' cur freeing
    refine ⟨nodup, fun y => (members y).trans ?_⟩
    by_cases same : y = x
    · rcases early with old | old <;> rcases later with rfl | ⟨w'', rfl⟩ <;> simp [same, old]
    · simp [same]
  · have same : y ≠ x := by
      rintro rfl
      rcases later with rfl | ⟨w'', rfl⟩ <;> simp at taken
    exact inv.takenBy y w' (by simpa [same] using taken)
  · have removed := inv.unregistering w' y unregistering
    have same : y ≠ x := by
      rintro rfl
      rcases early with old | old <;> simp [old] at removed
    simpa [same] using removed
  · by_cases same : y = x
    · rw [inv.freed]
      rcases early with old | old <;> rcases later with rfl | ⟨w', rfl⟩ <;> simp [same, old]
    · simpa [same] using inv.freed y
  · have old := inv.held w' y held
    by_cases same : y = x
    · subst same
      rcases later with rfl | ⟨w'', rfl⟩
      · exact .inl (by simp)
      · exact .inr (.inl ⟨w'', by simp⟩)
    · simpa [same] using old

end Free

def SyncState.Unregistered (s : SyncState) (x : FdId) : Prop :=
  s.stage x = .stored ∨ (∃ w, s.stage x = .taken w) ∨ s.stage x = .freed

/-- The worker has taken `x` from the free list, and is about to free it. -/
def SyncState.Frees (s : SyncState) (w : WorkerId) (x : FdId) : Prop :=
  ∃ cur, s.pc w = .freeing cur ∧ cur.count x = 1

theorem FreeInv.unregistered {s : SyncState} (inv : FreeInv s) {x : FdId}
    (unregistered : s.Unregistered x) :
    s.freeList.count x = 1 ∧ (∀ w, ¬ s.Frees w x) ∧ s.freed x = 0 ∨
      x ∉ s.freeList ∧ (∃ w, s.Frees w x ∧ ∀ w', s.Frees w' x → w' = w) ∧ s.freed x = 0 ∨
      x ∉ s.freeList ∧ (∀ w, ¬ s.Frees w x) ∧ s.freed x = 1 := by
  have frees : ∀ {w}, s.Frees w x → s.stage x = .taken w := by
    rintro w ⟨cur, freeing, once⟩
    refine ((inv.taken w cur freeing).2 x).mp (List.count_pos_iff.mp ?_)
    omega
  have freed := inv.freed x
  rcases unregistered with stored | ⟨w, taken⟩ | done
  · refine .inl ⟨?_, fun w frees' => ?_, by simpa [stored] using freed⟩
    · exact List.count_eq_one_of_mem inv.distinct ((inv.listed x).mpr stored)
    · simp [stored] at frees
      exact frees frees'
  · obtain ⟨cur, freeing⟩ := inv.takenBy x w taken
    obtain ⟨nodup, members⟩ := inv.taken w cur freeing
    refine .inr (.inl ⟨?_, ⟨w, ⟨cur, freeing, ?_⟩, fun w' frees' => ?_⟩, by simpa [taken] using freed⟩)
    · rw [inv.listed, taken]
      simp
    · exact List.count_eq_one_of_mem nodup ((members x).mpr taken)
    · exact (Stage.taken.inj (taken.symm.trans (frees frees'))).symm
  · refine .inr (.inr ⟨?_, fun w frees' => ?_, by simpa [done] using freed⟩)
    · rw [inv.listed, done]
      simp
    · simp [done] at frees
      exact frees frees'

/-- A worker that has a pointer from `epoll_wait` points to nothing that has been freed or is
about to be freed. -/
theorem FreeInv.not_held {s : SyncState} (inv : FreeInv s) {w : WorkerId} {x : FdId}
    (held : s.pc w = .reported x) : s.freed x = 0 ∧ ∀ w', ¬ s.Frees w' x := by
  have stage := inv.held w x held
  refine ⟨?_, ?_⟩
  · have freed := inv.freed x
    rcases stage with registered | ⟨w', removed⟩ | ⟨stored, _⟩
    · simpa [registered] using freed
    · simpa [removed] using freed
    · simpa [stored] using freed
  · rintro w' ⟨cur, freeing, once⟩
    have taken := ((inv.taken w' cur freeing).2 x).mp (List.count_pos_iff.mp (by omega))
    simp [taken] at stage

end Libtcr
