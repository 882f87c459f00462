import Libtcr.FdArmingInvariant

/-! No waiter of a `tc_fd` is forgotten by the kernel. -/

set_option autoImplicit false

namespace Libtcr

section Steps

variable {s : FdState}

private theorem FdState.armStep_events (s : FdState) (pc : ArmPc) :
    (s.armStep pc).1.events = s.events ∧ (s.armStep pc).1.waiter = s.waiter ∧
      (s.armStep pc).1.epEvents = s.epEvents ∧ (s.armStep pc).1.reporter = s.reporter ∧
      (s.armStep pc).1.errHup = s.errHup := by
  cases pc <;> exact ⟨rfl, rfl, rfl, rfl, rfl⟩

theorem FdArmInv.arm (inv : FdArmInv s) {pc : ArmPc} {part after : FdSection}
    (lock : s.lock = some part) (before : s.errHup = false → ArmInv s pc)
    (armed : ∀ s', ArmInv s' (s.armStep pc).2 → SectionInv s' (some after))
    (worker : after.worker = part.worker)
    (rearming : ∀ t pc', after = .tcRearm t pc' → ∃ pc'', part = .tcRearm t pc'') :
    FdArmInv { (s.armStep pc).1 with lock := some after } := by
  obtain ⟨events, waiter, masks, reporter, errHup⟩ := s.armStep_events pc
  refine ⟨?_, ?_, ?_, ?_, ?_, ?_⟩
  · dsimp only
    rw [events]
    exact inv.nodup
  · dsimp only
    rw [events, waiter]
    exact inv.listed
  · dsimp only
    rw [events, masks]
    exact inv.oneshot
  · intro t pc' equal
    obtain ⟨pc'', old⟩ := rearming t pc' (Option.some.inj equal)
    dsimp only
    rw [waiter]
    exact inv.rearming t pc'' (lock.trans (congrArg some old))
  · intro part' w equal owner
    obtain rfl := Option.some.inj equal
    dsimp only
    rw [reporter]
    exact inv.handling part w lock (worker.symm.trans owner)
  · intro healthy
    dsimp only at healthy
    rw [errHup] at healthy
    have after := armed _ ((before healthy).step inv.oneshot)
    exact after.congr (fun flight => flight) (.inl rfl) (.inl rfl) rfl rfl

/-- If `matching_event` leaves nobody but the event it returns, `run_or_queue` leaves nobody. -/
theorem erase_of_alone {es : List Tid} (nodup : es.Nodup) {e : Option Tid}
    (alone : ¬ (es ≠ [] ∧ (es.head? ≠ e ∨ es.getLast? ≠ e))) : e.elim es es.erase = [] := by
  cases es with
  | nil => cases e <;> rfl
  | cons t rest =>
      simp only [ne_eq, reduceCtorEq, not_false_eq_true, true_and, not_or, not_not] at alone
      obtain ⟨first, last⟩ := alone
      obtain rfl : some t = e := by simpa using first
      cases rest with
      | nil => simp
      | cons u rest =>
          have member : t ∈ u :: rest := by
            have found : (u :: rest).getLast? = some t := by simpa using last
            exact List.mem_of_getLast? found
          exact absurd member (List.nodup_cons.mp nodup).1

theorem FdArmInv.locked (inv : FdArmInv s) {part : FdSection} (lock : s.lock = some part) :
    FdArmInv (s.lockedStep part) := by
  have guarded : s.errHup = false → SectionInv s (some part) := fun healthy =>
    lock ▸ inv.guarded healthy
  -- The critical section ends without a change to the list.
  have leaves : ∀ {t : Tid} {pc : WaiterPc}, (t ∈ s.events → pc.listed = true) →
      (s.errHup = false → s.Covered s.events ∧ s.CacheValid) →
      FdArmInv { s with lock := none, waiter := Function.update s.waiter t pc } := by
    intro t pc listed open_
    refine ⟨inv.nodup, fun u member => ?_, inv.oneshot, by simp, by simp, open_⟩
    by_cases same : u = t
    · subst same
      simpa using listed member
    · simpa [same] using inv.listed u member
  cases part with
  | addEventFd t pc =>
      cases pc with
      | armed => exact leaves (fun _ => rfl) guarded
      | _ => exact inv.arm lock guarded (fun _ armed => armed) rfl (by simp)
  | tcRearm t pc =>
      cases pc with
      | armed =>
          refine leaves (fun member => ?_) guarded
          have listed := inv.listed t member
          simp [inv.rearming t _ lock, WaiterPc.listed] at listed
      | _ => exact inv.arm lock guarded (fun _ armed => armed) rfl (by simp)
  | matched w e =>
      refine ⟨inv.nodup, inv.listed, inv.oneshot, fun t pc equal => ?_, fun part w' equal owner => ?_,
        fun _ => ?_⟩
      · dsimp only [FdState.lockedStep] at equal
        split at equal <;> cases equal
      · refine inv.handling _ w' lock ?_
        rw [← owner, ← Option.some.inj equal]
        split <;> rfl
      · dsimp only [FdState.lockedStep]
        split
        · exact fun used => absurd rfl used
        · next alone =>
          refine ⟨?_, fun used => absurd rfl used⟩
          dsimp only
          rw [erase_of_alone inv.nodup alone]
          exact fun some_ => absurd rfl some_
  | rearm w e pc =>
      cases pc with
      | armed =>
          refine ⟨inv.nodup, inv.listed, inv.oneshot, by simp [FdState.lockedStep],
            fun part w' equal owner => ?_, fun healthy => ?_⟩
          · refine inv.handling _ w' lock ?_
            rw [← owner, ← Option.some.inj equal]
            rfl
          · obtain ⟨covered, valid⟩ := guarded healthy
            refine ⟨covered.congr id (.inl rfl) (fun _ _ => rfl) fun t member => ?_, valid⟩
            cases e with
            | none => exact member
            | some x => exact List.mem_of_mem_erase member
      | _ => exact inv.arm lock guarded (fun _ armed => armed) rfl (by simp)
  | run w e =>
      have fewer : ∀ t ∈ e.elim s.events s.events.erase, t ∈ s.events := by
        intro t member
        cases e with
        | none => exact member
        | some x => exact List.mem_of_mem_erase member
      have left : (s.lockedStep (.run w e)).events = e.elim s.events s.events.erase := by
        cases e <;> rfl
      have flight : s.InFlight → (s.lockedStep (.run w e)).InFlight := by
        rintro ⟨w', em, reported⟩
        refine ⟨w', em, ?_⟩
        have other : w' ≠ w := by
          rintro rfl
          simp [inv.handling _ w' lock rfl] at reported
        simpa [FdState.lockedStep, other] using reported
      refine ⟨?_, fun t member => ?_, fun t member => ?_, by simp [FdState.lockedStep],
        by simp [FdState.lockedStep], fun healthy => ?_⟩
      · rw [left]
        cases e with
        | none => exact inv.nodup
        | some x => exact inv.nodup.erase x
      · exact inv.listed t (fewer t (left ▸ member))
      · exact inv.oneshot t (fewer t (left ▸ member))
      · obtain ⟨covered, valid⟩ := guarded healthy
        refine ⟨covered.congr flight (.inl rfl) (fun _ _ => rfl) fun t member => left ▸ member, ?_⟩
        exact valid.congr flight (.inl rfl) (.inl rfl)

/-- Other steps of threads leave the list, and change the cached mask at most to 0. -/
theorem FdArmInv.outside (inv : FdArmInv s) {t : Tid} {pc : WaiterPc} {cached : Mask}
    (notRearming : s.waiter t ≠ .rearming) (listed : t ∈ s.events → pc.listed = true)
    (cleared : cached = s.cached ∨ cached = 0) :
    FdArmInv { s with cached := cached, waiter := Function.update s.waiter t pc } := by
  refine ⟨inv.nodup, fun u member => ?_, inv.oneshot, fun u pc' equal => ?_, inv.handling,
    fun healthy => (inv.guarded healthy).congr id (.inl rfl) cleared rfl rfl⟩
  · by_cases same : u = t
    · subst same
      simpa using listed member
    · simpa [same] using inv.listed u member
  · have rearming := inv.rearming u pc' equal
    by_cases same : u = t
    · exact absurd (same ▸ rearming) notRearming
    · simpa [same] using rearming

theorem FdArmInv.addEventFd (inv : FdArmInv s) {t : Tid} (mask : Mask) (priority : Bool)
    (outside : s.waiter t = .outside) (unlocked : s.lock = none) :
    FdArmInv { s with
      epEvents := Function.update s.epEvents t (mask ||| EPOLLONESHOT)
      priority := Function.update s.priority t priority
      events := s.events ++ [t]
      lock := some (.addEventFd t .compare)
      waiter := Function.update s.waiter t .adding } := by
  have fresh : t ∉ s.events := by
    intro member
    have listed := inv.listed t member
    simp [outside, WaiterPc.listed] at listed
  have oneshot : mask ||| EPOLLONESHOT ≠ 0 := by
    intro zero
    have bit := congrArg (·.getLsbD 30) zero
    simp [EPOLLONESHOT] at bit
  refine ⟨?_, fun u member => ?_, fun u member => ?_, by simp, ?_, fun healthy => ?_⟩
  · exact List.nodup_append.mpr ⟨inv.nodup, List.nodup_singleton t, by
      rintro u member v single rfl
      exact fresh (List.mem_singleton.mp single ▸ member)⟩
  · by_cases same : u = t
    · simp [same, WaiterPc.listed]
    · simpa [same] using inv.listed u (by simpa [same] using member)
  · by_cases same : u = t
    · simpa [same] using oneshot
    · simpa [same] using inv.oneshot u (by simpa [same] using member)
  · intro part w equal owner
    obtain rfl := Option.some.inj equal
    cases owner
  · have open_ := inv.guarded healthy
    rw [unlocked] at open_
    exact open_.2.congr id (.inl rfl) (.inl rfl)

theorem FdArmInv.tcRearm (inv : FdArmInv s) {t : Tid} (outside : s.waiter t = .outside)
    (unlocked : s.lock = none) :
    FdArmInv { s with
      lock := some (.tcRearm t .compare)
      waiter := Function.update s.waiter t .rearming } := by
  have fresh : t ∉ s.events := by
    intro member
    have listed := inv.listed t member
    simp [outside, WaiterPc.listed] at listed
  refine ⟨inv.nodup, fun u member => ?_, inv.oneshot, fun u pc equal => ?_, ?_, fun healthy => ?_⟩
  · have other : u ≠ t := fun same => fresh (same ▸ member)
    simpa [other] using inv.listed u member
  · obtain ⟨rfl, _⟩ : t = u ∧ ArmPc.compare = pc := by simpa using equal
    simp
  · intro part w equal owner
    obtain rfl := Option.some.inj equal
    cases owner
  · have open_ := inv.guarded healthy
    rw [unlocked] at open_
    exact open_.2

theorem FdArmInv.remove (inv : FdArmInv s) {t : Tid} (unlocked : s.lock = none) :
    FdArmInv { s with
      events := s.events.erase t
      waiter := Function.update s.waiter t .outside } := by
  refine ⟨inv.nodup.erase t, fun u member => ?_, fun u member => ?_, by simp [unlocked],
    by simp [unlocked], fun healthy => ?_⟩
  · have other : u ≠ t := by
      rintro rfl
      exact inv.nodup.not_mem_erase member
    simpa [other] using inv.listed u (List.mem_of_mem_erase member)
  · exact inv.oneshot u (List.mem_of_mem_erase member)
  · have open_ := inv.guarded healthy
    rw [unlocked] at open_
    dsimp only
    rw [unlocked]
    exact ⟨open_.1.congr id (.inl rfl) (fun _ _ => rfl) fun u member =>
      List.mem_of_mem_erase member, open_.2.congr id (.inl rfl) (.inl rfl)⟩

theorem FdArmInv.report (inv : FdArmInv s) {w : WorkerId} (em : Mask) (kernel : Option Mask)
    (idle : s.reporter w = .idle) :
    FdArmInv { s with
      kernel := kernel
      reporter := Function.update s.reporter w (.reported em) } := by
  refine ⟨inv.nodup, inv.listed, inv.oneshot, inv.rearming, fun part w' equal owner => ?_,
    fun healthy => ?_⟩
  · have locked := inv.handling part w' equal owner
    have other : w' ≠ w := by
      rintro rfl
      simp [idle] at locked
    simpa [other] using locked
  · exact (inv.guarded healthy).congr (fun _ => ⟨w, em, by simp⟩) (.inr ⟨w, em, by simp⟩)
      (.inl rfl) rfl rfl

theorem FdArmInv.handle (inv : FdArmInv s) (w : WorkerId) (em : Mask) (here : Tid → Bool) :
    FdArmInv (s.handle w em here) := by
  have owner : ∀ {part : FdSection}, part.worker = some w → ∀ part' w',
      some part = some part' → part'.worker = some w' →
      Function.update s.reporter w .locked w' = .locked := by
    intro part worker part' w' equal worker'
    obtain rfl := Option.some.inj equal
    obtain rfl := Option.some.inj (worker.symm.trans worker')
    simp
  unfold FdState.handle
  dsimp only
  split
  · refine ⟨inv.nodup.filter _, fun t member => ?_, fun t member => ?_, by simp, owner rfl, by simp⟩
    · exact inv.listed t (List.mem_of_mem_filter member)
    · exact inv.oneshot t (List.mem_of_mem_filter member)
  · refine ⟨inv.nodup.filter _, fun t member => ?_, fun t member => ?_, by simp, owner rfl,
      fun _ => trivial⟩
    · exact inv.listed t (List.mem_of_mem_filter member)
    · exact inv.oneshot t (List.mem_of_mem_filter member)

theorem FdArmInv.step (inv : FdArmInv s) {s' : FdState} {a : FdAction}
    (stepped : s.step a = some s') : FdArmInv s' := by
  cases a with
  | addEventFd t mask priority =>
      simp only [FdState.step] at stepped
      split at stepped
      · next free =>
        split at stepped
        · cases stepped
          exact inv
        · cases stepped
          exact inv.addEventFd mask priority free.1 free.2
      · cases stepped
  | tcRearm t =>
      simp only [FdState.step] at stepped
      split at stepped
      · next free =>
        cases stepped
        exact inv.tcRearm free.1 free.2
      · cases stepped
  | locked =>
      obtain ⟨part, lock, rfl⟩ := Option.map_eq_some_iff.mp stepped
      exact inv.locked lock
  | wake t interrupted =>
      simp only [FdState.step] at stepped
      split at stepped
      · next waiting =>
        cases stepped
        refine inv.outside (by simp [waiting.1]) (fun member => ?_) (.inl rfl)
        rcases waiting.2 with rfl | off
        · rfl
        · exact absurd member off
      · cases stepped
  | clear t =>
      simp only [FdState.step] at stepped
      split at stepped
      · next interrupted woken =>
        cases stepped
        refine inv.outside (by simp [woken]) (fun member => ?_) (.inr rfl)
        have listed := inv.listed t member
        rw [woken] at listed
        cases interrupted with
        | true => rfl
        | false => cases listed
      · cases stepped
  | finish t =>
      simp only [FdState.step] at stepped
      split at stepped
      · next cleared =>
        cases stepped
        refine inv.outside (by simp [cleared]) (fun member => ?_) (.inl rfl)
        have listed := inv.listed t member
        rw [cleared] at listed
        cases listed
      · next cleared =>
        split at stepped
        · split at stepped
          · next unlocked =>
            cases stepped
            exact inv.remove unlocked
          · cases stepped
        · next off =>
          cases stepped
          exact inv.outside (by simp [cleared]) (fun member => absurd member off) (.inl rfl)
      · cases stepped
  | report w em =>
      simp only [FdState.step] at stepped
      split at stepped
      · cases stepped
      · split at stepped
        · next idle =>
          cases stepped
          exact inv.report em _ idle.1
        · cases stepped
  | handle w here =>
      simp only [FdState.step] at stepped
      split at stepped
      · split at stepped
        · cases stepped
          exact inv.handle w _ here
        · cases stepped
      · cases stepped

end Steps

theorem FdArmInv.run {s : FdState} (reached : FdReachable s) : FdArmInv s := by
  refine reached.invariant FdArmInv ⟨?_, ?_, ?_, ?_, ?_, fun _ => ⟨?_, ?_⟩⟩ fun inv _ stepped =>
    inv.step stepped
  · exact List.nodup_nil
  · exact fun t member => nomatch member
  · exact fun t member => nomatch member
  · exact fun t pc lock => nomatch lock
  · exact fun part w lock => nomatch lock
  · exact fun waiters => absurd rfl waiters
  · exact fun used => absurd rfl used

/-- While nobody owns the lock of its event list: unless an error has been noted, a `tc_fd`
with waiters has a report in flight, or the kernel watches for what each of them waits for,
and a cached mask that is not 0 is that of the kernel or a report is in flight. -/
theorem no_fd_waiter_stranded {s : FdState} (reached : FdReachable s) (unlocked : s.lock = none)
    (healthy : s.errHup = false) :
    (s.events ≠ [] → s.InFlight ∨
        ∃ mask, s.kernel = some mask ∧ ∀ t ∈ s.events, s.epEvents t &&& mask = s.epEvents t) ∧
      (s.cached ≠ 0 → s.kernel = some s.cached ∨ s.InFlight) := by
  have guarded := (FdArmInv.run reached).guarded healthy
  rw [unlocked] at guarded
  exact guarded

/-- A reader waits, the kernel reports, and before the worker handles the report another
reader waits: `arm` finds the mask unchanged and does not call `epoll_ctl`. -/
theorem no_fd_waiter_stranded_skipped :
    ∃ s, FdReachable s ∧ s.lock = none ∧ s.events = [0, 1] ∧ s.kernel = none ∧ s.cached ≠ 0 ∧
      s.InFlight := by
  obtain ⟨s, reached, shown⟩ := Transition.exists_run FdState.step .initial
    [.addEventFd 0 EPOLLIN false, .locked, .locked, .locked, .locked, .report 0 EPOLLIN,
      .addEventFd 1 EPOLLIN false, .locked, .locked]
    (fun s => s.lock = none ∧ s.errHup = false ∧ s.events = [0, 1] ∧ s.kernel = none ∧
      s.cached ≠ 0) (by decide)
  obtain ⟨unlocked, healthy, events, disarmed, cached⟩ := of_decide_eq_true shown
  have flight := (no_fd_waiter_stranded reached unlocked healthy).2 cached
  rw [disarmed] at flight
  exact ⟨s, reached, unlocked, events, disarmed, cached, flight.resolve_left (by simp)⟩

end Libtcr
