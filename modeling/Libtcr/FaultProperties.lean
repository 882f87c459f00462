import Libtcr.SystemInvariant

/-! In which ways a step can fail, in a state in which the invariant of the system holds.
The others of the assertions and exits of the source are never reached. -/

set_option autoImplicit false

namespace Libtcr

open State

/-- `tc_waitq_finish_wait(wq, e)` does not take the exit for the expected event. -/
def State.unexpected (s : State) (w : WorkerId) (t : Tid) (e : EventId) : Bool :=
  !(s.eventStack t = some e && (s.wokenByEvent w = none || s.wokenByEvent w = some e))

inductive Failure (s : State) : Action → Fault → Prop where
  | otherDomain (w : WorkerId) (scan : Scan) : Failure s (.runImmediate w scan) .assertDomain
  | reportGone (w : WorkerId) (f : FdId) (e : EventId) (report : s.mode w = .report f e)
      (gone : s.life e ≠ .live) : Failure s (.runReported w) .useAfterFree
  | reportMoved (w : WorkerId) (f : FdId) (e : EventId) (fault : Fault)
      (report : s.mode w = .report f e) (moved : s.el e ≠ some (.fd f))
      (live : s.life e = .live) : Failure s (.runReported w) fault
  | exitWaiters (w : WorkerId) : Failure s (.free w) .exitWaitersLeft
  | recursive (w : WorkerId) (n : Nat) (m : MutexId) :
      Failure s (.user w (.lock n m)) .recursiveLock
  | fdEvents (w : WorkerId) (f : FdId) : Failure s (.user w (.unregisterFd f)) .fdEventsLeft
  | finish (w : WorkerId) (t : Tid) (f : Frame) (rest : List Frame) (fault : Fault)
      (on : s.mode w = .thread t) (frames : s.frames t = f :: rest) (finishes : f.finishes = true)
      (unexpected : s.unexpected w t f.e = true)
      (cause : fault = .nullWokenByEvent ∧ s.wokenByEvent w = none ∨
        ∃ x, s.wokenByEvent w = some x ∧
          (fault = .useAfterFree ∧ s.life x ≠ .live ∨ fault = .assertSignal ∧ s.flags x ≠ .signal)) :
      Failure s (.advance w) fault
  | cancelled (w : WorkerId) : Failure s (.die w) .useAfterFree
  | refcnt (w : WorkerId) : Failure s (.die w) .refcntLeft

section Functions

variable {s : State} {w : WorkerId} {t : Tid} {fault : Fault}

theorem runOrQueue_error {e : EventId} (failed : s.runOrQueue w e = .error fault) :
    (∀ k, s.el e = some k → k = .pending (s.tc e) ∨ k = .waiters (.signal (s.signal e)) ∨
      s.flags e = .exiting ∧ k ≠ .immediate) := by
  intro k on
  unfold runOrQueue at failed
  dsimp only at failed
  rw [if_neg (by simp [on])] at failed
  by_cases exiting : s.flags e = .exiting
  · rw [if_pos exiting] at failed
    split at failed
    · next refused =>
      refine .inr (.inr ⟨exiting, ?_⟩)
      rintro rfl
      exact (removeEventFrom_error refused).1 on
    · cases failed
  rw [if_neg exiting] at failed
  split at failed
  · split at failed
    · next refused =>
      rcases moveEvent_error refused with ⟨off, _⟩ | ⟨there, _⟩
      · exact absurd (off.symm.trans on) (by simp)
      · exact .inl (Option.some.inj (on.symm.trans there))
    · cases failed
  · split at failed
    · next refused =>
      split at refused
      · rcases moveEvent_error refused with ⟨off, _⟩ | ⟨there, _⟩
        · exact absurd (off.symm.trans on) (by simp)
        · exact .inr (.inl (Option.some.inj (on.symm.trans there)))
      · cases refused
    · cases failed

private theorem searchImmediate_error {scan : Scan} {es : List EventId}
    (failed : s.searchImmediate w scan es = .error fault) : fault = .assertDomain := by
  induction es with
  | nil => cases failed
  | cons e es ih =>
      unfold searchImmediate at failed
      split at failed
      · exact (Except.error.inj failed).symm
      · split at failed
        · cases failed
        · exact ih failed

private theorem tcScheduler_not_error {f : Frame} (inv : ListInv s) :
    s.tcScheduler w t f ≠ .error fault := by
  intro failed
  unfold tcScheduler at failed
  split at failed
  · next e found =>
    have on := inv.mem_events.mp (pendingEvent_some found).1
    split at failed
    · next refused =>
      split at refused
      · rcases moveEvent_error refused with ⟨off, _⟩ | ⟨there, _⟩
        · simp [on] at off
        · simp [on] at there
      · exact (removeEventFrom_error refused).1 on
    · cases failed
  · cases failed

private theorem finish_failure {f : Frame} {rest : List Frame} (on : s.mode w = .thread t)
    (frames : s.frames t = f :: rest) (finishes : f.finishes = true)
    (failed : s.tcWaitqFinishWait w t f.e = .error fault) : Failure s (.advance w) fault := by
  obtain ⟨unexpected, cause⟩ := tcWaitqFinishWait_error failed
  refine .finish w t f rest fault on frames finishes ?_ cause
  simpa [State.unexpected, or_iff_not_imp_left] using unexpected

private theorem waitqWoke_failure {f : Frame} {rest : List Frame} {loop : Bool}
    (on : s.mode w = .thread t) (frames : s.frames t = f :: rest) (finishes : f.finishes = true)
    (failed : s.waitqWoke w t f loop = .error fault) : Failure s (.advance w) fault := by
  unfold waitqWoke at failed
  split at failed
  · next refused =>
    obtain rfl := Except.error.inj failed
    exact finish_failure on frames finishes refused
  · cases failed
  · cases failed

/-- A call in the loop of `__tc_wait_event` has its event on no list when it begins a turn. -/
theorem prepareFrame_not_error {f : Frame} {rest : List Frame} {wq : Waitq} {next : Pc}
    (thread : ThreadInv t (s.view t)) (frames : s.frames t = f :: rest) (pc : f.pc = .prep) :
    s.prepareFrame w t f wq next ≠ .error fault := by
  intro failed
  have member : f ∈ (s.view t).frames := by simp [State.view, frames]
  obtain ⟨⟨n, auto⟩, _⟩ := thread.frame f member
  have off := (thread.located f member).unplaced (by simp [pc, Pc.unplaced])
  unfold prepareFrame at failed
  split at failed
  · next refused =>
    have still := (tcWaitqPrepareToWait_error refused).1
    simp [State.view, State.el, auto] at off still
    exact still off
  · cases failed

private theorem advanceFrame_failure {f : Frame} {rest : List Frame} (inv : SystemInv s)
    (on : s.mode w = .thread t) (frames : s.frames t = f :: rest)
    (failed : s.advanceFrame w t f = some (.error fault)) : Failure s (.advance w) fault := by
  have thread := inv.thread t
  obtain ⟨call, e, pc, saved⟩ := f
  cases pc with
  | queued => cases failed
  | pushed => exact absurd (Option.some.inj failed) (tcScheduler_not_error inv.lists)
  | asleep => cases call <;> cases failed
  | woke =>
      cases call with
      | yield =>
          obtain ⟨s₁, _, same⟩ := Option.map_eq_some_iff.mp failed
          cases same
      | fd fd =>
          obtain ⟨s₁, _, same⟩ := Option.map_eq_some_iff.mp failed
          cases same
      | waitq k => exact waitqWoke_failure on frames rfl (Option.some.inj failed)
      | thread u => exact waitqWoke_failure on frames rfl (Option.some.inj failed)
      | cond k => exact waitqWoke_failure on frames rfl (Option.some.inj failed)
      | mutex m => exact waitqWoke_failure on frames rfl (Option.some.inj failed)
  | test0 => cases call <;> cases failed
  | prep =>
      cases call with
      | cond k => exact absurd (Option.some.inj failed) (prepareFrame_not_error thread frames rfl)
      | mutex m => exact absurd (Option.some.inj failed) (prepareFrame_not_error thread frames rfl)
      | _ => cases failed
  | test => cases call <;> cases failed
  | holds =>
      simp only [advanceFrame] at failed
      split at failed
      · next refused =>
        obtain rfl := Except.error.inj (Option.some.inj failed)
        exact finish_failure on frames rfl refused
      · cases failed
  | cas0 =>
      cases call with
      | mutex m =>
          simp only [advanceFrame] at failed
          split at failed <;> cases failed
      | _ => cases failed
  | own1 =>
      cases call with
      | mutex m =>
          simp only [advanceFrame] at failed
          split at failed <;> cases failed
      | _ => cases failed
  | cas1 =>
      cases call with
      | mutex m =>
          simp only [advanceFrame] at failed
          split at failed <;> cases failed
      | _ => cases failed
  | own => cases call <;> cases failed
  | cas =>
      cases call with
      | mutex m =>
          simp only [advanceFrame] at failed
          split at failed <;> cases failed
      | _ => cases failed

theorem unused_off (inv : SystemInv s) {e : EventId} (unused : s.life e = .unused) :
    s.el e = none := by
  by_contra on
  have live := inv.live_of_placed on
  simp [unused] at live

private theorem userStep_failure {op : UserOp} (inv : SystemInv s)
    (failed : s.userStep w t op = some (.error fault)) : Failure s (.user w op) fault := by
  have self : ∀ {u : Tid}, s.status u = .created → s.el (.self u) = none := by
    intro u created
    by_contra on
    obtain ⟨k, on⟩ := Option.ne_none_iff_exists'.mp on
    have event := (inv.thread u).selfEvent k (by simpa [State.view, State.el, EventId.owner] using on)
    simp [State.view, created] at event
  cases op with
  | wakeupAll k => cases failed
  | wakeupOne k => cases failed
  | fire g => cases failed
  | subscribe g n =>
      simp only [userStep] at failed
      split at failed
      · next unused =>
        exact absurd (unused_off inv unused) (tcSignalSubscribe_error (Option.some.inj failed)).1
      · cases failed
  | unsubscribe u n =>
      simp only [userStep] at failed
      split at failed <;> cases failed
  | trylock m =>
      simp only [userStep] at failed
      split at failed <;> cases failed
  | unlock m =>
      simp only [userStep, tcMutexUnlock] at failed
      split at failed
      · next held =>
        have mine : s.owner m = some t := by
          simpa [State.view] using (inv.mutex t).holder m (by simpa [State.view] using held)
        rw [if_neg (by simp [mine])] at failed
        cases failed
      · cases failed
  | threadNew u d nr affine =>
      simp only [userStep] at failed
      split at failed <;> cases failed
  | threadPost u =>
      simp only [userStep] at failed
      split at failed
      · next created =>
        split at failed
        · next refused => exact absurd (self created) (addEventCr_error refused).1
        · cases failed
      · cases failed
  | rearm f =>
      simp only [userStep] at failed
      split at failed <;> cases failed
  | unregisterFd f =>
      simp only [userStep, tcFdUnregister] at failed
      split at failed
      · cases failed
      · split at failed
        · cases failed
          exact .fdEvents w f
        · cases failed
  | yield n =>
      simp only [userStep] at failed
      split at failed
      · next unused =>
        split at failed
        · next refused => exact absurd (unused_off inv unused) (addEventCr_error refused).1
        · cases failed
      · cases failed
  | waitFd n f mask priority ctl =>
      simp only [userStep] at failed
      split at failed
      · next ready =>
        split at failed
        · next refused => exact absurd (unused_off inv ready.1) (addEventFd_error refused).1
        · cases failed
        · cases failed
      · cases failed
  | waitqWait n k =>
      simp only [userStep] at failed
      split at failed
      · next unused =>
        split at failed
        · next refused => exact absurd (unused_off inv unused) (tcWaitqPrepareToWait_error refused).1
        · cases failed
      · cases failed
  | threadWait n u d id =>
      simp only [userStep] at failed
      split at failed
      · next unused =>
        split at failed
        · split at failed
          · next refused =>
            exact absurd (unused_off inv unused) (tcWaitqPrepareToWait_error refused).1
          · cases failed
        · cases failed
      · cases failed
  | waitEvent n k =>
      simp only [userStep] at failed
      split at failed <;> cases failed
  | waitEventLoop n k =>
      simp only [userStep] at failed
      split at failed <;> cases failed
  | lock n m =>
      simp only [userStep] at failed
      split at failed
      · split at failed
        · cases failed
          exact .recursive w n m
        · cases failed
      · cases failed
  | dieUnlink =>
      simp only [userStep] at failed
      split at failed <;> cases failed
  | exitMain =>
      simp only [userStep] at failed
      split at failed <;> cases failed

private theorem dieStep_failure (inv : SystemInv s) (on : s.mode w = .thread t)
    (failed : s.dieStep w t = some (.error fault)) : Failure s (.die w) fault := by
  unfold dieStep at failed
  split at failed
  · split at failed
    · split at failed
      · next cancelled =>
        unfold signalCancelPending at cancelled
        split at cancelled
        · cases cancelled
          cases failed
          exact .cancelled w
        · split at cancelled
          · cases cancelled
            cases failed
            exact .cancelled w
          · cases cancelled
      · split at failed
        · cases failed
          exact .refcnt w
        · cases failed
    · cases failed
  · cases failed
  · split at failed
    · next refused =>
      have place : (s.view t).place w = .on (s.wokenByEvent w) := by simp [State.view, on]
      have act := (inv.thread t).executed place
      have off : s.el (.self t) = none := by simpa [State.view, State.el, own, EventId.owner] using act.self
      exact absurd off (addEventCr_error refused).1
    · cases failed
  · cases failed

end Functions

theorem State.act_error {s : State} {a : Action} {fault : Fault} (inv : SystemInv s)
    (failed : s.act a = some (.error fault)) : Failure s a fault := by
  cases a with
  | runImmediate w scan =>
      simp only [act] at failed
      split at failed
      · unfold runImmediate at failed
        dsimp only at failed
        split at failed
        · next refused =>
          obtain rfl := Except.error.inj (Option.some.inj failed)
          obtain rfl := searchImmediate_error refused
          exact .otherDomain w scan
        · cases failed
        · next e searched =>
          have on := inv.lists.mem_events.mp (searchImmediate_mem searched)
          split at failed
          · next refused =>
            have cause := runOrQueue_error refused .immediate on
            simp at cause
          · cases failed
          · split at failed <;> cases failed
      · cases failed
  | report w f em =>
      simp only [act] at failed
      split at failed <;> cases failed
  | runReported w =>
      simp only [act] at failed
      split at failed
      · next f e report =>
        unfold runReported at failed
        split at failed
        · next gone =>
          cases failed
          exact .reportGone w f e report gone
        · next live =>
          have live : s.life e = .live := by simpa using live
          split at failed
          · next refused =>
            refine .reportMoved w f e fault report (fun on => ?_) live
            have cause := runOrQueue_error refused (.fd f) on
            obtain ⟨t, n, rfl, _⟩ := inv.report w f e report
            have flags := ((inv.thread t).flagsAuto n).2
            simp [State.view] at flags cause
            exact flags cause
          · cases failed
      · cases failed
  | enter w =>
      simp only [act] at failed
      split at failed
      · split at failed <;> cases failed
      · cases failed
  | leave w =>
      simp only [act] at failed
      split at failed <;> cases failed
  | free w =>
      simp only [act] at failed
      split at failed
      · split at failed
        · cases failed
        · unfold tcThreadFree at failed
          split at failed
          · cases failed
            exact .exitWaiters w
          · cases failed
      · cases failed
  | aio w k =>
      simp only [act] at failed
      split at failed <;> cases failed
  | user w op =>
      simp only [act] at failed
      split at failed
      · split at failed
        · exact userStep_failure inv failed
        · cases failed
      · cases failed
  | condition w value =>
      simp only [act] at failed
      split at failed
      · split at failed
        · unfold conditionFrame at failed
          split at failed <;> cases failed
        · cases failed
      · cases failed
  | advance w =>
      simp only [act] at failed
      split at failed
      · next t on =>
        split at failed
        · next f rest frames => exact advanceFrame_failure inv on frames failed
        · cases failed
      · cases failed
  | die w =>
      simp only [act] at failed
      split at failed
      · next t on =>
        split at failed
        · exact dieStep_failure inv on failed
        · cases failed
      · cases failed

end Libtcr
