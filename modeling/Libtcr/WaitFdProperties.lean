import Libtcr.CallSteps
import Libtcr.DeadFdProperties

/-! What a call of `tc_wait_fd` that fails leaves behind. -/

set_option autoImplicit false

namespace Libtcr

open State

/-- The mask that `arm` computes when one more waiter with the mask `mask` is on the list. -/
def State.maskWith (s : State) (f : FdId) (mask : Mask) : Mask :=
  calcEpollEventMask s.epEvents (s.events (.fd f)) ||| mask

/-- The `tc_fd`, the caller and its event are as before; and a later call with the same mask does
not go to sleep without a call of `epoll_ctl`. -/
structure FdKept (s s' : State) (t : Tid) (e : EventId) (f : FdId) (mask : Mask) : Prop where
  waiters : s'.events (.fd f) = s.events (.fd f)
  cached : s'.fdEpEvents f = s.fdEpEvents f
  refcnt : s'.refcnt t = s.refcnt t
  el : s'.el e = s.el e
  arms : s'.errHup f = true ∨ s'.maskWith f mask ≠ s'.fdEpEvents f

section Failure

variable {s s' : State} {w : WorkerId} {t : Tid} {e : EventId} {f : FdId} {mask : Mask}
  {flag : EventFlag} {ctl : Bool}

private theorem calcEpollEventMask_append {α : Type} [DecidableEq α] (epEvents : α → Mask)
    {es : List α} {e : α} (new : e ∉ es) (mask : Mask) :
    calcEpollEventMask (Function.update epEvents e mask) (es ++ [e]) =
      calcEpollEventMask epEvents es ||| mask := by
  have old : calcEpollEventMask (Function.update epEvents e mask) es =
      calcEpollEventMask epEvents es := by
    apply List.foldl_ext
    intro em x member
    have other : x ≠ e := fun same => new (same ▸ member)
    rw [Function.update_of_ne other]
  unfold calcEpollEventMask at old ⊢
  rw [List.foldl_append, old]
  simp

private def queued (s : State) (t : Tid) (e : EventId) (f : FdId) (mask : Mask) (flag : EventFlag) :
    State :=
  { s.attachEvent e (.fd f) t with
    epEvents := Function.update s.epEvents e mask
    flags := Function.update s.flags e flag
    fdEpEvents := Function.update s.fdEpEvents f (s.maskWith f mask) }

private theorem State.addEventFd_eq (lists : s.lists.WellFormed) (free : s.el e = none)
    (alive : s.errHup f = false) :
    s.addEventFd t e f mask flag ctl =
      if s.maskWith f mask = s.fdEpEvents f ∨ ctl = true then .ok (true, queued s t e f mask flag)
      else .ok (false, (queued s t e f mask flag).detachEvent e) := by
  have new : e ∉ s.events (.fd f) := fun member => by
    have on : s.el e = some (.fd f) := (lists.mem_iff _ _).mp member
    simp [free] at on
  have needed : calcEpollEventMask (Function.update s.epEvents e mask)
      ((s.lists.pushBack e (.fd f)).elems (.fd f)) = s.maskWith f mask := by
    rw [IntrusiveLists.pushBack_elems_self]
    exact calcEpollEventMask_append s.epEvents new mask
  have added : { s with
      epEvents := Function.update s.epEvents e mask
      flags := Function.update s.flags e flag }.addEvent e (.fd f) t = .ok { s.attachEvent e (.fd f) t with
        epEvents := Function.update s.epEvents e mask
        flags := Function.update s.flags e flag } := if_pos free
  have removed : (queued s t e f mask flag).removeEventFrom e (.fd f) =
      .ok ((queued s t e f mask flag).detachEvent e) := if_pos (Function.update_self _ _ _)
  unfold addEventFd
  rw [if_neg (by simp [alive]), added]
  simp only [arm, State.events, attachEvent, needed]
  split
  · rfl
  · erw [removed]

private theorem SystemInv.waitFd_step {n : Nat} {priority : Bool} (inv : SystemInv s)
    (on : s.mode w = .thread t)
    (stepped : s.step (.user w (.waitFd n f mask priority ctl)) = some s') :
    ∃ flag, s.life (.auto t n) = .unused ∧
      s' = if s.errHup f = true then
          (s.tcEventInit (.auto t n) (s.workerDomain w)).endEvent (.auto t n) .failed
        else if s.maskWith f (mask ||| EPOLLONESHOT) = s.fdEpEvents f ∨ ctl = true then
          (queued (s.tcEventInit (.auto t n) (s.workerDomain w)) t (.auto t n) f
            (mask ||| EPOLLONESHOT) flag).pushFrame t (.fd f) (.auto t n) .queued (s.eventStack t)
        else ((queued (s.tcEventInit (.auto t n) (s.workerDomain w)) t (.auto t n) f
            (mask ||| EPOLLONESHOT) flag).detachEvent (.auto t n)).endEvent (.auto t n) .failed := by
  have running := (State.step_cases stepped).1
  unfold State.step at stepped
  rw [if_pos running] at stepped
  simp only [act, on] at stepped
  by_cases code : s.inUserCode t = true
  · by_cases ready : s.life (.auto t n) = .unused ∧ s.fdLock f = false
    · simp only [if_pos code, userStep, if_pos ready] at stepped
      refine ⟨if priority then .priority else .ready, ready.1, ?_⟩
      by_cases dead : s.errHup f = true
      · rw [addEventFd_dead (s := s.tcEventInit _ _) dead] at stepped
        rw [if_pos dead]
        exact (Option.some.inj stepped).symm
      · have free : (s.tcEventInit (.auto t n) (s.workerDomain w)).el (.auto t n) = none :=
          unused_off inv ready.1
        have added : (s.tcEventInit (.auto t n) (s.workerDomain w)).addEventFd t (.auto t n) f
            (mask ||| EPOLLONESHOT) (if priority then .priority else .ready) ctl =
            if s.maskWith f (mask ||| EPOLLONESHOT) = s.fdEpEvents f ∨ ctl = true then _ else _ :=
          State.addEventFd_eq inv.lists.lists free (Bool.eq_false_iff.mpr dead)
        rw [if_neg dead]
        by_cases armed : s.maskWith f (mask ||| EPOLLONESHOT) = s.fdEpEvents f ∨ ctl = true
        · rw [if_pos armed] at added ⊢
          rw [added] at stepped
          exact (Option.some.inj stepped).symm
        · rw [if_neg armed] at added ⊢
          rw [added] at stepped
          exact (Option.some.inj stepped).symm
    · simp [userStep, if_neg ready] at stepped
  · simp [if_neg code] at stepped

/-- A call of `tc_wait_fd` that fails leaves the `tc_fd` as it was if and only if it is not
`epoll_ctl` that fails. -/
theorem failed_wait_fd_kept_iff {workers : Nat} {domainOf : WorkerId → DomainId}
    {failed : FdId → Bool} {n : Nat} {priority : Bool}
    (reached : Transition.Run State.step Transition.always (.registered workers domainOf failed) s)
    (on : s.mode w = .thread t)
    (stepped : s.step (.user w (.waitFd n f mask priority ctl)) = some s') :
    (s'.result (.auto t n) = some .failed →
      FdKept s s' t (.auto t n) f (mask ||| EPOLLONESHOT)) ↔
    s.errHup f = true ∨ s.maskWith f (mask ||| EPOLLONESHOT) = s.fdEpEvents f ∨ ctl = true := by
  have inv := (SystemInv.registered workers domainOf failed).later reached
  obtain ⟨flag, unused, after⟩ := inv.waitFd_step on stepped
  have free : (s.tcEventInit (.auto t n) (s.workerDomain w)).el (.auto t n) = none :=
    unused_off inv unused
  by_cases dead : s.errHup f = true
  · rw [if_pos dead] at after
    subst after
    exact iff_of_true (fun _ => ⟨rfl, rfl, rfl, rfl, .inl dead⟩) (.inl dead)
  · rw [if_neg dead] at after
    by_cases armed : s.maskWith f (mask ||| EPOLLONESHOT) = s.fdEpEvents f ∨ ctl = true
    · rw [if_pos armed] at after
      refine iff_of_true (fun refused => ?_) (.inr armed)
      -- the call sleeps, so it has not returned
      have none := (inv.step stepped).result_none (t := t)
        (f := ⟨.fd f, .auto t n, .queued, s.eventStack t⟩) (by subst after; simp [pushFrame])
      simp [none] at refused
    · rw [if_neg armed] at after
      refine iff_of_false (fun kept => ?_) (not_or.mpr ⟨dead, armed⟩)
      have cached := (kept (by subst after; simp [endEvent])).cached
      subst after
      have same : (s.tcEventInit (.auto t n) (s.workerDomain w)).maskWith f (mask ||| EPOLLONESHOT) =
          s.fdEpEvents f := by
        simpa [endEvent, detachEvent, unlinkEvent, queued] using cached
      exact armed (.inl same)

end Failure

/-- A call for a `tc_fd` whose `err_hup` is set. -/
theorem failed_wait_fd_kept_dead : ∃ s s',
    Transition.Run State.step Transition.always (.registered 1 (fun _ => 0) (fun _ => true)) s ∧
    s.step (.user 0 (.waitFd 0 7 EPOLLIN false false)) = some s' ∧
    s'.result (.auto 0 0) = some .failed ∧
    FdKept s s' 0 (.auto 0 0) 7 (EPOLLIN ||| EPOLLONESHOT) := by
  have on : (State.registered 1 (fun _ => 0) (fun _ => true)).mode 0 = .thread 0 := rfl
  have stepped : (State.registered 1 (fun _ => 0) (fun _ => true)).step
      (.user 0 (.waitFd 0 7 EPOLLIN false false)) = some _ := rfl
  have refused := (failed_wait_fd_kept_iff .refl on stepped).mpr (.inl rfl)
  exact ⟨_, _, .refl, stepped, by decide, refused (by decide)⟩

/-- `epoll_ctl` fails; the next call with the same mask does not call it any more. -/
theorem failed_wait_fd_not_kept : ∃ s s', Reachable 1 (fun _ => 0) s ∧
    s.step (.user 0 (.waitFd 0 7 EPOLLIN false false)) = some s' ∧
    s'.result (.auto 0 0) = some .failed ∧ s.fdEpEvents 7 = 0 ∧
    s'.fdEpEvents 7 = EPOLLIN ||| EPOLLONESHOT ∧
    s'.maskWith 7 (EPOLLIN ||| EPOLLONESHOT) = s'.fdEpEvents 7 ∧
    ¬ FdKept s s' 0 (.auto 0 0) 7 (EPOLLIN ||| EPOLLONESHOT) := by
  refine ⟨.initial 1 (fun _ => 0), _, .refl, rfl, by decide, by decide, by decide, by decide, ?_⟩
  intro kept
  exact absurd kept.cached (by decide)

end Libtcr
