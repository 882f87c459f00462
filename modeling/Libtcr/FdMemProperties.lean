import Libtcr.FdMem
import Libtcr.DeadFdProperties

/-! When a `tc_fd` in memory of the application is no longer used. -/

set_option autoImplicit false

namespace Libtcr

open State

/-- When `tc_unregister_fd_mem` locks the event list, no worker has got the `tc_fd` from
`epoll_wait` without having locked its event list. -/
def FdMemState.lockedBefore (s : FdMemState) : FdMemAction → Bool
  | .system (.user _ (.unregisterFd f)) => s.fetched.all fun x => x.2.1 ≠ f
  | _ => true

structure FdMemInv (s : FdMemState) : Prop where
  sys : SystemInv s.sys
  fds : ∀ f, DeadFdInv s.sys f
  fetched : ∀ x ∈ s.fetched, s.stage x.2.1 ≠ .unregistered
  reports : ∀ w f e, s.sys.mode w = .report f e → s.stage f ≠ .unregistered

private theorem FdMemInv.quiescent {s : FdMemState} (inv : FdMemInv s) : s.Quiescent := by
  intro f gone w
  constructor
  · intro em member
    exact inv.fetched _ member gone
  · intro e report
    exact inv.reports w f e report gone

section Steps

variable {s s' : FdMemState} {a : Action} {sys : State} {w : WorkerId}

theorem FdMemInv.fault (inv : FdMemInv s) (fault : Fault) :
    FdMemInv { s with sys := { s.sys with fault := some fault } } where
  sys := inv.sys.fault _
  fds f := { inv.fds f with }
  fetched := inv.fetched
  reports := inv.reports

theorem FdMemInv.act (inv : FdMemInv s) (running : s.sys.fault = none)
    (reports : ∀ w f em, a = .report w f em → (w, f, em) ∈ s.fetched)
    (done : s.sys.act a = some (.ok sys)) {fetched : List (WorkerId × FdId × Mask)}
    (fewer : ∀ x ∈ fetched, x ∈ s.fetched) :
    FdMemInv { s with sys := sys, fetched := fetched } where
  sys := (act_ok done).systemInv inv.sys
  fds f := (inv.fds f).step inv.sys (step_of_act running done)
  fetched x member := inv.fetched x (fewer x member)
  reports w f e report := by
    rcases (act_ok done).mode_report inv.sys.lists report with before | ⟨⟨em, rfl⟩, _⟩
    · exact inv.reports w f e before
    · exact inv.fetched (w, f, em) (reports w f em rfl)

private theorem FdMemInv.unregister {f : FdId} (inv : FdMemInv s)
    (nobody : ∀ x ∈ s.fetched, x.2.1 ≠ f) (unlocked : s.sys.fdLock f = false)
    (deleting : Tid → Option FdId) :
    FdMemInv { s with
      stage := Function.update s.stage f .unregistered
      deleting := deleting } where
  sys := inv.sys
  fds := inv.fds
  fetched x member := by
    dsimp only
    rw [Function.update_of_ne (nobody x member)]
    exact inv.fetched x member
  reports w g e report := by
    have other : g ≠ f := by
      rintro rfl
      have locked := (inv.fds g).lock w e report
      rw [unlocked] at locked
      cases locked
    dsimp only
    rw [Function.update_of_ne other]
    exact inv.reports w g e report

theorem FdMemInv.after (inv : FdMemInv s) (running : s.sys.fault = none) (allowed : s.allows a = true)
    (before : s.lockedBefore (.system a) = true) (done : s.sys.act a = some (.ok sys)) :
    FdMemInv (s.after sys a) := by
  have plain : (∀ w f em, a ≠ .report w f em) → FdMemInv { s with sys := sys } := fun other =>
    inv.act running (fun w f em equal => absurd equal (other w f em)) done fun _ member => member
  cases a with
  | report w f em =>
      refine inv.act running (fun w' f' em' equal => ?_) done fun _ member => List.mem_of_mem_erase member
      cases equal
      exact of_decide_eq_true allowed
  | user w op =>
      cases op with
      | unregisterFd f =>
          have nobody : ∀ x ∈ s.fetched, x.2.1 ≠ f := by
            simpa [FdMemState.lockedBefore] using before
          simp only [FdMemState.after]
          split
          · next t _ =>
            have gone := inv.unregister nobody (act_unregisterFd done).1 (Function.update s.deleting t none)
            exact gone.act running (by simp) done fun _ member => member
          · exact plain (by simp)
      | _ => exact plain (by simp)
  | _ => exact plain (by simp)

theorem FdMemInv.step {l : FdMemAction} (inv : FdMemInv s) (before : s.lockedBefore l = true)
    (stepped : s.step l = some s') : FdMemInv s' := by
  have restage : ∀ {f : FdId} {stage : FdStage} {deleting : Tid → Option FdId},
      stage ≠ .unregistered → FdMemInv { s with
        stage := Function.update s.stage f stage
        deleting := deleting } := by
    intro f stage deleting other
    have kept : ∀ {g}, s.stage g ≠ .unregistered →
        Function.update s.stage f stage g ≠ .unregistered := by
      intro g old
      by_cases same : g = f
      · rw [same, Function.update_self]
        exact other
      · rwa [Function.update_of_ne same]
    exact ⟨inv.sys, inv.fds, fun x member => kept (inv.fetched x member), fun w g e report =>
      kept (inv.reports w g e report)⟩
  cases l with
  | system a =>
      simp only [FdMemState.step] at stepped
      split at stepped
      · next guard =>
        obtain ⟨running, allowed⟩ := guard
        obtain ⟨sys, done, rfl⟩ | ⟨fault, _, rfl⟩ := State.call_cases stepped
        · exact inv.after running allowed before done
        · exact inv.fault fault
      · cases stepped
  | registerFdMem w f =>
      simp only [FdMemState.step] at stepped
      split at stepped
      · cases stepped
        exact restage (by simp)
      · cases stepped
  | epollWait w f em =>
      simp only [FdMemState.step] at stepped
      split at stepped
      · next guard =>
        cases stepped
        refine ⟨inv.sys, inv.fds, fun x member => ?_, inv.reports⟩
        rcases List.mem_cons.mp member with rfl | old
        · simp [guard.2.2]
        · exact inv.fetched x old
      · cases stepped
  | epollCtlDel w f =>
      simp only [FdMemState.step] at stepped
      split at stepped
      · split at stepped
        · cases stepped
          exact restage (by simp)
        · cases stepped
      · cases stepped

end Steps

theorem FdMemInv.initial (workers : Nat) (domainOf : WorkerId → DomainId) :
    FdMemInv (.initial workers domainOf) where
  sys := .initial workers domainOf
  fds f := .registered workers domainOf (fun _ => false) f
  fetched x member := by simp [FdMemState.initial] at member
  reports w f e report := by simp [FdMemState.initial]

/-- Where every worker that has got the `tc_fd` has locked its event list before
`tc_unregister_fd_mem` does, no worker uses it after `tc_unregister_fd_mem` has returned. -/
theorem fd_mem_quiescent {workers : Nat} {domainOf : WorkerId → DomainId} {s : FdMemState}
    (run : FdMemRun workers domainOf (fun s l => s.lockedBefore l = true) s) : s.Quiescent := by
  have inv : FdMemInv s := run.invariant FdMemInv (.initial workers domainOf)
    fun inv before stepped => inv.step before stepped
  exact inv.quiescent

/-- Main thread 1 waits for something else, so that worker 1 comes to `epoll_wait`. -/
def secondSleeps : List FdMemAction :=
  [.registerFdMem 0 0, .system (.user 1 (.waitqWait 0 0)), .system (.advance 1), .system (.leave 1)]

/-- Worker 1 has handled a report when the `tc_fd` is unregistered. -/
theorem fd_mem_quiescent_handled : ∃ s,
    FdMemRun 2 (fun _ => 0) (fun s l => s.lockedBefore l = true) s ∧ s.stage 0 = .unregistered ∧
      s.Quiescent := by
  obtain ⟨s, run, ended⟩ := Transition.exists_run
    (Transition.guarded FdMemState.step FdMemState.lockedBefore) (.initial 2 fun _ => 0)
    (secondSleeps ++ [.epollWait 1 0 EPOLLIN, .system (.report 1 0 EPOLLIN), .epollCtlDel 0 0,
      .system (.user 0 (.unregisterFd 0))]) (fun s => s.stage 0 = .unregistered) (by decide)
  exact ⟨s, run.of_guarded, of_decide_eq_true ended, fd_mem_quiescent run.of_guarded⟩

/-- Worker 1 has got the `tc_fd` from `epoll_wait` and has not yet locked its event list. -/
theorem fd_mem_not_quiescent : ∃ s, FdMemRun 2 (fun _ => 0) Transition.always s ∧
    s.stage 0 = .unregistered ∧ (1, 0, EPOLLIN) ∈ s.fetched ∧ ¬ s.Quiescent := by
  obtain ⟨s, run, ended⟩ := Transition.exists_run FdMemState.step (.initial 2 fun _ => 0)
    (secondSleeps ++ [.epollWait 1 0 EPOLLIN, .epollCtlDel 0 0, .system (.user 0 (.unregisterFd 0))])
    (fun s => s.stage 0 = .unregistered && decide ((1, 0, EPOLLIN) ∈ s.fetched)) (by decide)
  simp only [Bool.and_eq_true, decide_eq_true_eq] at ended
  exact ⟨s, run, ended.1, ended.2, fun quiescent => (quiescent 0 ended.1 1).1 EPOLLIN ended.2⟩

end Libtcr
