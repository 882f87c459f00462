import Libtcr.AlertProperties

/-! What `run_immediate` returns, against what its last pass has done. The passes are those of the
workers in `scheduler_part2`; histories record for each worker what its current pass does. -/

set_option autoImplicit false

namespace Libtcr

structure PassState where
  base : AlertState
  -- history: a call of `_run_immediate` in the current pass has entered a thread
  entered : WorkerId → Bool
  -- history: the current pass has left out the first two searches
  skipped : WorkerId → Bool
  -- history: the last search of `ANY_WORKER` has found no event of the domain
  clear : WorkerId → Bool

def Mode.enters : Mode → Bool
  | .enter _ => true
  | _ => false

namespace State

def hasImmediate (s : State) (w : WorkerId) : Bool :=
  (s.events .immediate).any fun e => s.domain e = s.workerDomain w

end State

namespace PassState

def initial (workers : Nat) (domainOf : WorkerId → DomainId) : PassState where
  base := .initial workers domainOf
  entered _ := false
  skipped _ := false
  clear _ := false

def note (s : PassState) (nrOfWorkers : DomainId → Int) (base : AlertState) :
    AlertAction → PassState
  | .turn w =>
    match s.base.pc w with
    | .turn (_ + 1) => { s with
        base := base
        entered := Function.update s.entered w false
        skipped := Function.update s.skipped w
          !decide (s.base.sys.immediateCount < nrOfWorkers (s.base.sys.workerDomain w) * 2) }
    | _ => { s with base := base }
  | .act (.runImmediate w scan) => { s with
      base := base
      entered := Function.update s.entered w (s.entered w || (base.sys.mode w).enters)
      clear := if scan = .any then Function.update s.clear w !s.base.sys.hasImmediate w
        else s.clear }
  | _ => { s with base := base }

def step (nrOfWorkers : DomainId → Int) (s : PassState) (l : AlertAction) : Option PassState :=
  (s.base.step nrOfWorkers l).map fun base => s.note nrOfWorkers base l

/-- A fourth pass with the search of `ANY_WORKER` alone does not find `common.immediate` without an
event of its domain. -/
def findsWork (s : PassState) : AlertAction → Bool
  | .act (.runImmediate w .any) =>
    match s.base.pc w with
    | .search 0 .any _ => !s.skipped w || s.base.sys.hasImmediate w
    | _ => true
  | _ => true

end PassState

/-! ## What a pass knows -/

/-- The worker is at none of the points from which `run_immediate` can return. -/
def SchedPc.between : SchedPc → Bool
  | .turn (_ + 1) | .blocked | .rearm | .arm | .aio => true
  | _ => false

def PassOk (entered skipped clear : Bool) : SchedPc → Prop
  | .turn i => i = 0 → entered = true
  | .search _ .own _ => entered = false ∧ skipped = false
  | .search _ .free did => did = entered ∧ skipped = false
  | .search _ .any did => did = (entered || skipped) ∧ (skipped = true → entered = false)
  | .poll haveWork => haveWork = entered ∧ (haveWork = false → clear = true)
  | _ => True

theorem PassOk.between {entered skipped clear : Bool} {pc : SchedPc} (idle : pc.between = true) :
    PassOk entered skipped clear pc := by
  cases pc with
  | turn i => cases i <;> simp_all [SchedPc.between, PassOk]
  | search i scan did => cases idle
  | poll haveWork => cases idle
  | blocked => trivial
  | rearm => trivial
  | arm => trivial
  | aio => trivial

def PassInv (s : PassState) : Prop :=
  ∀ w, PassOk (s.entered w) (s.skipped w) (s.clear w) (s.base.pc w)

section Steps

variable {nrOfWorkers : DomainId → Int} {s s' : PassState} {base : AlertState} {w : WorkerId}

private theorem State.not_hasImmediate_of_searched {s : State} {w : WorkerId}
    (searched : s.searchImmediate w .any (s.events .immediate) = .ok none) :
    s.hasImmediate w = false := by
  apply List.any_eq_false.mpr
  intro e member
  have unwanted := searchImmediate_none searched e member
  simpa [State.wanted] using unwanted

theorem PassOk.after {entered skipped clear clear' : Bool} {i : Nat} {scan : State.Scan}
    {did found : Bool} (ok : PassOk entered skipped clear (.search i scan did))
    (works : found = false → scan = .any → i = 0 → skipped = false)
    (nothing : found = false → scan = .any → clear' = true) :
    PassOk (entered || found) skipped clear' (.after i scan did found) := by
  cases scan with
  | own =>
      obtain ⟨rfl, rfl⟩ := ok
      exact ⟨rfl, rfl⟩
  | free =>
      obtain ⟨rfl, rfl⟩ := ok
      refine ⟨?_, by simp⟩
      cases did <;> cases found <;> rfl
  | any =>
      obtain ⟨rfl, apart⟩ := ok
      unfold SchedPc.after
      cases found with
      | true => exact fun _ => by simp
      | false =>
          cases entered with
          | true => exact fun _ => rfl
          | false =>
              cases skipped with
              | true => exact fun last => nomatch works rfl rfl last
              | false => exact ⟨rfl, fun _ => nothing rfl rfl⟩

private theorem pc_of_ready {s : AlertState} {scan : State.Scan}
    (ready : s.ready (.runImmediate w scan) = true) : ∃ i did, s.pc w = .search i scan did := by
  simp only [AlertState.ready] at ready
  split at ready
  · next i scan' did pc => exact ⟨i, did, by rw [pc, of_decide_eq_true ready]⟩
  · cases ready

theorem PassOk.search {scan : State.Scan} {sys : State} (ready : s.base.ready (.runImmediate w scan) = true)
    (done : s.base.sys.act (.runImmediate w scan) = some (.ok sys))
    (allowed : s.findsWork (.act (.runImmediate w scan)) = true)
    (ok : PassOk (s.entered w) (s.skipped w) (s.clear w) (s.base.pc w)) :
    PassOk (s.entered w || (sys.mode w).enters) (s.skipped w)
      (if scan = .any then !s.base.sys.hasImmediate w else s.clear w)
      (s.base.pcAfter (.runImmediate w scan) sys) := by
  obtain ⟨i, did, pc⟩ := pc_of_ready ready
  rw [pc] at ok
  obtain ⟨sched, ran⟩ := act_runImmediate done
  -- a search that goes on stays where it is
  have stays : ∀ clear, PassOk (s.entered w || false) (s.skipped w) clear (.search i scan did) := by
    intro clear
    rw [Bool.or_false]
    cases scan <;> exact ok
  cases ran with
  | nothing searched =>
      have mode : (s.base.sys.served w none).mode w = .sched := sched
      simp only [AlertState.pcAfter, pc, searched, mode, Mode.enters]
      refine ok.after ?_ ?_
      · rintro _ rfl rfl
        have empty := State.not_hasImmediate_of_searched searched
        simpa [PassState.findsWork, pc, empty] using allowed
      · rintro _ rfl
        simp [State.not_hasImmediate_of_searched searched]
  | queued x s₁ searched ran =>
      have mode : sys.mode w = .sched := (congrFun (runOrQueue_mode ran) w).trans sched
      simp only [AlertState.pcAfter, pc, searched, mode, Mode.enters]
      exact stays _
  | reaped x t s₁ searched ran =>
      simp only [AlertState.pcAfter, pc, searched, Function.update_self, Mode.enters]
      exact stays _
  | chosen x t s₁ searched ran =>
      simp only [AlertState.pcAfter, pc, searched, Function.update_self, Mode.enters]
      exact ok.after (by simp) (by simp)

theorem PassInv.goes (inv : PassInv s) {pc : SchedPc} (moved : base.pc = Function.update s.base.pc w pc)
    (idle : pc.between = true) : PassInv { s with base := base } := by
  intro v
  simp only [moved]
  by_cases same : v = w
  · rw [same, Function.update_self]
    exact .between idle
  · rw [Function.update_of_ne same]
    exact inv v

private theorem AlertState.epoll_between {s s' : AlertState} {result : EpollResult}
    (done : s.epoll w result = some s') :
    ∃ pc, s'.pc = Function.update s.pc w pc ∧ pc.between = true := by
  unfold AlertState.epoll at done
  split at done
  · cases done; exact ⟨.turn 4, rfl, rfl⟩
  · cases done; exact ⟨.blocked, rfl, rfl⟩
  · cases done; exact ⟨.turn 4, rfl, rfl⟩
  · cases done; exact ⟨.turn 4, rfl, rfl⟩
  · cases done; exact ⟨.aio, rfl, rfl⟩
  · cases done; exact ⟨.aio, rfl, rfl⟩
  · split at done
    · cases done; exact ⟨.rearm, rfl, rfl⟩
    · cases done
  · split at done
    · cases done; exact ⟨.rearm, rfl, rfl⟩
    · cases done
  · cases done

theorem PassInv.turn (inv : PassInv s) (done : s.base.turn nrOfWorkers w = some base) :
    PassInv (s.note nrOfWorkers base (.turn w)) := by
  intro v
  have own := inv w
  unfold AlertState.turn at done
  split at done
  · next pc =>
    cases done
    rw [pc] at own
    simp only [PassState.note, pc, AlertState.setPc]
    by_cases same : v = w
    · subst same
      rw [Function.update_self]
      exact ⟨(own rfl).symm, by simp⟩
    · rw [Function.update_of_ne same]
      exact inv v
  · next i pc =>
    by_cases same : v = w
    · subst same
      split at done
      · next few =>
        cases done
        simp [PassState.note, pc, AlertState.setPc, few, PassOk]
      · next many =>
        cases done
        simp [PassState.note, pc, AlertState.setPc, many, PassOk]
    · have others : ∀ pc', base = s.base.setPc w pc' →
          PassOk (s.entered v) (s.skipped v) (s.clear v) (base.pc v) := by
        rintro pc' rfl
        simpa [AlertState.setPc, same] using inv v
      simp only [PassState.note, pc, Function.update_of_ne same]
      split at done
      · exact others _ (Option.some.inj done).symm
      · exact others _ (Option.some.inj done).symm
  · cases done

theorem PassInv.act (inv : PassInv s) {a : Action} {sys : State} (ready : s.base.ready a = true)
    (done : s.base.sys.act a = some (.ok sys)) (allowed : s.findsWork (.act a) = true) :
    PassInv (s.note nrOfWorkers (s.base.acted a sys) (.act a)) := by
  cases a with
  | runImmediate w scan =>
      intro v
      simp only [PassState.note, AlertState.acted]
      by_cases same : v = w
      · subst same
        have searched := PassOk.search ready done allowed (inv v)
        cases scan <;> simpa [Action.worker] using searched
      · have kept := inv v
        cases scan <;> simpa [Action.worker, same] using kept
  | report w f em => exact inv.goes rfl rfl
  | _ =>
      intro v
      simpa [PassState.note, AlertState.acted, AlertState.pcAfter] using inv v

theorem PassInv.failed (inv : PassInv s) {a : Action} {fault : Fault} (ready : s.base.ready a = true)
    (done : s.base.sys.act a = some (.error fault)) :
    PassInv (s.note nrOfWorkers { s.base with sys := { s.base.sys with fault := some fault } } (.act a)) := by
  cases a with
  | runImmediate w scan =>
      obtain ⟨i, did, pc⟩ := pc_of_ready ready
      have sched : s.base.sys.mode w = .sched := by
        simp only [State.act] at done
        split at done
        · assumption
        · cases done
      intro v
      have kept := inv v
      by_cases same : v = w
      · subst same
        rw [pc] at kept
        simp only [PassState.note, sched, Mode.enters, Bool.or_false, Function.update_self, pc]
        cases scan <;> exact kept
      · cases scan <;> simpa [PassState.note, same] using kept
  | _ => exact inv

theorem PassInv.step (inv : PassInv s) {l : AlertAction} (allowed : s.findsWork l = true)
    (stepped : s.step nrOfWorkers l = some s') : PassInv s' := by
  obtain ⟨base, done, rfl⟩ := Option.map_eq_some_iff.mp stepped
  cases l with
  | act a =>
      simp only [AlertState.step] at done
      split at done
      · next may =>
        obtain ⟨sys, acted, rfl⟩ | ⟨fault, failed, rfl⟩ := State.call_cases done
        · exact inv.act may.2.2 acted allowed
        · exact inv.failed may.2.2 failed
      · cases done
  | iwi w =>
      simp only [AlertState.step] at done
      split at done
      · split at done
        · cases done
          exact inv
        · cases done
      · cases done
  | turn w =>
      simp only [AlertState.step] at done
      split at done
      · exact inv.turn done
      · cases done
  | epoll w result =>
      simp only [AlertState.step] at done
      split at done
      · obtain ⟨pc, moved, idle⟩ := AlertState.epoll_between done
        exact inv.goes moved idle
      · cases done
  | read w =>
      simp only [AlertState.step] at done
      split at done
      · cases done
        exact inv.goes rfl rfl
      · cases done
  | arm w =>
      simp only [AlertState.step] at done
      split at done
      · cases done
        exact inv.goes rfl rfl
      · cases done
  | handled w =>
      simp only [AlertState.step] at done
      split at done
      · cases done
        exact inv.goes rfl rfl
      · cases done

theorem PassInv.initial (workers : Nat) (domainOf : WorkerId → DomainId) :
    PassInv (.initial workers domainOf) :=
  fun _ => .between rfl

/-- `run_immediate` returns non-zero if and only if its last pass has entered a thread, and it
returns 0 only after a search of `ANY_WORKER` without an event of the domain. -/
theorem run_immediate_reports {workers : Nat} {domainOf : WorkerId → DomainId}
    (run : Transition.Run (PassState.step nrOfWorkers) (fun s l => s.findsWork l = true)
      (.initial workers domainOf) s) {haveWork : Bool} (returned : s.base.pc w = .poll haveWork) :
    (haveWork = true ↔ s.entered w = true) ∧ (haveWork = false → s.clear w = true) := by
  have inv := run.invariant PassInv (.initial workers domainOf)
    fun inv allowed stepped => inv.step allowed stepped
  have ok := inv w
  rw [returned] at ok
  exact ⟨by rw [ok.1], ok.2⟩

end Steps

set_option maxRecDepth 20000 in
/-- The first pass enters the main thread, which has called `tc_sched_yield` and then waits; the
second pass finds nothing. -/
theorem run_immediate_reports_idle : ∃ s, Transition.Run (PassState.step fun _ => 1)
    (fun s l => s.findsWork l = true) (.initial 1 fun _ => 0) s ∧ s.base.pc 0 = .poll false ∧
    s.entered 0 = false ∧ s.clear 0 = true := by
  obtain ⟨s, run, shown⟩ := Transition.exists_run
    (Transition.guarded (PassState.step fun _ => 1) PassState.findsWork) (.initial 1 fun _ => 0)
    ([.act (.user 0 (.yield 0)), .act (.advance 0), .act (.advance 0), .act (.leave 0), .turn 0,
      .act (.runImmediate 0 .own), .act (.enter 0), .act (.advance 0),
      .act (.user 0 (.waitqWait 1 0)), .act (.advance 0), .act (.leave 0),
      .act (.runImmediate 0 .free), .act (.runImmediate 0 .any)] ++ findsNothing 0)
    (fun s => s.base.pc 0 = .poll false) (by decide)
  have returned := of_decide_eq_true shown
  have reported := run_immediate_reports run.of_guarded returned
  have idle : s.entered 0 = false := by simpa using reported.1
  exact ⟨s, run.of_guarded, returned, idle, reported.2 rfl⟩

/-- The main thread of domain 1 starts two threads of its domain; that of domain 0 waits. -/
def othersQueued : List AlertAction :=
  [.act (.user 1 (.threadNew 2 1 1 false)), .act (.user 1 (.threadPost 2)), .iwi 1,
    .act (.user 1 (.threadNew 3 1 1 false)), .act (.user 1 (.threadPost 3)), .iwi 1,
    .act (.user 0 (.waitqWait 0 0)), .act (.advance 0), .act (.leave 0)]

def shortPass (w : WorkerId) : List AlertAction := [.turn w, .act (.runImmediate w .any)]

set_option maxRecDepth 20000 in
/-- Worker 0 finds no event of its domain in any of the four passes, and `run_immediate` returns
1. -/
theorem run_immediate_reports_wrong : ∃ s, Transition.Run (PassState.step fun _ => 1)
    Transition.always (.initial 2 fun w => w) s ∧
    s.base.pc 0 = .poll true ∧ s.entered 0 = false ∧ s.clear 0 = true := by
  obtain ⟨s, run, shown⟩ := Transition.exists_run (PassState.step fun _ => 1)
    (.initial 2 fun w => w)
    (othersQueued ++ shortPass 0 ++ shortPass 0 ++ shortPass 0 ++ shortPass 0 ++ [.turn 0])
    (fun s => s.base.pc 0 = .poll true ∧ s.entered 0 = false ∧ s.clear 0 = true) (by decide)
  exact ⟨s, run, of_decide_eq_true shown⟩

end Libtcr
