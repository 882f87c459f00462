import Libtcr.QueueProperties
import Libtcr.ExitProperties

/-! The invariant of the workers of a domain: threads and events stay in their domain, and an
event on `common.immediate` is attended to. -/

set_option autoImplicit false

namespace Libtcr

open State

/-! ## Domains -/

def Unborn (s : State) : Prop := ∀ u, s.status u = .unused → s.life (.self u) ≠ .live

structure DomainInv (s : State) : Prop where
  home : ∀ w t, s.mode w = .enter t ∨ s.mode w = .thread t → s.threadDomain t = s.workerDomain w
  event : ∀ e, s.life e = .live → s.domain e = s.threadDomain e.owner
  report : ∀ w f e, s.mode w = .report f e → s.domain e = s.workerDomain w
  unborn : Unborn s

/-- `DomainInv` for workers whose own domain is `own`, also while `tc_this_pthread_domain` is
another one. -/
structure HomeInv (own : WorkerId → DomainId) (s : State) : Prop where
  home : ∀ w t, s.mode w = .enter t ∨ s.mode w = .thread t → s.threadDomain t = own w
  event : ∀ e, s.life e = .live → s.domain e = s.threadDomain e.owner
  report : ∀ w f e, s.mode w = .report f e → s.domain e = own w
  unborn : Unborn s

section Domains

variable {s s' : State} {a : Action} {w v : WorkerId} {t : Tid} {own : WorkerId → DomainId}

theorem DomainInv.homeInv (dom : DomainInv s) : HomeInv s.workerDomain s := { dom with }

private theorem HomeInv.domainInv (home : HomeInv s.workerDomain s) : DomainInv s := { home with }

private theorem update_home {mode : WorkerId → Mode} {m : Mode}
    (after : Function.update mode v m w = .enter t ∨ Function.update mode v m w = .thread t)
    (other : m ≠ .enter t ∧ m ≠ .thread t) : mode w = .enter t ∨ mode w = .thread t := by
  rcases after with enters | runs
  · exact .inl (Update.old_of_ne enters other.1).2
  · exact .inr (Update.old_of_ne runs other.2).2

private theorem update_enter {mode : WorkerId → Mode} {u : Tid}
    (after : Function.update mode v (.enter u) w = .enter t ∨
      Function.update mode v (.enter u) w = .thread t) :
    (mode w = .enter t ∨ mode w = .thread t) ∨ w = v ∧ u = t := by
  rcases after with enters | runs
  · rcases Update.eq_cases enters with ⟨same, entered⟩ | ⟨_, before⟩
    · exact .inr ⟨same, Mode.enter.inj entered⟩
    · exact .inl (.inl before)
  · exact .inl (.inr (Update.old_of_ne runs (by simp)).2)

private theorem runOrQueue_tc {x : EventId} {u : Tid} {tcfd : Option FdId}
    (ran : RunOrQueue (s.served w tcfd) w x (some u) s') : s.tc x = u := by
  cases ran <;> rfl

theorem ModeMove.of_thread {u : Tid} {after : Mode} (moves : ModeMove (.thread u) after) :
    after = .thread u ∨ after = .leave u ∨ after = .off := by
  cases moves with
  | same => exact .inl rfl
  | leaves => exact .inr (.inl rfl)
  | ends => exact .inr (.inr rfl)

private theorem executed_home {u : Tid} (on : s.mode v = .thread u)
    (moves : ModeMove (s.mode v) (s'.mode v)) (others : v ≠ w → s'.mode w = s.mode w)
    (after : s'.mode w = .enter t ∨ s'.mode w = .thread t) :
    s.mode w = .enter t ∨ s.mode w = .thread t := by
  by_cases same : v = w
  · subst same
    rw [on] at moves
    rcases moves.of_thread with stays | leaves | off
    · rwa [on, ← stays]
    · simp [leaves] at after
    · simp [off] at after
  · rwa [others same] at after

theorem act_runImmediate {scan : Scan} (done : s.act (.runImmediate w scan) = some (.ok s')) :
    s.mode w = .sched ∧ RunImmediate s w scan s' := by
  unfold act at done
  dsimp only at done
  split at done
  · next sched => exact ⟨sched, runImmediate_cases (Option.some.inj done)⟩
  · cases done

theorem HomeInv.enters (dom : HomeInv own s) (inv : SystemInv s) (done : s.act a = some (.ok s'))
    (here : a.makes = false → s.workerDomain a.worker = own a.worker)
    (after : s'.mode w = .enter t ∨ s'.mode w = .thread t) :
    (s.mode w = .enter t ∨ s.mode w = .thread t) ∨
      ∃ x, s.life x = .live ∧ x.owner = t ∧ s.domain x = own w := by
  have woken : ∀ {x : EventId} {v : WorkerId} {tcfd : Option FdId} {u : Tid} {s₁ : State},
      RunOrQueue (s.served v tcfd) v x (some u) s₁ → s.domain x = own v →
      Function.update s₁.mode v (.enter u) w = .enter t ∨
        Function.update s₁.mode v (.enter u) w = .thread t →
      (s.mode w = .enter t ∨ s.mode w = .thread t) ∨
        ∃ x, s.life x = .live ∧ x.owner = t ∧ s.domain x = own w := by
    intro x v tcfd u s₁ ran domain entered
    rw [runOrQueue_mode ran] at entered
    rcases update_enter entered with before | ⟨rfl, rfl⟩
    · exact .inl before
    · have placed : s.el x ≠ none := ran.placed
      refine .inr ⟨x, inv.live_of_placed placed, ?_, domain⟩
      exact (inv.lists.owner x placed).symm.trans (runOrQueue_tc ran)
  by_cases search : ∃ v scan, a = .runImmediate v scan
  · obtain ⟨v, scan, rfl⟩ := search
    cases (act_runImmediate done).2 with
    | nothing _ => exact .inl after
    | queued x s₁ _ ran => exact .inl (by rwa [runOrQueue_mode ran] at after)
    | reaped x u s₁ _ ran =>
        dsimp only at after
        rw [runOrQueue_mode ran] at after
        exact .inl (update_home after (by simp))
    | chosen x u s₁ searched ran =>
        exact woken ran ((searchImmediate_some searched).trans (here rfl)) after
  have effect := act_ok done
  cases effect with
  | reported v g em _ _ =>
      obtain ⟨moved, choice, handled⟩ := handleReport_spec (fun f => inv.lists.lists.nodup (.fd f)) v g em
      obtain ⟨errHup, fdEpEvents, equal⟩ := handled.effect
      rw [equal] at after
      cases choice with
      | none => exact .inl after
      | some e => exact .inl (update_home after (by simp))
  | reportQueued v g x s₁ _ _ ran =>
      dsimp only at after
      rw [runOrQueue_mode ran] at after
      exact .inl (update_home after (by simp))
  | reportChosen v g x u s₁ report _ ran => exact woken ran (dom.report v g x report) after
  | entered v u enter =>
      by_cases same : w = v
      · subst same
        obtain rfl : u = t := by simpa [enterThread] using after
        exact .inl (.inl enter)
      · exact .inl (by simpa [enterThread, same] using after)
  | left v u _ => exact .inl (update_home after (by simp))
  | freed v u _ => exact .inl (update_home after (by simp))
  | user v u op _ on _ effect => exact .inl (executed_home on (effect.modeMove on v) effect.mode_other after)
  | advanced v u f rest _ on _ effect =>
      exact .inl (executed_home on (effect.modeMove on v) effect.mode_other after)
  | died v u _ on empty effect =>
      have whole := Effect.died v u _ on empty effect
      exact .inl (executed_home on (whole.modeMove inv.lists rfl v) (whole.mode_other inv.lists) after)
  | searched v scan _ => exact absurd ⟨v, scan, rfl⟩ search
  | queued v scan _ _ _ _ _ => exact absurd ⟨v, scan, rfl⟩ search
  | reaped v scan _ _ _ _ _ _ _ => exact absurd ⟨v, scan, rfl⟩ search
  | chosen v scan _ _ _ _ _ _ _ _ => exact absurd ⟨v, scan, rfl⟩ search
  | _ => exact .inl after

theorem LifeStep.unused (step : LifeStep s s' t) (after : s'.status t = .unused) :
    s.status t = .unused := by
  cases step with
  | same status _ => exact status.symm.trans after
  | made before _ => exact before
  | posted _ now _ => simp [now] at after
  | started _ now _ => simp [now] at after
  | unlinked _ now _ => simp [now] at after
  | settled _ now _ => simp [now] at after
  | announced _ now _ _ => simp [now] at after
  | exits _ now _ => simp [now] at after
  | freed _ now _ => simp [now] at after

theorem HomeInv.used (dom : HomeInv own s) (inv : SystemInv s) {e : EventId}
    (live : s.life e = .live) : s.status e.owner ≠ .unused := by
  intro unused
  have newborn := (inv.thread e.owner).newborn (by simp [State.view, unused, Status.newborn])
  cases e with
  | auto t n =>
      obtain ⟨f, member, _⟩ := (inv.thread t).autoLive n (by simpa [State.view] using live)
      simp [show (s.view t).frames = [] from newborn.1] at member
  | sub t n => exact newborn.2.2 n (by simpa [State.view, EventId.owner] using live)
  | self t => exact dom.unborn t unused live

theorem SystemInv.used_of_home (inv : SystemInv s) (home : s.mode w = .enter t ∨ s.mode w = .thread t) :
    s.status t ≠ .unused := by
  intro unused
  rcases home with enter | on
  · have entering := (inv.thread t).entering w (s.wokenByEvent w) (by simp [State.view, enter])
    simp [State.view, unused, Status.executable] at entering
  · have executing := (inv.thread t).executing w (s.wokenByEvent w) (by simp [State.view, on])
    simp [State.view, unused, Status.executable] at executing

theorem DomainStep.thread_same (step : DomainStep s s' a) (used : s.status t ≠ .unused) :
    s'.threadDomain t = s.threadDomain t := by
  cases step with
  | same _ _ thread _ => rw [thread]
  | made w u op e _ _ _ _ _ thread _ => rw [thread]
  | created w u d nr affine unused _ _ thread _ =>
      rw [thread]
      refine Function.update_of_ne ?_ _ _
      rintro rfl
      exact used unused

theorem DomainStep.domain_same (step : DomainStep s s' a) (unborn : Unborn s) {e : EventId}
    (used : s.life e ≠ .unused) (self : ∀ u, e = .self u → s.life e = .live) :
    s'.domain e = s.domain e := by
  cases step with
  | same _ domain _ _ => rw [domain]
  | made w u op x _ _ _ unused domain _ _ =>
      rw [domain]
      refine Function.update_of_ne ?_ _ _
      rintro rfl
      exact used unused
  | created w u d nr affine unused _ domain _ _ =>
      rw [domain]
      refine Function.update_of_ne ?_ _ _
      rintro rfl
      exact unborn u unused (self u rfl)

theorem DomainStep.domain_of_live (step : DomainStep s s' a) (unborn : Unborn s) {e : EventId}
    (live : s.life e = .live) : s'.domain e = s.domain e :=
  step.domain_same unborn (by simp [live]) fun _ _ => live

theorem Unborn.act (unborn : Unborn s) (inv : SystemInv s) (done : s.act a = some (.ok s')) :
    Unborn s' := by
  have effect := act_ok done
  intro u unused live
  have before := (effect.lifeStep inv).unused unused
  cases (effect.domainStep inv.lists).1 with
  | same _ _ _ life => exact unborn u before (life _ live)
  | made w t op x _ _ other _ _ _ life =>
      rcases life _ live with same | old
      · exact other u same.symm
      · exact unborn u before old
  | created w v d nr affine _ status _ _ life =>
      rcases life _ live with same | old
      · cases same
        simp [status] at unused
      · exact unborn u before old

theorem DomainStep.event (step : DomainStep s s' a) (dom : HomeInv own s) (inv : SystemInv s)
    (here : a.makes = false → s.workerDomain a.worker = own a.worker)
    (making : a.makes = true → ∀ x, (∀ u, x ≠ .self u) → s'.life x = s.life x)
    {e : EventId} (live : s'.life e = .live) : s'.domain e = s'.threadDomain e.owner := by
  have kept : s.life e = .live → s'.domain e = s'.threadDomain e.owner := by
    intro before
    rw [step.domain_of_live dom.unborn before, step.thread_same (dom.used inv before)]
    exact dom.event e before
  cases step with
  | same _ _ _ life => exact kept (life e live)
  | made w t op x on owner other _ domain thread life =>
      rcases life e live with rfl | before
      · cases makes : (Action.user w op).makes with
        | false =>
            rw [domain, thread, Function.update_self, owner]
            exact (here makes).trans (dom.home w t (.inr on)).symm
        | true => exact kept (making makes e other ▸ live)
      · exact kept before
  | created w u d nr affine _ _ domain thread life =>
      rcases life e live with rfl | before
      · simp [domain, thread, EventId.owner]
      · exact kept before

private theorem act_makes_life {e : EventId} (makes : a.makes = true)
    (done : s.act a = some (.ok s')) (other : ∀ u, e ≠ .self u) : s'.life e = s.life e := by
  cases act_ok done with
  | user w t op _ _ _ effect =>
      cases effect with
      | threadNew u d nr affine _ => simp [tcThreadNew, tcEventInit, other u]
      | threadPost u s₁ _ added =>
          obtain ⟨_, rfl⟩ := addEventCr_ok added
          rfl
      | _ => cases makes
  | _ => cases makes

theorem HomeInv.act (dom : HomeInv own s) (inv : SystemInv s) (done : s.act a = some (.ok s'))
    (here : a.makes = false → s.workerDomain a.worker = own a.worker)
    (waiters : ∀ v f em, a = .report v f em → ∀ e ∈ s.events (.fd f), s.domain e = own v) :
    HomeInv own s' := by
  have effect := act_ok done
  obtain ⟨step, _⟩ := effect.domainStep inv.lists
  constructor
  · intro w t after
    rcases dom.enters inv done here after with before | ⟨x, live, rfl, domain⟩
    · rw [step.thread_same (inv.used_of_home before)]
      exact dom.home w t before
    · rw [step.thread_same (dom.used inv live), ← dom.event x live, domain]
  · intro e live
    exact step.event dom inv here (fun makes _ other => act_makes_life makes done other) live
  · intro w f e after
    rcases effect.mode_report inv.lists after with before | ⟨⟨em, rfl⟩, on⟩
    · obtain ⟨t, n, rfl, made⟩ := inv.report w f e before
      rw [step.domain_same dom.unborn (by simpa [State.view] using made.used) (by simp)]
      exact dom.report w f _ before
    · rw [step.domain_of_live dom.unborn (inv.live_of_placed (by simp [on]))]
      exact waiters w f em rfl e (inv.lists.mem_events.mpr on)
  · exact dom.unborn.act inv done

theorem DomainInv.act (dom : DomainInv s) (inv : SystemInv s) (done : s.act a = some (.ok s'))
    (own : ∀ v f em, a = .report v f em → ∀ e ∈ s.events (.fd f), s.domain e = s.workerDomain v) :
    DomainInv s' := by
  have after := dom.homeInv.act inv done (fun _ => rfl) own
  have workers := ((act_ok done).domainStep inv.lists).2
  exact HomeInv.domainInv (workers ▸ after)

theorem DomainInv.initial (workers : Nat) (domainOf : WorkerId → DomainId) :
    DomainInv (.initial workers domainOf) where
  home w t home := by
    by_cases main : w < workers
    · obtain rfl : w = t := by simpa [State.initial, main] using home
      rfl
    · simp [State.initial, main] at home
  event e live := rfl
  report w f e report := by
    by_cases main : w < workers <;> simp [State.initial, main] at report
  unborn u unused := by
    by_cases main : u < workers
    · simp [State.initial, main] at unused
    · simp [State.initial, main]

end Domains

/-! ## Steps -/

/-- The worker searches `common.immediate` for every thread of its domain before it calls
`epoll_wait`. -/
def SchedPc.searches : SchedPc → Bool
  | .turn 0 | .poll _ | .blocked => false
  | _ => true

/-- The worker is in `scheduler_part2`, or has left the coroutine of its thread for it, and has
not chosen the next thread. -/
def Mode.schedules : Mode → Bool
  | .sched | .leave _ | .free _ => true
  | .off | .enter _ | .thread _ | .report _ _ => false

def AlertState.searches (s : AlertState) (w : WorkerId) : Bool :=
  (s.sys.mode w).schedules && (s.pc w).searches

/-- The domain of the worker has been notified, or another worker of it searches
`common.immediate`. -/
def AlertState.Covered (s : AlertState) (w : WorkerId) : Prop :=
  0 < s.counter (s.sys.workerDomain w) ∨
    ∃ v, v ≠ w ∧ s.sys.workerDomain v = s.sys.workerDomain w ∧ s.searches v = true

/-- The step leaves no event behind that nobody sees to: a report is for waiters of the worker's
own domain and moves no event but that of the thread to run, and a thread that yields has not
been entered in the last turn of `run_immediate`, unless the domain is covered. -/
def AlertState.LeavesNone (s : AlertState) : AlertAction → Prop
  | .act (.report w f em) =>
    (∀ e ∈ s.sys.events (.fd f), s.sys.domain e = s.sys.workerDomain w) ∧
      ((∀ e ∈ (s.sys.reportChoice w f em).1, (s.sys.reportChoice w f em).2 = some e) ∨
        s.Covered w)
  | .act (.user w (.yield _)) => (s.pc w).searches = true ∨ s.Covered w
  | _ => True

inductive AlertStep (s : AlertState) : AlertAction → AlertState → Prop where
  | act (a : Action) (sys : State) (may : s.mayCall a = true) (ready : s.ready a = true)
      (done : s.sys.act a = some (.ok sys)) : AlertStep s (.act a) (s.acted a sys)
  | failed (a : Action) (fault : Fault) :
      AlertStep s (.act a) { s with sys := { s.sys with fault := some fault } }
  | iwi (w : WorkerId) (d : DomainId) (ds : List DomainId) (owed : s.owed w = d :: ds) :
      AlertStep s (.iwi w) { s with
        counter := Function.update s.counter d (s.counter d + 1)
        owed := Function.update s.owed w ds }
  | goes (l : AlertAction) (pc : SchedPc) (armed : DomainId → Bool)
      (sched : s.sys.mode l.worker = .sched)
      (searches : (s.pc l.worker).searches = true → pc.searches = true) :
      AlertStep s l { s.setPc l.worker pc with armed := armed }
  | reads (w : WorkerId) (sched : s.sys.mode w = .sched) :
      AlertStep s (.read w) { s.setPc w .arm with
        counter := Function.update s.counter (s.sys.workerDomain w) 0 }

section Steps

variable {nrOfWorkers : DomainId → Int} {s s' : AlertState} {l : AlertAction} {w : WorkerId}

private theorem AlertState.schedules_sched (schedules : s.schedules w = true) :
    s.sys.mode w = .sched := by
  simp only [AlertState.schedules, Bool.and_eq_true, decide_eq_true_eq] at schedules
  exact schedules.1.2

private theorem alertStep_goes {pc : SchedPc} (schedules : s.schedules l.worker = true)
    (searches : (s.pc l.worker).searches = true → pc.searches = true) :
    AlertStep s l (s.setPc l.worker pc) :=
  .goes l pc s.armed (AlertState.schedules_sched schedules) searches

private theorem alertStep_turn (schedules : s.schedules w = true)
    (done : s.turn nrOfWorkers w = some s') : AlertStep s (.turn w) s' := by
  unfold AlertState.turn at done
  split at done
  · next last =>
    cases done
    refine alertStep_goes (l := .turn w) schedules fun searches => ?_
    simp [AlertAction.worker, last, SchedPc.searches] at searches
  · split at done <;>
    · cases done
      exact alertStep_goes (l := .turn w) schedules fun _ => rfl
  · cases done

private theorem alertStep_epoll {result : EpollResult} (schedules : s.schedules w = true)
    (done : s.epoll w result = some s') : AlertStep s (.epoll w result) s' := by
  have goes : ∀ {pc : SchedPc}, ((s.pc w).searches = true → pc.searches = true) →
      AlertStep s (.epoll w result) (s.setPc w pc) :=
    fun searches => alertStep_goes (l := .epoll w result) schedules searches
  unfold AlertState.epoll at done
  split at done
  · cases done
    exact goes fun _ => rfl
  · next pc =>
    cases done
    exact goes fun searches => by simp [pc, SchedPc.searches] at searches
  · cases done
    exact goes fun _ => rfl
  · cases done
    exact goes fun _ => rfl
  · cases done
    exact goes fun _ => rfl
  · cases done
    exact goes fun _ => rfl
  · split at done
    · cases done
      exact .goes _ .rearm _ (AlertState.schedules_sched schedules) fun _ => rfl
    · cases done
  · split at done
    · cases done
      exact .goes _ .rearm _ (AlertState.schedules_sched schedules) fun _ => rfl
    · cases done
  · cases done

theorem AlertState.step_cases (stepped : s.step nrOfWorkers l = some s') : AlertStep s l s' := by
  cases l with
  | act a =>
      simp only [AlertState.step] at stepped
      split at stepped
      · next allowed =>
        obtain ⟨sys, done, rfl⟩ | ⟨fault, _, rfl⟩ := State.call_cases stepped
        · exact .act a sys allowed.2.1 allowed.2.2 done
        · exact .failed a fault
      · cases stepped
  | iwi w =>
      simp only [AlertState.step] at stepped
      split at stepped
      · next d ds owed =>
        split at stepped
        · cases stepped
          exact .iwi w d ds owed
        · cases stepped
      · cases stepped
  | turn w =>
      simp only [AlertState.step] at stepped
      split at stepped
      · next schedules => exact alertStep_turn schedules stepped
      · cases stepped
  | epoll w result =>
      simp only [AlertState.step] at stepped
      split at stepped
      · next schedules => exact alertStep_epoll schedules stepped
      · cases stepped
  | read w =>
      simp only [AlertState.step] at stepped
      split at stepped
      · next allowed =>
        cases stepped
        exact .reads w (AlertState.schedules_sched allowed.1)
      · cases stepped
  | arm w =>
      simp only [AlertState.step] at stepped
      split at stepped
      · next allowed =>
        cases stepped
        exact .goes (.arm w) _ _ (AlertState.schedules_sched allowed.1) fun _ => rfl
      · cases stepped
  | handled w =>
      simp only [AlertState.step] at stepped
      split at stepped
      · next allowed =>
        cases stepped
        exact alertStep_goes (l := .handled w) allowed.1 fun _ => rfl
      · cases stepped

end Steps

/-! ## The invariant -/

/-- The worker will take event `e` off `common.immediate` or notify its domain, before it enters
a thread or blocks: it is about to search the list, or to run the thread of `e`, or `e` is that
of the call of `tc_sched_yield` it executes. -/
inductive AlertState.Attends (s : AlertState) (w : WorkerId) (e : EventId) : Prop where
  | searches (searches : s.searches w = true)
  | reported (f : FdId) (on : s.sys.mode w = .report f e)
  | yields (t : Tid) (f : Frame) (rest : List Frame) (on : s.sys.mode w = .thread t)
      (frames : s.sys.frames t = f :: rest) (call : f.call = .yield) (event : f.e = e)
      (pc : (s.pc w).searches = true)

structure AlertInv (s : AlertState) : Prop where
  sys : SystemInv s.sys
  domains : DomainInv s.sys
  alert : ∀ e, s.sys.el e = some .immediate →
    0 < s.counter (s.sys.domain e) ∨ s.sys.domain e ∈ s.owed (s.queuedBy e) ∨
      ∃ w, s.sys.workerDomain w = s.sys.domain e ∧ s.Attends w e

theorem AlertInv.initial (workers : Nat) (domainOf : WorkerId → DomainId) :
    AlertInv (.initial workers domainOf) where
  sys := SystemInv.initial workers domainOf
  domains := DomainInv.initial workers domainOf
  alert e queued := by
    simp [AlertState.initial, State.initial, State.el, IntrusiveLists.empty] at queued

end Libtcr
