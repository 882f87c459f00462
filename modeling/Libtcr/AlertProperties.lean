import Libtcr.AlertInvariant

/-! No worker sleeps while an event of its domain is on `common.immediate`. -/

set_option autoImplicit false

namespace Libtcr

open State

section Attends

variable {s : AlertState} {sys : State} {a : Action} {w : WorkerId} {t : Tid} {e : EventId}

/-! ## The worker that attends to an event -/

private theorem finishWait_off {s s' : State} {w : WorkerId} {t : Tid} {e : EventId} {rv : Bool}
    (finished : FinishWait s w t e rv s') : s'.el e ≠ some .immediate := by
  cases finished with
  | expected _ _ => simp [State.el]
  | requeued x _ _ _ _ =>
      by_cases same : e = x
      · simp [State.el, attachEvent, same]
      · simp [State.el, attachEvent, same]
  | interrupted _ _ _ _ _ => simp [State.el]

private theorem acted_pc_other (other : a.worker ≠ w) : (s.acted a sys).pc w = s.pc w :=
  Function.update_of_ne (Ne.symm other) _ _

private theorem acted_pc (s : AlertState) (a : Action) (sys : State) :
    (s.acted a sys).pc a.worker = s.pcAfter a sys :=
  Function.update_self ..

private theorem counter_acted (s : AlertState) (a : Action) (sys : State) (d : DomainId) :
    s.counter d ≤ (s.acted a sys).counter d :=
  Nat.le_add_right _ _

private theorem counter_grows {d : DomainId}
    (written : s.sys.immediateFd d + (s.sys.owes a).count d < sys.immediateFd d) :
    s.counter d < (s.acted a sys).counter d := by
  simp only [AlertState.acted]
  omega

theorem SystemInv.frames_other {s s' : State} {a : Action} {w : WorkerId} {t : Tid}
    (inv : SystemInv s) (done : s.act a = some (.ok s')) (on : s.mode w = .thread t)
    (other : a.worker ≠ w) : s'.frames t = s.frames t := by
  have alone : ∀ {v : WorkerId}, s.mode v = .enter t ∨ s.mode v = .thread t → v = w := by
    intro v home
    refine (inv.thread t).unique v w ?_ ?_
    · rcases home with enter | on' <;> simp [State.view, *]
    · simp [State.view, on]
  cases act_callStep inv done t with
  | idle _ _ calls _ => exact calls.1
  | entered v f rest _ enter _ _ _ _ _ => exact absurd (alone (.inl enter)) other
  | user v op _ on' _ _ => exact absurd (alone (.inr on')) other
  | moved v f g rest _ _ on' by_ _ _ _ _ _ _ _ =>
      rcases by_ with rfl | ⟨_, rfl⟩ <;> exact absurd (alone (.inr on')) other
  | returned v f rest rv _ _ on' by_ _ _ _ _ _ _ _ =>
      rcases by_ with rfl | ⟨_, rfl⟩ <;> exact absurd (alone (.inr on')) other

private theorem AlertState.searches_mono {s s' : AlertState} (mode : s'.sys.mode w = s.sys.mode w)
    (pc : (s.pc w).searches = true → (s'.pc w).searches = true) (searches : s.searches w = true) :
    s'.searches w = true := by
  simp only [AlertState.searches, Bool.and_eq_true] at searches ⊢
  exact ⟨mode ▸ searches.1, pc searches.2⟩

theorem AlertState.Attends.mono {s s' : AlertState} (attends : s.Attends w e)
    (mode : s'.sys.mode w = s.sys.mode w)
    (frames : ∀ t, s.sys.mode w = .thread t → s'.sys.frames t = s.sys.frames t)
    (pc : (s.pc w).searches = true → (s'.pc w).searches = true) : s'.Attends w e := by
  cases attends with
  | searches searches => exact .searches (AlertState.searches_mono mode pc searches)
  | reported f on => exact .reported f (mode.trans on)
  | yields t f rest on top call event searches =>
      exact .yields t f rest (mode.trans on) ((frames t on).trans top) call event (pc searches)

theorem AlertState.Attends.other (attends : s.Attends w e) (inv : SystemInv s.sys)
    (done : s.sys.act a = some (.ok sys)) (other : a.worker ≠ w) : (s.acted a sys).Attends w e := by
  apply attends.mono
  · exact (act_ok done).mode_other inv.lists other
  · exact fun t on => inv.frames_other done on other
  · rw [acted_pc_other other]
    exact id

private theorem setFrame_top {s : State} {t : Tid} {f g : Frame} {rest : List Frame}
    (frames : s.frames t = f :: rest) : (s.setFrame t g).frames t = g :: rest := by
  simp [setFrame, frames]

private theorem yield_advances {s s' : State} {w : WorkerId} {t : Tid} {f : Frame}
    {rest : List Frame} (inv : SystemInv s) (effect : FrameEffect s w t f s')
    (on : s.mode w = .thread t) (frames : s.frames t = f :: rest) (call : f.call = .yield)
    (still : s'.el f.e = some .immediate) :
    s'.mode w = .leave t ∨
      s'.mode w = .thread t ∧ ∃ g, s'.frames t = g :: rest ∧ g.call = .yield ∧ g.e = f.e := by
  cases effect with
  | pushed pc =>
      exact .inr ⟨on, _, setFrame_top frames, call, rfl⟩
  | scheduled _ pc scheduled =>
      cases scheduled with
      | slept _ => exact .inl (Function.update_self ..)
      | signalled x _ _ _ _ =>
          exact .inr ⟨on, _, setFrame_top frames, call, rfl⟩
      | resumed x _ _ _ _ _ =>
          exact .inr ⟨on, _, setFrame_top frames, call, rfl⟩
  | yieldIntr _ _ _ _ _ =>
      have off : Function.update s.lists.el f.e none f.e = some .immediate := still
      simp at off
  | yieldDone pc _ woken =>
      -- The event has been delivered, so it is off the list.
      have delivered := (inv.thread t).delivered w (s.wokenByEvent w) f rest
        (by simpa [State.view] using frames) (.inr ⟨by simp [State.view, on], pc⟩)
      obtain ⟨n, auto⟩ := ((inv.thread t).frame f (by simp [State.view, frames])).1
      obtain ⟨y, equal, ⟨_, off⟩ | ⟨⟨k, sub⟩, _⟩⟩ := delivered
      · have here : (s.view t).el f.e = some .immediate := by
          simpa [State.view, auto, EventId.owner] using (show s.lists.el f.e = _ from still)
        simp [here] at off
      · rw [woken, sub, auto] at equal
        cases equal
  | held s₁ rv pc finished => exact absurd (show s₁.el f.e = _ from still) (finishWait_off finished)
  | interrupted _ _ queue _ => simp [call, Call.isLeaf] at queue
  | again _ _ queue _ => simp [call, Call.isLeaf] at queue
  | woken _ _ queue _ _ => simp [call, Call.isLeaf] at queue
  | prepared _ _ _ queue _ _ => simp [call, Call.isLeaf] at queue
  | fdIntr fd _ call' _ _ _ => simp [call] at call'
  | fdDone fd rv _ call' _ _ => simp [call] at call'
  | acquired m _ call' _ => simp [call] at call'
  | owned m _ call' _ => simp [call] at call'
  | taken m _ call' _ => simp [call] at call'
  | turned pc turned =>
      rw [call] at turned
      cases turned

private theorem attends_searches (mode : (sys.mode a.worker).schedules = true)
    (pc : (s.pcAfter a sys).searches = true) : (s.acted a sys).Attends a.worker e := by
  refine .searches ?_
  rw [AlertState.searches, acted_pc, Bool.and_eq_true]
  exact ⟨mode, pc⟩

private theorem attends_yield (inv : SystemInv s.sys) (done : s.sys.act a = some (.ok sys))
    {f : Frame} {rest : List Frame} (on : s.sys.mode a.worker = .thread t)
    (frames : s.sys.frames t = f :: rest) (call : f.call = .yield)
    (pc : (s.pc a.worker).searches = true) (still : sys.el f.e = some .immediate) :
    (s.acted a sys).Attends a.worker f.e := by
  have outside : f.inCondition = false := by simp [Frame.inCondition, call]
  have effect := act_ok done
  cases effect with
  | user v u op _ on' user _ =>
      obtain rfl := Mode.thread.inj (on'.symm.trans on)
      simp [inUserCode, frames, outside] at user
  | returned v value u g rest' k on' frames' call' _ =>
      obtain rfl := Mode.thread.inj (on'.symm.trans on)
      obtain ⟨rfl, rfl⟩ := List.cons.inj (frames'.symm.trans frames)
      simp [call'] at call
  | evaluated v value u g rest' pc on' frames' condition _ =>
      obtain rfl := Mode.thread.inj (on'.symm.trans on)
      obtain ⟨rfl, rfl⟩ := List.cons.inj (frames'.symm.trans frames)
      simp [outside] at condition
  | died v u _ on' empty _ =>
      obtain rfl := Mode.thread.inj (on'.symm.trans on)
      simp [frames] at empty
  | advanced v u g rest' _ on' frames' effect =>
      obtain rfl := Mode.thread.inj (on'.symm.trans on)
      obtain ⟨rfl, rfl⟩ := List.cons.inj (frames'.symm.trans frames)
      rcases yield_advances inv effect on' frames call still with leave | ⟨stays, h, frames, call, event⟩
      · exact attends_searches (congrArg Mode.schedules leave) pc
      · refine .yields u h _ stays frames call event ?_
        rw [acted_pc]
        exact pc
  | searched v scan sched => simp [Action.worker, sched] at on
  | queued v scan x _ sched _ _ => simp [Action.worker, sched] at on
  | reaped v scan x u _ sched _ _ _ => simp [Action.worker, sched] at on
  | chosen v scan x u _ _ sched _ _ _ => simp [Action.worker, sched] at on
  | reported v g em sched _ => simp [Action.worker, sched] at on
  | reportQueued v g x _ report _ _ => simp [Action.worker, report] at on
  | reportChosen v g x u _ report _ _ => simp [Action.worker, report] at on
  | entered v u enter => simp [Action.worker, enter] at on
  | left v u leave => simp [Action.worker, leave] at on
  | freed v u free => simp [Action.worker, free] at on
  | aio v k sched => simp [Action.worker, sched] at on

private theorem SchedPc.after_searches {i : Nat} {scan : Scan} {did found : Bool}
    (other : scan ≠ .any) : (SchedPc.after i scan did found).searches = true := by
  cases scan with
  | own => rfl
  | free => rfl
  | any => exact absurd rfl other

/-- A search of `common.immediate` for any worker finds an event of the domain. -/
theorem search_finds {s : State} {w : WorkerId} {scan : Scan} {e : EventId} (inv : ListInv s)
    (queued : s.el e = some .immediate) (home : s.workerDomain w = s.domain e)
    (searched : s.searchImmediate w scan (s.events .immediate) = .ok none) : scan ≠ .any := by
  intro any
  have unwanted := searchImmediate_none searched e (inv.mem_events.mpr queued)
  simp [wanted, any, home] at unwanted

/-- The search ends with the worker where it searches again, or it has entered a thread and
notified its domain. -/
theorem attends_search (inv : SystemInv s.sys) {scan : Scan}
    (ready : s.ready (.runImmediate w scan) = true)
    (done : s.sys.act (.runImmediate w scan) = some (.ok sys)) (queued : s.sys.el e = some .immediate)
    (home : s.sys.workerDomain w = s.sys.domain e) (still : sys.el e = some .immediate) :
    (s.acted (.runImmediate w scan) sys).Attends w e ∨
      s.counter (s.sys.domain e) < (s.acted (.runImmediate w scan) sys).counter (s.sys.domain e) := by
  obtain ⟨sched, ran⟩ := act_runImmediate done
  have lists := ((act_ok done).systemInv inv).lists
  have goes : (sys.mode w).schedules = true →
      (s.pcAfter (.runImmediate w scan) sys).searches = true →
      (s.acted (.runImmediate w scan) sys).Attends w e :=
    attends_searches (a := .runImmediate w scan)
  simp only [AlertState.ready] at ready
  split at ready
  · next i scan' did at_ =>
    obtain rfl : scan' = scan := by simpa using ready
    simp only [AlertState.pcAfter, at_] at goes
    cases ran with
    | nothing searched =>
        refine .inl (goes (congrArg Mode.schedules sched) ?_)
        rw [searched]
        exact SchedPc.after_searches (search_finds inv.lists queued home searched)
    | queued x s₁ searched ran =>
        have mode : sys.mode w = .sched := (congrFun (runOrQueue_mode ran) w).trans sched
        refine .inl (goes (congrArg Mode.schedules mode) ?_)
        rw [searched, mode]
        rfl
    | reaped x u s₁ searched ran =>
        have mode : Function.update s₁.mode w (.free u) w = .free u := Function.update_self ..
        refine .inl (goes (congrArg Mode.schedules mode) ?_)
        rw [searched]
        dsimp only
        rw [mode]
        rfl
    | chosen x u s₁ searched ran =>
        obtain ⟨_, _, _, worker, immediateFd⟩ := runOrQueue_domains ran
        have more : s₁.events .immediate ≠ [] := List.ne_nil_of_mem (lists.mem_events.mpr still)
        have written : (if s₁.events .immediate = [] then s₁.immediateFd
            else Function.update s₁.immediateFd (s₁.workerDomain w)
              (s₁.immediateFd (s₁.workerDomain w) + 1)) (s.sys.domain e) =
            s.sys.immediateFd (s.sys.domain e) + 1 := by
          rw [if_neg more, worker, immediateFd, ← home]
          exact Function.update_self ..
        exact .inr (counter_grows (Nat.lt_of_lt_of_eq (Nat.lt_succ_self _) written.symm))
  · cases ready

private theorem attends_reported (done : s.sys.act a = some (.ok sys)) {f : FdId}
    (on : s.sys.mode a.worker = .report f e) : sys.el e ≠ some .immediate := by
  intro still
  have effect := act_ok done
  cases effect with
  | reportQueued v g x s₁ report _ ran =>
      cases report.symm.trans on
      exact (came_runOrQueue_immediate (show s₁.el e = _ from still) ran).2 rfl
  | reportChosen v g x u s₁ report _ ran =>
      cases report.symm.trans on
      exact (came_runOrQueue_immediate (show s₁.el e = _ from still) ran).2 rfl
  | searched v scan sched => simp [Action.worker, sched] at on
  | queued v scan x _ sched _ _ => simp [Action.worker, sched] at on
  | reaped v scan x u _ sched _ _ _ => simp [Action.worker, sched] at on
  | chosen v scan x u _ _ sched _ _ _ => simp [Action.worker, sched] at on
  | reported v g em sched _ => simp [Action.worker, sched] at on
  | entered v u enter => simp [Action.worker, enter] at on
  | left v u leave => simp [Action.worker, leave] at on
  | freed v u free => simp [Action.worker, free] at on
  | aio v k sched => simp [Action.worker, sched] at on
  | user v u op _ on' _ _ => simp [Action.worker, on'] at on
  | returned v value u f rest k on' _ _ _ => simp [Action.worker, on'] at on
  | evaluated v value u f rest pc on' _ _ _ => simp [Action.worker, on'] at on
  | advanced v u f rest _ on' _ _ => simp [Action.worker, on'] at on
  | died v u _ on' _ _ => simp [Action.worker, on'] at on

/-- A worker that is going to search `common.immediate` calls no `epoll_wait` before. -/
theorem attends_own (inv : SystemInv s.sys) (ready : s.ready a = true)
    (done : s.sys.act a = some (.ok sys)) (attends : s.Attends a.worker e)
    (queued : s.sys.el e = some .immediate)
    (home : s.sys.workerDomain a.worker = s.sys.domain e) (still : sys.el e = some .immediate) :
    (s.acted a sys).Attends a.worker e ∨
      s.counter (s.sys.domain e) < (s.acted a sys).counter (s.sys.domain e) := by
  cases attends with
  | yields t f rest on frames call event pc =>
      subst event
      exact .inl (attends_yield inv done on frames call pc still)
  | reported f on => exact absurd still (attends_reported done on)
  | searches searches =>
      rw [AlertState.searches, Bool.and_eq_true] at searches
      obtain ⟨schedules, pc⟩ := searches
      by_cases search : ∃ v scan, a = .runImmediate v scan
      · obtain ⟨v, scan, rfl⟩ := search
        exact attends_search inv ready done queued home still
      have stays : sys.mode a.worker = .sched → s.pcAfter a sys = s.pc a.worker →
          (s.acted a sys).Attends a.worker e := by
        intro mode same
        exact attends_searches (congrArg Mode.schedules mode) (same ▸ pc)
      have effect := act_ok done
      cases effect with
      | reported v g em sched _ =>
          simp only [AlertState.ready] at ready
          split at ready
          · next at_ => simp [Action.worker, at_, SchedPc.searches] at pc
          · next at_ => simp [Action.worker, at_, SchedPc.searches] at pc
          · cases ready
      | left v u leave => exact .inl (stays (Function.update_self ..) rfl)
      | freed v u free => exact .inl (stays (Function.update_self ..) rfl)
      | aio v k sched => exact .inl (stays sched rfl)
      | reportQueued v g x s₁ report _ _ => simp [Action.worker, report, Mode.schedules] at schedules
      | reportChosen v g x u s₁ report _ _ =>
          simp [Action.worker, report, Mode.schedules] at schedules
      | entered v u enter => simp [Action.worker, enter, Mode.schedules] at schedules
      | user v u op _ on _ _ => simp [Action.worker, on, Mode.schedules] at schedules
      | returned v value u f rest k on _ _ _ => simp [Action.worker, on, Mode.schedules] at schedules
      | evaluated v value u f rest pc on _ _ _ =>
          simp [Action.worker, on, Mode.schedules] at schedules
      | advanced v u f rest _ on _ _ => simp [Action.worker, on, Mode.schedules] at schedules
      | died v u _ on _ _ => simp [Action.worker, on, Mode.schedules] at schedules
      | searched v scan _ => exact absurd ⟨v, scan, rfl⟩ search
      | queued v scan _ _ _ _ _ => exact absurd ⟨v, scan, rfl⟩ search
      | reaped v scan _ _ _ _ _ _ _ => exact absurd ⟨v, scan, rfl⟩ search
      | chosen v scan _ _ _ _ _ _ _ _ => exact absurd ⟨v, scan, rfl⟩ search

end Attends

/-! ## The invariant is kept -/

section Steps

variable {s s' : AlertState} {sys : State} {a : Action} {l : AlertAction} {w : WorkerId} {e : EventId}

private theorem setPc_searches {v : WorkerId} {pc : SchedPc}
    (searches : (s.pc v).searches = true → pc.searches = true) (before : (s.pc w).searches = true) :
    ((s.setPc v pc).pc w).searches = true := by
  by_cases same : w = v
  · subst same
    simpa [AlertState.setPc] using searches before
  · simpa [AlertState.setPc, same] using before

theorem AlertStep.domain_same (step : AlertStep s l s') (inv : SystemInv s.sys)
    (unborn : Unborn s.sys) (queued : s.sys.el e = some .immediate) :
    s'.sys.domain e = s.sys.domain e ∧ s'.sys.workerDomain = s.sys.workerDomain := by
  cases step with
  | act a sys _ _ done =>
      obtain ⟨step, workers⟩ := (act_ok done).domainStep inv.lists
      exact ⟨step.domain_of_live unborn (inv.live_of_placed (by simp [queued])), workers⟩
  | failed a fault => exact ⟨rfl, rfl⟩
  | iwi v d ds _ => exact ⟨rfl, rfl⟩
  | goes _ pc armed _ _ => exact ⟨rfl, rfl⟩
  | reads v _ => exact ⟨rfl, rfl⟩

theorem AlertStep.systemInv (step : AlertStep s l s') (inv : SystemInv s.sys)
    (unborn : Unborn s.sys) : SystemInv s'.sys ∧ Unborn s'.sys := by
  cases step with
  | act a sys _ _ done => exact ⟨(act_ok done).systemInv inv, unborn.act inv done⟩
  | failed a fault => exact ⟨inv.fault _, unborn⟩
  | iwi v d ds _ => exact ⟨inv, unborn⟩
  | goes _ pc armed _ _ => exact ⟨inv, unborn⟩
  | reads v _ => exact ⟨inv, unborn⟩

/-- A worker goes on attending to an event until it is off the list or its domain notified. -/
theorem AlertState.Attends.step (attends : s.Attends w e) (step : AlertStep s l s')
    (inv : SystemInv s.sys) (queued : s.sys.el e = some .immediate)
    (home : s.sys.workerDomain w = s.sys.domain e) (still : s'.sys.el e = some .immediate) :
    s'.Attends w e ∨
      l.worker = w ∧ s.counter (s.sys.domain e) < s'.counter (s.sys.domain e) := by
  have unmoved : s'.sys.mode = s.sys.mode → s'.sys.frames = s.sys.frames →
      ((s.pc w).searches = true → (s'.pc w).searches = true) → s'.Attends w e :=
    fun mode frames pc => attends.mono (congrFun mode w) (fun t _ => congrFun frames t) pc
  cases step with
  | act a sys _ ready done =>
      by_cases own : a.worker = w
      · subst own
        exact (attends_own inv ready done attends queued home still).imp_right fun grows => ⟨rfl, grows⟩
      · exact .inl (attends.other inv done own)
  | failed a fault => exact .inl (unmoved rfl rfl id)
  | iwi v d ds _ => exact .inl (unmoved rfl rfl id)
  | goes _ pc armed _ searches => exact .inl (unmoved rfl rfl (setPc_searches searches))
  | reads v _ => exact .inl (unmoved rfl rfl (setPc_searches fun _ => rfl))

private theorem owed_acted {d : DomainId} (may : s.mayCall a = true) (owes : d ∈ s.sys.owes a) :
    d ∈ (s.acted a sys).owed a.worker := by
  by_cases nothing : s.owed a.worker = []
  · simpa [AlertState.acted, nothing] using owes
  · simp only [AlertState.mayCall, nothing, decide_false, Bool.false_or] at may
    simp only [AlertState.acted, if_neg nothing]
    split at may
    · next v u d' nr affine => simp [State.owes] at owes
    · next v u =>
      simp only [State.owes, List.mem_singleton] at owes
      simp only [decide_eq_true_eq] at may
      simp [Action.worker, may, owes]
    · cases may

private theorem handleReport_runs {s : State} {w : WorkerId} {f : FdId} {em : Mask}
    (inv : ListInv s) (chosen : (s.reportChoice w f em).2 = some e) :
    (s.handleReport w f em).mode w = .report f e := by
  obtain ⟨errHup, fdEpEvents, equal⟩ :=
    (handleReport_choice (fun f => inv.lists.nodup (.fd f)) w f em).effect
  rw [equal, chosen]
  simp [keepReport]

/-- A worker that puts an event of its domain on the list need not see to it if the domain is
covered. -/
theorem AlertState.Covered.act (covered : s.Covered a.worker) (inv : SystemInv s.sys)
    (done : s.sys.act a = some (.ok sys)) :
    0 < (s.acted a sys).counter (s.sys.workerDomain a.worker) ∨
      ∃ v, sys.workerDomain v = s.sys.workerDomain a.worker ∧ (s.acted a sys).Attends v e := by
  rcases covered with written | ⟨v, other, home, searches⟩
  · exact .inl (written.trans_le (counter_acted s a sys _))
  · have workers := ((act_ok done).domainStep inv.lists).2
    exact .inr ⟨v, (congrFun workers v).trans home,
      (AlertState.Attends.searches searches).other inv done other.symm⟩

/-- The step that puts an event on the list notifies its domain, or some worker attends to it. -/
theorem AlertInv.queues_act (inv : AlertInv s) (may : s.mayCall a = true)
    (allowed : s.LeavesNone (.act a)) (done : s.sys.act a = some (.ok sys))
    (queues : Queues s.sys sys e a) :
    0 < (s.acted a sys).counter (sys.domain e) ∨ sys.domain e ∈ (s.acted a sys).owed a.worker ∨
      ∃ v, sys.workerDomain v = sys.domain e ∧ (s.acted a sys).Attends v e := by
  have effect := act_ok done
  obtain ⟨step, workers⟩ := effect.domainStep inv.sys.lists
  cases queues with
  | owes _ domain owes =>
      rw [domain]
      exact .inr (.inl (owed_acted may owes))
  | notified _ domain written =>
      rw [domain]
      exact .inl (Nat.zero_lt_of_lt (counter_grows written))
  | posted v u event created =>
      subst event
      have live : s.sys.life (.self u) = .live := by
        simpa [State.view] using (inv.sys.thread u).selfLive (by simp [State.view, created])
          (by simp [State.view, created])
      rw [step.domain_of_live inv.domains.unborn live, inv.domains.event _ live]
      exact .inr (.inl (owed_acted may (by simp [State.owes, EventId.owner])))
  | exits v t on event announced =>
      subst event
      have live : s.sys.life (.self t) = .live := by
        simpa [State.view] using (inv.sys.thread t).selfLive (by simp [State.view, announced])
          (by simp [State.view, announced])
      rw [step.domain_of_live inv.domains.unborn live, inv.domains.event _ live,
        show s.sys.threadDomain (EventId.self t).owner = _ from inv.domains.home v t (.inr on)]
      exact .inr (.inl (owed_acted may (by simp [State.owes, on, announced])))
  | yields v t n on event mode frames domain =>
      rw [domain]
      rcases show (s.pc v).searches = true ∨ s.Covered v from allowed with pc | covered
      · refine .inr (.inr ⟨v, congrFun workers v, ?_⟩)
        refine .yields t _ _ ((congrFun mode v).trans on) frames rfl rfl ?_
        exact (congrArg SchedPc.searches (acted_pc s (.user v (.yield n)) sys)).trans pc
      · exact (AlertState.Covered.act (a := .user v (.yield n)) covered inv.sys done).imp_right .inr
  | reported v f em sched moved waits =>
      obtain ⟨own, cared⟩ := show (∀ x ∈ s.sys.events (.fd f), s.sys.domain x = s.sys.workerDomain v) ∧
        ((∀ x ∈ (s.sys.reportChoice v f em).1, (s.sys.reportChoice v f em).2 = some x) ∨
          s.Covered v) from allowed
      have live : s.sys.life e = .live :=
        inv.sys.live_of_placed (by simp [inv.sys.lists.mem_events.mp waits])
      rw [step.domain_of_live inv.domains.unborn live, own e waits]
      rcases cared with single | covered
      · refine .inr (.inr ⟨v, congrFun workers v, .reported f ?_⟩)
        cases effect with
        | reported _ _ _ _ _ => exact handleReport_runs inv.sys.lists (single e moved)
      · exact (AlertState.Covered.act (a := .report v f em) covered inv.sys done).imp_right .inr

theorem AlertInv.act (inv : AlertInv s) (may : s.mayCall a = true) (ready : s.ready a = true)
    (allowed : s.LeavesNone (.act a)) (done : s.sys.act a = some (.ok sys)) :
    AlertInv (s.acted a sys) := by
  have effect := act_ok done
  have step := AlertStep.act a sys may ready done
  refine ⟨effect.systemInv inv.sys, inv.domains.act inv.sys done ?_, fun e after => ?_⟩
  · rintro v f em rfl
    exact allowed.1
  · by_cases queued : s.sys.el e = some .immediate
    · obtain ⟨domain, workers⟩ := step.domain_same inv.sys inv.domains.unborn queued
      have queuedBy : (s.acted a sys).queuedBy e = s.queuedBy e := by simp [AlertState.acted, queued]
      rw [domain, queuedBy]
      rcases inv.alert e queued with written | owed | ⟨w, home, attends⟩
      · exact .inl (written.trans_le (counter_acted s a sys _))
      · refine .inr (.inl ?_)
        have waits : s.owed (s.queuedBy e) ≠ [] := List.ne_nil_of_mem owed
        have same : (s.acted a sys).owed (s.queuedBy e) = s.owed (s.queuedBy e) := by
          simp only [AlertState.acted]
          split
          · next nothing =>
            refine Function.update_of_ne ?_ _ _
            intro same
            exact waits (same ▸ nothing)
          · rfl
        rwa [same]
      · rcases attends.step step inv.sys queued home after with still | ⟨_, grows⟩
        · exact .inr (.inr ⟨w, (congrFun workers w).trans home, still⟩)
        · exact .inl (Nat.zero_lt_of_lt grows)
    · have queuedBy : (s.acted a sys).queuedBy e = a.worker := by
        simp [AlertState.acted, queued, show sys.el e = _ from after]
      rw [queuedBy]
      have queues := (effect.queues inv.sys.lists after).resolve_left queued
      exact inv.queues_act may allowed done queues

private theorem AlertInv.alert_step (inv : AlertInv s) (step : AlertStep s l s')
    (lists : s'.sys.lists = s.sys.lists) (domain : s'.sys.domain = s.sys.domain)
    (workers : s'.sys.workerDomain = s.sys.workerDomain) (queuedBy : s'.queuedBy = s.queuedBy)
    (counter : ∀ d, 0 < s.counter d → 0 < s'.counter d ∨
      ∃ w, s.sys.workerDomain w = d ∧ ∀ e, s'.Attends w e)
    (owed : ∀ w d, d ∈ s.owed w → 0 < s'.counter d ∨ d ∈ s'.owed w)
    (queued : s'.sys.el e = some .immediate) :
    0 < s'.counter (s'.sys.domain e) ∨ s'.sys.domain e ∈ s'.owed (s'.queuedBy e) ∨
      ∃ w, s'.sys.workerDomain w = s'.sys.domain e ∧ s'.Attends w e := by
  have before : s.sys.el e = some .immediate := by rwa [State.el, lists] at queued
  rw [queuedBy, domain, workers]
  rcases inv.alert e before with written | owes | ⟨w, home, attends⟩
  · rcases counter _ written with still | ⟨w, home, attends⟩
    · exact .inl still
    · exact .inr (.inr ⟨w, home, attends e⟩)
  · exact (owed _ _ owes).imp_right .inl
  · rcases attends.step step inv.sys before home queued with attends' | ⟨_, grows⟩
    · exact .inr (.inr ⟨w, home, attends'⟩)
    · exact .inl (Nat.zero_lt_of_lt grows)

theorem AlertInv.step (inv : AlertInv s) (allowed : s.LeavesNone l) (step : AlertStep s l s') :
    AlertInv s' := by
  have kept := step
  cases step with
  | act a sys may ready done => exact inv.act may ready allowed done
  | failed a fault =>
      refine ⟨inv.sys.fault _, { inv.domains with }, fun e queued => ?_⟩
      exact inv.alert_step kept rfl rfl rfl rfl (fun _ => .inl) (fun _ _ => .inr) queued
  | iwi w d ds owed =>
      refine ⟨inv.sys, inv.domains, fun e queued => ?_⟩
      refine inv.alert_step kept rfl rfl rfl rfl (fun d' written => .inl ?_)
        (fun v d' owes => ?_) queued
      · by_cases same : d' = d
        · simp [same]
        · simpa [same] using written
      · by_cases notified : d' = d
        · exact .inl (by simp [notified])
        · refine .inr ?_
          by_cases same : v = w
          · subst same
            simpa [owed, notified] using owes
          · simpa [same] using owes
  | goes _ pc armed sched searches =>
      refine ⟨inv.sys, inv.domains, fun e queued => ?_⟩
      exact inv.alert_step kept rfl rfl rfl rfl (fun _ => .inl) (fun _ _ => .inr) queued
  | reads w sched =>
      refine ⟨inv.sys, inv.domains, fun e queued => ?_⟩
      refine inv.alert_step kept rfl rfl rfl rfl (fun d written => ?_) (fun _ _ => .inr) queued
      by_cases same : d = s.sys.workerDomain w
      · -- The worker that has read the counter searches next.
        refine .inr ⟨w, same.symm, fun e => .searches ?_⟩
        simp [AlertState.searches, AlertState.setPc, sched, Mode.schedules, SchedPc.searches]
      · exact .inl (by simpa [same] using written)

theorem AlertInv.run {nrOfWorkers : DomainId → Int} {workers : Nat} {domainOf : WorkerId → DomainId}
    (run : AlertRun nrOfWorkers workers domainOf AlertState.LeavesNone s) : AlertInv s :=
  run.invariant AlertInv (.initial workers domainOf) fun inv allowed stepped =>
    inv.step allowed (AlertState.step_cases stepped)

end Steps

/-! ## An event on `common.immediate` is attended to -/

/-- The worker is in `scheduler_part2`, or in `tc_sched_yield` on its way there. -/
def AlertState.inScheduler (s : AlertState) (w : WorkerId) : Bool :=
  match s.sys.mode w with
  | .sched => s.pc w ≠ .blocked
  | .leave _ | .free _ | .report _ _ => true
  | .thread t =>
    match s.sys.frames t with
    | f :: _ => f.call = .yield
    | [] => false
  | .enter _ | .off => false

/-- With the step from `s` to `s'`, event `e` is off `common.immediate`, or worker `w` has
written the `immediate_fd` of its domain. -/
def AlertState.Relieves (w : WorkerId) (e : EventId) (s : AlertState) (l : AlertAction)
    (s' : AlertState) : Prop :=
  s'.sys.el e ≠ some .immediate ∨
    l.worker = w ∧ s.counter (s.sys.domain e) < s'.counter (s.sys.domain e)

/-- The domain of event `e` has been notified, or will be by the step that has queued it, or
one of its workers stays in `scheduler_part2` until it has seen to the event, whatever steps
follow. -/
def AlertState.Attended (nrOfWorkers : DomainId → Int) (s : AlertState) (e : EventId) : Prop :=
  0 < s.counter (s.sys.domain e) ∨ s.sys.domain e ∈ s.owed (s.queuedBy e) ∨
    ∃ w, s.sys.workerDomain w = s.sys.domain e ∧ ∀ s', Transition.Run (AlertState.step nrOfWorkers)
      (fun before l => ∀ after, before.step nrOfWorkers l = some after →
        ¬ before.Relieves w e l after) s s' → s'.inScheduler w = true

section Runs

variable {nrOfWorkers : DomainId → Int} {workers : Nat} {domainOf : WorkerId → DomainId}
  {s s' : AlertState} {l : AlertAction} {w : WorkerId} {e : EventId}

private theorem AlertState.Attends.inScheduler (attends : s.Attends w e) :
    s.inScheduler w = true := by
  cases attends with
  | searches searches =>
      rw [AlertState.searches, Bool.and_eq_true] at searches
      obtain ⟨mode, pc⟩ := searches
      unfold AlertState.inScheduler
      cases at_ : s.sys.mode w with
      | sched =>
          have awake : s.pc w ≠ .blocked := by
            intro blocked
            simp [blocked, SchedPc.searches] at pc
          simpa using awake
      | leave _ => rfl
      | free _ => rfl
      | report _ _ => rfl
      | off => simp [at_, Mode.schedules] at mode
      | enter _ => simp [at_, Mode.schedules] at mode
      | thread _ => simp [at_, Mode.schedules] at mode
  | reported f on => simp [AlertState.inScheduler, on]
  | yields t f rest on frames call event pc => simp [AlertState.inScheduler, on, frames, call]

theorem queued_event_attended
    (run : AlertRun nrOfWorkers workers domainOf AlertState.LeavesNone s)
    (queued : s.sys.el e = some .immediate) : s.Attended nrOfWorkers e := by
  have inv := AlertInv.run run
  rcases inv.alert e queued with written | owed | ⟨w, home, attends⟩
  · exact .inl written
  · exact .inr (.inl owed)
  · refine .inr (.inr ⟨w, home, fun s' later => ?_⟩)
    -- What the worker does next does not depend on how the state has been reached.
    have holds := later.invariant (fun s => (SystemInv s.sys ∧ Unborn s.sys) ∧
        s.sys.el e = some .immediate ∧ s.sys.workerDomain w = s.sys.domain e ∧ s.Attends w e)
      ⟨⟨inv.sys, inv.domains.unborn⟩, queued, home, attends⟩
      fun ⟨⟨inv, unborn⟩, queued, home, attends⟩ unrelieved stepped => by
        have step := AlertState.step_cases stepped
        obtain ⟨still, unwritten⟩ := not_or.mp (unrelieved _ stepped)
        have queued' := not_not.mp still
        obtain ⟨domain, workers⟩ := step.domain_same inv unborn queued
        refine ⟨step.systemInv inv unborn, queued', by rw [domain, workers, home], ?_⟩
        exact (attends.step step inv queued home queued').resolve_right unwritten
    exact holds.2.2.2.inScheduler

def mainWaits (w : WorkerId) : List AlertAction :=
  [.act (.user w (.threadWait 0 2 0 0)), .act (.advance w), .act (.leave w)]

def waitsFd (w : WorkerId) (mask : Mask) : List AlertAction :=
  [.act (.user w (.waitFd 0 0 mask false true)), .act (.advance w), .act (.advance w),
    .act (.leave w)]

def findsNothing (w : WorkerId) : List AlertAction :=
  [.turn w, .act (.runImmediate w .own), .act (.runImmediate w .free), .act (.runImmediate w .any)]

/-- Threads 2 and 3 wait for input and output on one `tc_fd`, worker 0 is about to call
`epoll_wait` and worker 1 to search `common.immediate`. -/
def bothWait : List AlertAction :=
  [.act (.user 0 (.threadNew 2 0 0 false)), .act (.user 0 (.threadPost 2)), .iwi 0] ++
  mainWaits 0 ++ mainWaits 1 ++
  [.turn 0, .act (.runImmediate 0 .own), .act (.enter 0),
    .act (.user 0 (.threadNew 3 0 0 false)), .act (.user 0 (.threadPost 3)), .iwi 0] ++
  waitsFd 0 EPOLLIN ++ [.act (.runImmediate 0 .free), .act (.enter 0)] ++ waitsFd 0 EPOLLOUT ++
  [.act (.runImmediate 0 .any)] ++ findsNothing 0 ++ [.epoll 0 .immediate, .read 0, .arm 0] ++
  findsNothing 0

/-- Worker 0 gets a report of both. -/
def bothReported : List AlertAction := [.act (.report 0 0 (EPOLLIN ||| EPOLLOUT))]

def twoWorkers (w : WorkerId) : DomainId :=
  if w < 2 then 0 else 1

/-- Reports are handled while worker 1 searches. -/
def AlertState.coveredByOne (s : AlertState) : AlertAction → Bool
  | .act (.report w f _) =>
    (s.sys.events (.fd f)).all (fun e => s.sys.domain e = s.sys.workerDomain w) &&
      (1 ≠ w && s.sys.workerDomain 1 = s.sys.workerDomain w && s.searches 1)
  | .act (.user _ (.yield _)) => false
  | _ => true

private theorem AlertState.coveredByOne_leavesNone (covered : s.coveredByOne l = true) :
    s.LeavesNone l := by
  unfold AlertState.coveredByOne at covered
  split at covered
  · simp only [Bool.and_eq_true, List.all_eq_true, decide_eq_true_eq] at covered
    obtain ⟨own, ⟨other, home⟩, searches⟩ := covered
    exact ⟨own, .inr (.inr ⟨1, other, home, searches⟩)⟩
  · cases covered
  · next noReport noYield =>
    unfold AlertState.LeavesNone
    split
    · next w f em => exact absurd rfl (noReport w f em)
    · next w n => exact absurd rfl (noYield w n)
    · trivial

set_option maxRecDepth 20000 in
/-- Worker 1 takes thread 2's event off the list, or notifies the domain. -/
theorem queued_event_attended_reported :
    ∃ s, AlertRun (fun _ => 2) 2 twoWorkers AlertState.LeavesNone s ∧
      s.sys.el (.auto 2 0) = some .immediate ∧ s.counter 0 = 0 ∧
      s.Attended (fun _ => 2) (.auto 2 0) := by
  obtain ⟨s, run, shown⟩ := Transition.exists_run
    (Transition.guarded (AlertState.step fun _ => 2) AlertState.coveredByOne)
    (.initial 2 twoWorkers) (bothWait ++ bothReported)
    (fun s => decide (s.sys.el (.auto 2 0) = some .immediate) && decide (s.counter 0 = 0)) (by decide)
  simp only [Bool.and_eq_true, decide_eq_true_eq] at shown
  have reached : AlertRun (fun _ => 2) 2 twoWorkers AlertState.LeavesNone s :=
    run.of_guarded.mono fun _ _ => AlertState.coveredByOne_leavesNone
  exact ⟨s, reached, shown.1, shown.2, queued_event_attended reached shown.1⟩

theorem AlertRun.workerDomain {ok : AlertState → AlertAction → Prop}
    (run : AlertRun nrOfWorkers workers domainOf ok s) : s.sys.workerDomain = domainOf := by
  have holds := run.invariant (fun s => SystemInv s.sys ∧ s.sys.workerDomain = domainOf)
    ⟨SystemInv.initial workers domainOf, rfl⟩ fun ⟨inv, same⟩ _ stepped => by
      cases AlertState.step_cases stepped with
      | act a sys _ _ done =>
          have effect := act_ok done
          exact ⟨effect.systemInv inv, (effect.domainStep inv.lists).2.trans same⟩
      | failed a fault => exact ⟨inv.fault _, same⟩
      | iwi v d ds _ => exact ⟨inv, same⟩
      | goes _ pc armed _ _ => exact ⟨inv, same⟩
      | reads v _ => exact ⟨inv, same⟩
  exact holds.2

/-- Nobody has been told of event `e` of domain 0, and its two workers are elsewhere. -/
def AlertState.forgotten (s : AlertState) (e : EventId) : Bool :=
  decide (s.sys.el e = some .immediate) && decide (s.sys.domain e = 0) &&
    decide (s.counter 0 = 0) && decide (s.owed (s.queuedBy e) = []) && !s.inScheduler 0 &&
    !s.inScheduler 1

private theorem AlertState.not_attended
    (run : AlertRun (fun _ => 2) 2 twoWorkers Transition.always s)
    (forgotten : s.forgotten e = true) :
    s.sys.el e = some .immediate ∧ ¬ s.Attended (fun _ => 2) e := by
  simp only [AlertState.forgotten, Bool.and_eq_true, decide_eq_true_eq, Bool.not_eq_true'] at forgotten
  obtain ⟨⟨⟨⟨⟨queued, domain⟩, counter⟩, owed⟩, first⟩, second⟩ := forgotten
  refine ⟨queued, ?_⟩
  unfold AlertState.Attended
  rw [domain, counter, owed]
  rintro (written | member | ⟨w, home, stays⟩)
  · cases written
  · cases member
  · have inside := stays s .refl
    rw [AlertRun.workerDomain run] at home
    have below : w < 2 := by
      by_contra above
      simp [twoWorkers, above] at home
    obtain rfl | rfl := Nat.le_one_iff_eq_zero_or_eq_one.mp (Nat.le_of_lt_succ below)
    · simp [first] at inside
    · simp [second] at inside

set_option maxRecDepth 20000 in
/-- Worker 1 blocks, worker 0 gets the report and goes on with thread 3, and nobody has been told
of thread 2. -/
theorem queued_event_not_attended :
    ∃ s, AlertRun (fun _ => 2) 2 twoWorkers Transition.always s ∧
      s.sys.el (.auto 2 0) = some .immediate ∧ ¬ s.Attended (fun _ => 2) (.auto 2 0) := by
  obtain ⟨s, run, shown⟩ := Transition.exists_run (AlertState.step fun _ => 2)
    (.initial 2 twoWorkers) (bothWait ++ findsNothing 1 ++ [.epoll 1 .blocks] ++ bothReported ++
      [.act (.runReported 0), .act (.enter 0)])
    (fun s => s.forgotten (.auto 2 0)) (by decide)
  exact ⟨s, run, AlertState.not_attended run shown⟩

/-- The thread that the worker executes calls `tc_sched_yield`, and the next search finds it. -/
def yieldsTo (w : WorkerId) (n : Nat) (scan : Scan) : List AlertAction :=
  [.act (.user w (.yield n)), .act (.advance w), .act (.advance w), .act (.leave w)] ++
  (if scan = .own then [.turn w] else []) ++
  [.act (.runImmediate w scan), .act (.enter w), .act (.advance w)]

def turnOfYields (w : WorkerId) (n : Nat) : List AlertAction :=
  yieldsTo w n .own ++ yieldsTo w (n + 1) .free ++ yieldsTo w (n + 2) .any

/-- Thread 2 yields in the last turn of `run_immediate`, and worker 0 goes on with thread 3, for
which it gets a report before it searches `common.immediate` again: reports that move no event are
not enough. -/
theorem yielded_event_not_attended :
    ∃ s, AlertRun (fun _ => 2) 2 twoWorkers Transition.always s ∧
      s.sys.el (.auto 2 13) = some .immediate ∧ ¬ s.Attended (fun _ => 2) (.auto 2 13) := by
  obtain ⟨s, run, shown⟩ := Transition.exists_run (AlertState.step fun _ => 2)
    (.initial 2 twoWorkers) (bothWait ++ findsNothing 1 ++ [.epoll 1 .blocks] ++
      [.act (.report 0 0 EPOLLIN), .act (.runReported 0), .act (.enter 0), .act (.advance 0)] ++
      turnOfYields 0 1 ++ turnOfYields 0 4 ++ turnOfYields 0 7 ++ turnOfYields 0 10 ++
      [.act (.user 0 (.yield 13)), .act (.advance 0), .act (.advance 0), .act (.leave 0), .turn 0,
        .act (.report 0 0 EPOLLOUT), .act (.runReported 0), .act (.enter 0)])
    (fun s => s.forgotten (.auto 2 13)) (by decide +kernel)
  exact ⟨s, run, AlertState.not_attended run shown⟩

end Runs

end Libtcr
