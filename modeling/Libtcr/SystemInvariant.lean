import Libtcr.FrameProjection

/-! The invariant of the whole system, and with it every step as steps of the views. -/

set_option autoImplicit false

namespace Libtcr

open State

structure SystemInv (s : State) : Prop extends ViewsInv s where
  lists : ListInv s
  report : ∀ w f e, s.mode w = .report f e →
    ∃ t n, e = .auto t n ∧ MadeFor (s.view t) (.fd f) e

theorem SystemInv.live_of_placed {s : State} (inv : SystemInv s) {e : EventId} (on : s.el e ≠ none) :
    s.life e = .live := by
  simpa [State.view] using (inv.thread e.owner).live e (by simpa [State.view, State.el] using on)

/-! ## Every step as steps of the views -/

theorem served_of_madeFor {s : State} {t : Tid} {n : Nat} {f : FdId}
    (thread : ThreadInv t (s.view t)) (made : MadeFor (s.view t) (.fd f) (.auto t n))
    (live : s.life (.auto t n) = .live) (k : EventList) (on : s.el (.auto t n) = some k) :
    k.served = true := by
  obtain ⟨g, member, equal, call⟩ := made.frame (by simpa [State.view] using live)
  have placed : (s.view t).el g.e ≠ none := by
    rw [equal]
    simp [State.view, show s.lists.el (.auto t n) = some k from on]
  have located := (thread.located g member).placed placed
  have here : (s.view t).el (.auto t n) = some k := by simpa [State.view, State.el] using on
  rw [Placed, equal, here, call] at located
  rcases located with home | active | pending
  · cases home
    rfl
  · cases active
    rfl
  · cases pending
    rfl

theorem State.Effect.moves {s s' : State} {a : Action} (effect : s.Effect a s')
    (inv : SystemInv s) (r : Tid) : s.ViewMoves a r (s.view r) (s'.view r) := by
  have immediate : ∀ {w : WorkerId} {tcfd : Option FdId} {e : EventId},
      e ∈ s.events .immediate → ∀ k, (s.served w tcfd).el e = some k → k.served = true := by
    intro w tcfd e found k on
    obtain rfl : EventList.immediate = k :=
      Option.some.inj ((inv.lists.mem_events.mp found).symm.trans on)
    rfl
  have owner : ∀ {e : EventId}, e ∈ s.events .immediate → s.tc e = e.owner := by
    intro e found
    exact inv.lists.owner e (by simp [inv.lists.mem_events.mp found])
  cases effect with
  | searched w scan _ => exact .same rfl
  | queued w scan e s₁ _ found ran =>
      exact runOrQueue_queued ran (owner found) (immediate found) r
  | reaped w scan e t s₁ sched found exiting ran =>
      exact runOrQueue_reaped ran (owner found) exiting
        (fun t x => by simp [State.served, sched]) r
  | chosen w scan e t s₁ immediateFd sched found stays ran =>
      exact runOrQueue_chosen ran (owner found) (immediate found) stays
        (fun t x => by simp [State.served, sched]) r
  | reported w f em sched _ =>
      obtain ⟨moved, choice, report⟩ :=
        handleReport_spec (fun f => inv.lists.lists.nodup (.fd f)) w f em
      obtain ⟨errHup, fdEpEvents, equal⟩ := report.effect
      rw [equal]
      refine wake_moves moved (fun e => ?_) (fun e member => ?_) r ?_
      · exact (IntrusiveLists.movesTo_back EventList.immediate).foldl_el s.lists moved e
      · exact ⟨_, inv.lists.mem_events.mp (report.movedFrom e member), rfl⟩
      · cases choice with
        | none => simp [State.view, keepReport, moveToImmediate]
        | some e =>
            simp [State.view, keepReport, moveToImmediate, places_update_mode, sched]
  | reportQueued w f e s₁ report live ran =>
      obtain ⟨t, n, rfl, made⟩ := inv.report w f e report
      have served := served_of_madeFor (inv.thread t) made live
      have tc := inv.lists.owner _ ran.placed
      have moves : s.ViewMoves (.runReported w) r (s.view r) (s₁.view r) :=
        runOrQueue_queued ran tc served r
      refine moves.ends ?_
      cases ran with
      | queued k tcfd _ _ _ _ =>
          simp [State.view, relocateEvent, unlinkEvent, State.served, places_update_mode, report]
  | reportChosen w f e t s₁ report live ran =>
      obtain ⟨u, n, rfl, made⟩ := inv.report w f e report
      have served := served_of_madeFor (inv.thread u) made live
      have stays : s.flags (.auto u n) ≠ .exiting := by
        simpa [State.view] using ((inv.thread u).flagsAuto n).2
      exact runOrQueue_chosen ran (inv.lists.owner _ ran.placed) served stays
        (fun t x => by simp [State.served, report]) r
  | entered w t enter => exact entered_moves (inv.thread t) enter r
  | left w t leave =>
      refine .same ?_
      simp [State.view, places_update_mode, leave]
  | freed w t free =>
      by_cases own : t = r
      · subst own
        refine .plain_to ?_ (.freed w (by simp [State.view, free]))
        simp [State.view, iwiImmediate, own_update (e := .self t) (t := t) rfl, places_update_mode]
      · refine .same ?_
        have other : (EventId.self t).owner ≠ r := own
        simp [State.view, iwiImmediate, own_update_other other, Ne.symm own, places_update_mode,
          free, placeOf_free_other _ own]
  | aio w k _ => exact wakeupAll_moves inv.lists _ rfl r
  | user w t op _ on user effect =>
      exact userEffect_moves inv.lists inv.thread inv.mutex on user effect r
  | returned w value t f rest k on frames call pc =>
      obtain ⟨⟨n, auto⟩, _⟩ := (inv.thread t).frame f (by simp [State.view, frames])
      have owner : f.e.owner = t := by rw [auto, EventId.owner]
      have notMutex : ∀ m, f.call ≠ .mutex m := by simp [call]
      by_cases own : t = r
      · subst own
        refine .plain_to ?_ (.returnPlain w _ f rest .ok (view_top on frames)
          (by simp [pc, Pc.unplaced]) notMutex (by simp))
        rw [returnCall_plain _ owner .ok (.inl notMutex)]
        simp [State.view, frames]
      · exact .same (returnCall_others _ f .ok own (owner.trans_ne own))
  | evaluated w value t f rest pc on frames _ turned => exact turned_moves on frames turned r
  | advanced w t f rest _ on frames effect =>
      exact frameEffect_moves inv.lists inv.toViewsInv on frames effect r
  | died w t _ on empty effect => exact dieEffect_moves inv.lists on empty effect r

/-! ## The invariant is kept -/

/-- What a thread's view keeps in its own steps, it keeps in every step of the system. -/
theorem State.ViewMoves.invariant {s : State} {a : Action} {t : Tid} {v v' : View}
    (moves : s.ViewMoves a t v v') (holds : View → Prop) (initially : holds v)
    (kept : ∀ {before after : View} {kind : Kind}, holds before →
      (kind = .plain ∨ before = s.view t ∧ s.Special a t kind) →
      ViewStep t before kind after → holds after) : holds v' := by
  induction moves with
  | refl => exact initially
  | tail _ move ih =>
      obtain ⟨kind, allowed, step⟩ := move
      exact kept ih allowed step

structure ViewInv (t : Tid) (v : View) : Prop where
  thread : ThreadInv t v
  mutex : MutexInv v
  control : ControlInv v
  results : Unreturned t v

theorem ViewStep.viewInv {t : Tid} {v v' : View} {kind : Kind} (step : ViewStep t v kind v')
    (inv : ViewInv t v) : ViewInv t v' where
  thread := step.threadInv inv.thread
  mutex := step.mutexInv inv.thread inv.mutex
  control := step.controlInv inv.thread inv.control
  results := step.unreturned inv.thread inv.results

theorem ViewsInv.view {s : State} (inv : ViewsInv s) (t : Tid) : ViewInv t (s.view t) :=
  ⟨inv.thread t, inv.mutex t, inv.control t, inv.results t⟩

theorem update_report {mode : WorkerId → Mode} {w w' : WorkerId} {m : Mode} {f : FdId}
    {e : EventId} (report : Function.update mode w' m w = .report f e)
    (other : ∀ f e, m ≠ .report f e) : mode w = .report f e :=
  (Update.old_of_ne report (other f e)).2

theorem runOrQueue_mode {s s' : State} {w : WorkerId} {e : EventId} {chosen : Option Tid}
    (ran : RunOrQueue s w e chosen s') : s'.mode = s.mode := by
  obtain ⟨_, _, _, _, _, _, _, rfl⟩ := ran.frame
  rfl

private theorem userEffect_report {s s' : State} {w w' : WorkerId} {t : Tid} {op : UserOp}
    {f : FdId} {e : EventId} (effect : UserEffect s w t op s') (report : s'.mode w' = .report f e) :
    s.mode w' = .report f e := by
  cases effect with
  | wakeupOne k => rwa [tcWaitqWakeupOne_mode] at report
  | subscribe g n _ _ subscribed =>
      obtain ⟨_, rfl⟩ := tcSignalSubscribe_ok subscribed
      exact report
  | unlock m _ => simpa [tcWaitqWakeupOne_mode] using report
  | threadPost u s₁ _ added =>
      obtain ⟨_, rfl⟩ := addEventCr_ok added
      exact report
  | yield n s₁ _ added =>
      obtain ⟨_, rfl⟩ := addEventCr_ok added
      exact report
  | waitFdFailed n g mask priority ctl s₁ _ refused => cases refused <;> exact report
  | waitFd n g mask priority ctl s₁ _ added =>
      cases added
      exact report
  | waitqWait n k s₁ _ prepared =>
      obtain ⟨_, rfl⟩ := tcWaitqPrepareToWait_ok prepared
      exact report
  | threadWait n u d id s₁ _ prepared =>
      obtain ⟨_, rfl⟩ := tcWaitqPrepareToWait_ok prepared
      exact report
  | exitMain _ => exact update_report report (by simp)
  | _ => exact report

private theorem frameEffect_report {s s' : State} {w w' : WorkerId} {t : Tid} {fr : Frame}
    {f : FdId} {e : EventId} (effect : FrameEffect s w t fr s')
    (report : s'.mode w' = .report f e) :
    s.mode w' = .report f e := by
  cases effect with
  | scheduled _ _ scheduled =>
      cases scheduled with
      | slept _ => exact update_report report (by simp)
      | signalled _ _ _ _ _ => exact report
      | resumed _ _ _ _ _ _ => exact report
  | interrupted s₁ _ _ finished =>
      cases finished
      exact report
  | again s₁ _ _ finished => cases finished <;> exact report
  | woken s₁ _ _ _ finished => cases finished <;> exact report
  | held s₁ rv _ finished => cases finished <;> exact report
  | prepared wq s₁ _ _ _ prepared =>
      obtain ⟨_, rfl⟩ := tcWaitqPrepareToWait_ok prepared
      exact report
  | _ => exact report

/-- A worker begins to handle a report for a waiter that is on the list of the `tc_fd`. -/
theorem State.Effect.mode_report {s s' : State} {a : Action} (effect : s.Effect a s')
    (inv : ListInv s) {w : WorkerId} {f : FdId} {e : EventId} (report : s'.mode w = .report f e) :
    s.mode w = .report f e ∨ (∃ em, a = .report w f em) ∧ s.el e = some (.fd f) := by
  cases effect with
  | searched w' scan _ => exact .inl report
  | queued w' scan x s₁ _ _ ran => exact .inl (by rwa [runOrQueue_mode ran] at report)
  | reaped w' scan x t s₁ _ _ _ ran =>
      dsimp only at report
      rw [runOrQueue_mode ran] at report
      exact .inl (update_report report (by simp))
  | chosen w' scan x t s₁ immediateFd _ _ _ ran =>
      dsimp only at report
      rw [runOrQueue_mode ran] at report
      exact .inl (update_report report (by simp))
  | reported w' g em _ _ =>
      obtain ⟨moved, choice, handled⟩ :=
        handleReport_spec (fun f => inv.lists.nodup (.fd f)) w' g em
      obtain ⟨errHup, fdEpEvents, equal⟩ := handled.effect
      rw [equal] at report
      cases found : choice with
      | none => exact .inl (by simpa [keepReport, moveToImmediate, found] using report)
      | some x =>
          by_cases same : w = w'
          · obtain ⟨rfl, rfl⟩ : g = f ∧ x = e := by
              simpa [keepReport, moveToImmediate, found, same] using report
            exact .inr ⟨⟨em, same ▸ rfl⟩, inv.mem_events.mp (handled.chosenFrom x found)⟩
          · exact .inl (by simpa [keepReport, moveToImmediate, found, same] using report)
  | reportQueued w' g x s₁ _ _ ran =>
      dsimp only at report
      rw [runOrQueue_mode ran] at report
      exact .inl (update_report report (by simp))
  | reportChosen w' g x t s₁ _ _ ran =>
      dsimp only at report
      rw [runOrQueue_mode ran] at report
      exact .inl (update_report report (by simp))
  | entered w' t _ => exact .inl (update_report report (by simp))
  | left w' t _ => exact .inl (update_report report (by simp))
  | freed w' t _ => exact .inl (update_report report (by simp))
  | aio w' k _ => exact .inl report
  | user w' t op _ _ _ effect => exact .inl (userEffect_report effect report)
  | returned w' value t g rest k _ _ _ _ => exact .inl report
  | evaluated w' value t g rest pc _ _ _ _ => exact .inl report
  | advanced w' t g rest _ _ _ effect => exact .inl (frameEffect_report effect report)
  | died w' t _ _ _ effect =>
      cases effect with
      | settled _ => exact .inl report
      | announced _ => exact .inl report
      | exits s₁ _ added =>
          obtain ⟨_, rfl⟩ := addEventCr_ok added
          exact .inl (update_report report (by simp))

theorem ThreadInv.madeFor_of_fd {t : Tid} {v : View} (inv : ThreadInv t v) {e : EventId} {f : FdId}
    (on : v.el e = some (.fd f)) : (∃ n, e = .auto t n) ∧ MadeFor v (.fd f) e := by
  have placed : v.el e ≠ none := by simp [on]
  have own := inv.owned e placed
  have event : v.flags e ≠ .signal := by
    intro signal
    obtain ⟨n, rfl⟩ := inv.sub_of_signal own signal
    have sub := inv.subs n (inv.live _ placed)
    simp [on] at sub
  rcases inv.frame_of_event placed event with ⟨g, member, rfl⟩ | rfl
  · refine ⟨(inv.frame g member).1, ?_⟩
    have located := (inv.located g member).placed placed
    have call : g.call = .fd f := by
      simp only [Placed, on, Option.some.injEq, reduceCtorEq, or_false] at located
      cases call : g.call <;> simp_all [Call.home]
    exact call ▸ inv.madeFor member
  · cases (inv.selfEvent _ on).1

theorem State.Effect.systemInv {s s' : State} {a : Action} (effect : s.Effect a s')
    (inv : SystemInv s) : SystemInv s' := by
  have views : ∀ t, ViewInv t (s'.view t) := fun t =>
    (effect.moves inv t).invariant (ViewInv t) (inv.view t) fun before _ step => step.viewInv before
  refine ⟨⟨fun t => (views t).thread, fun t => (views t).mutex, fun t => (views t).control,
    fun t => (views t).results⟩, effect.listInv inv.lists inv.thread, fun w f e report => ?_⟩
  have before : ∃ t n, e = .auto t n ∧ MadeFor (s.view t) (.fd f) e := by
    rcases effect.mode_report inv.lists report with old | ⟨_, on⟩
    · exact inv.report w f e old
    · have here : (s.view e.owner).el e = some (.fd f) := by simpa [State.view, State.el] using on
      obtain ⟨⟨n, auto⟩, made⟩ := (inv.thread e.owner).madeFor_of_fd here
      exact ⟨e.owner, n, auto, made⟩
  obtain ⟨t, n, rfl, made⟩ := before
  refine ⟨t, n, rfl, ?_⟩
  exact ((effect.moves inv t).invariant (fun v => ViewInv t v ∧ MadeFor v (.fd f) (.auto t n))
    ⟨inv.view t, made⟩ fun before _ step =>
      ⟨step.viewInv before.1, step.madeFor before.1.thread before.2⟩).2

/-! ## Runs -/

theorem State.step_cases {s s' : State} {a : Action} (stepped : s.step a = some s') :
    s.fault = none ∧ (s.Effect a s' ∨
      ∃ fault, s.act a = some (.error fault) ∧ s' = { s with fault := some fault }) := by
  unfold State.step at stepped
  split at stepped
  · next running =>
    refine ⟨running, ?_⟩
    split at stepped
    · cases stepped
    · next s₁ done =>
      cases stepped
      exact .inl (act_ok done)
    · next fault failed =>
      cases stepped
      exact .inr ⟨fault, failed, rfl⟩
  · cases stepped

theorem SystemInv.fault {s : State} (inv : SystemInv s) (fault : Option Fault) :
    SystemInv { s with fault := fault } :=
  ⟨⟨inv.thread, inv.mutex, inv.control, inv.results⟩, { inv.lists with }, inv.report⟩

theorem SystemInv.step {s s' : State} {a : Action} (inv : SystemInv s)
    (stepped : s.step a = some s') : SystemInv s' := by
  obtain ⟨_, effect | ⟨fault, _, rfl⟩⟩ := State.step_cases stepped
  · exact effect.systemInv inv
  · exact inv.fault _

theorem ListInv.initial (workers : Nat) (domainOf : WorkerId → DomainId) :
    ListInv (.initial workers domainOf) where
  lists := .empty
  count := by simp [State.initial, State.events, IntrusiveLists.empty]
  notNegative := rfl
  refcnt t := by simp [State.initial, IntrusiveLists.placed, IntrusiveLists.empty]
  owner e on := rfl

theorem EventsInv.initial (workers : Nat) (domainOf : WorkerId → DomainId) (t : Tid) :
    EventsInv t ((State.initial workers domainOf).view t) where
  flagsAuto n := by simp [State.view, State.initial]
  flagsSub n := by simp [State.view, State.initial]
  flagsSelf := by simp [State.view, State.initial]
  owned e on := by simp [State.view, State.initial, own, IntrusiveLists.empty] at on
  live e on := by simp [State.view, State.initial, own, IntrusiveLists.empty] at on
  frame f member := by simp [State.view, State.initial] at member
  nodup := by simp [State.view, State.initial]
  autoLive n live := by simp [State.view, State.initial] at live
  lower f rest frames := by simp [State.view, State.initial] at frames
  located f member := by simp [State.view, State.initial] at member
  stack := by simp [State.view, State.initial, WeakStack]
  subs n live := by simp [State.view, State.initial] at live

private theorem initial_place (workers : Nat) (domainOf : WorkerId → DomainId) (t : Tid) :
    ((State.initial workers domainOf).view t).place =
      if t < workers then Function.update (fun _ => .away) t (.on none) else fun _ => .away := by
  funext w
  by_cases main : w < workers
  · by_cases same : w = t
    · subst same
      simp [State.view, State.initial, main]
    · have other : placeOf t (.thread w) none = .away := placeOf_thread_other none same
      by_cases exists_ : t < workers <;> simp [State.view, State.initial, main, same, exists_, other]
  · by_cases same : w = t
    · subst same
      simp [State.view, State.initial, main]
    · by_cases exists_ : t < workers <;> simp [State.view, State.initial, main, same, exists_]

theorem ThreadInv.initial (workers : Nat) (domainOf : WorkerId → DomainId) (t : Tid) :
    ThreadInv t ((State.initial workers domainOf).view t) := by
  have events := EventsInv.initial workers domainOf t
  have place := initial_place workers domainOf t
  by_cases main : t < workers
  · rw [if_pos main] at place
    have act : Executed t ((State.initial workers domainOf).view t) t none := { events with
      place := place
      running := by simp [State.view, State.initial, main]
      status := by simp [State.view, State.initial, main, Status.executable]
      self := by simp [State.view, State.initial, IntrusiveLists.empty]
      selfLive := by simp [State.view, State.initial, main]
      woken := by simp
      awake := fun f rest frames => by simp [State.view, State.initial] at frames
      delivered := fun f rest frames => by simp [State.view, State.initial] at frames }
    exact act.threadInv
  · rw [if_neg main] at place
    have empty : ((State.initial workers domainOf).view t).frames = [] := rfl
    have unused : ((State.initial workers domainOf).view t).status = .unused := by
      simp [State.view, State.initial, main]
    have off : ∀ e, ((State.initial workers domainOf).view t).el e = none := by
      simp [State.view, State.initial, IntrusiveLists.empty, own]
    exact { events with
      unique := fun w w' first => by simp [place] at first
      occupied := fun w x placed => by simp [place] at placed
      woken := fun w x placed => by simp [place] at placed
      idle := fun _ => .inl ⟨by rw [unused]; rfl, empty⟩
      entering := fun w x entering => by simp [place] at entering
      executing := fun w x on => by simp [place] at on
      newborn := fun _ => ⟨empty, rfl, fun n => by simp [State.view, State.initial]⟩
      unborn := fun _ => by simp [State.view, State.initial, main]
      selfLive := fun used => absurd unused used
      selfEvent := fun k on => by simp [off] at on
      freeing := fun w freeing => by simp [place] at freeing
      delivered := fun w x f rest frames => by simp [empty] at frames
      sleep := fun _ e pending => by simp [off] at pending }

theorem SystemInv.initial (workers : Nat) (domainOf : WorkerId → DomainId) :
    SystemInv (.initial workers domainOf) where
  thread := ThreadInv.initial workers domainOf
  mutex t := .outside (fun m held => by simp [State.view, State.initial] at held)
    fun f rest m frames => by simp [State.view, State.initial] at frames
  control t := .condition fun f rest frames => by simp [State.view, State.initial] at frames
  results t n _ := by simp [State.view, State.initial]
  lists := ListInv.initial workers domainOf
  report w f e report := by
    by_cases main : w < workers <;> simp [State.initial, main] at report

section Runs

variable {ok : State → Action → Prop} {start s : State}

theorem SystemInv.later (inv : SystemInv start) (run : Transition.Run State.step ok start s) :
    SystemInv s :=
  run.invariant SystemInv inv fun inv _ stepped => inv.step stepped

theorem SystemInv.run {workers : Nat} {domainOf : WorkerId → DomainId}
    (run : Transition.Run State.step ok (.initial workers domainOf) s) : SystemInv s :=
  (SystemInv.initial workers domainOf).later run

theorem SystemInv.moves {s' : State} {a : Action} (inv : SystemInv s)
    (stepped : s.step a = some s') (t : Tid) : s.ViewMoves a t (s.view t) (s'.view t) := by
  obtain ⟨_, effect | ⟨fault, _, rfl⟩⟩ := State.step_cases stepped
  · exact effect.moves inv t
  · exact .same rfl

/-- What the view of a thread keeps in the steps that a run may take holds after the run. -/
theorem SystemInv.view_later (inv : SystemInv start) (run : Transition.Run State.step ok start s)
    (t : Tid) (holds : View → Prop) (initially : holds (start.view t))
    (kept : ∀ {base : State} {a : Action} {v v' : View} {kind : Kind}, SystemInv base →
      ok base a → ViewInv t v → holds v → (kind = .plain ∨ v = base.view t ∧ base.Special a t kind) →
      ViewStep t v kind v' → holds v') : holds (s.view t) := by
  refine run.invariant_of_reached (fun s => holds (s.view t)) initially ?_
  intro before after a reached held allowed stepped
  have inv := inv.later reached
  exact ((inv.moves stepped t).invariant (fun v => ViewInv t v ∧ holds v) ⟨inv.view t, held⟩
    fun both special step =>
      ⟨step.viewInv both.1, kept inv allowed both.1 both.2 special step⟩).2

/-- A reachable state found by execution, with what the execution shows about it. -/
theorem reachable_of_exec (workers : Nat) (domainOf : WorkerId → DomainId)
    (actions : List Action) (shows : State → Bool)
    (executed :
      (Transition.exec State.step (.initial workers domainOf) actions).any shows = true) :
    ∃ s, Reachable workers domainOf s ∧ shows s = true :=
  Transition.exists_run _ _ actions shows executed

theorem run_of_exec (workers : Nat) (domainOf : WorkerId → DomainId) (guard : State → Action → Bool)
    (actions : List Action) (shows : State → Bool)
    (executed : (Transition.exec (Transition.guarded State.step guard) (.initial workers domainOf)
      actions).any shows = true) :
    ∃ s, Transition.Run State.step (fun s a => guard s a = true) (.initial workers domainOf) s ∧
      shows s = true := by
  obtain ⟨s, run, shown⟩ := Transition.exists_run _ _ actions shows executed
  exact ⟨s, run.of_guarded, shown⟩

end Runs

end Libtcr
