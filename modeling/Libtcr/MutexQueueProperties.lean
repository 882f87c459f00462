import Libtcr.MutexProperties

/-! The wait queue of a mutex is served in order, and nobody sleeps on the queue of a
mutex that is free. -/

set_option autoImplicit false

namespace Libtcr

open State

/-! ## How the queue changes -/

/-- The events that wait for a mutex, the one that was queued first at the head. -/
def State.mutexQueue (s : State) (m : MutexId) : List EventId := s.events (.waiters (.mutex m))

/-- The queue loses events, or an event that was on no list is put at its end. -/
def QueueStep (m : MutexId) (s s' : State) : Prop :=
  (s'.mutexQueue m).Sublist (s.mutexQueue m) ∨
    ∃ x, s.el x = none ∧ s'.mutexQueue m = s.mutexQueue m ++ [x]

namespace QueueStep

variable {m : MutexId} {s s' : State} {x : EventId}

theorem same (lists : s'.lists = s.lists) : QueueStep m s s' :=
  .inl (by rw [mutexQueue, State.events, lists]; exact .refl _)

theorem removed (lists : s'.lists = s.lists.remove x) : QueueStep m s s' :=
  .inl (by rw [mutexQueue, State.events, lists]; exact s.lists.remove_sublist x _)

theorem moved {k : EventList} (lists : s'.lists = (s.lists.remove x).pushBack x k)
    (other : k ≠ .waiters (.mutex m)) : QueueStep m s s' := by
  refine .inl ?_
  rw [mutexQueue, State.events, lists]
  exact (IntrusiveLists.movesTo_back k).sublist s.lists x other.symm

theorem activated {items : List EventId}
    (lists : s'.lists =
      items.foldl (fun lists e => (lists.remove e).pushFront e .immediate) s.lists) :
    QueueStep m s s' := by
  refine .inl ?_
  rw [mutexQueue, State.events, lists]
  exact (IntrusiveLists.movesTo_front EventList.immediate).foldl_sublist s.lists items (by simp)

theorem attached {k : EventList} (lists : s'.lists = s.lists.pushBack x k) (free : s.el x = none) :
    QueueStep m s s' := by
  by_cases own : k = .waiters (.mutex m)
  · refine .inr ⟨x, free, ?_⟩
    rw [mutexQueue, State.events, lists, own]
    exact IntrusiveLists.pushBack_elems_self _ _ _
  · refine .inl ?_
    rw [mutexQueue, State.events, lists, IntrusiveLists.pushBack_elems_of_ne _ _ (Ne.symm own)]
    exact .refl _

theorem wakeupOne {wq : Waitq} (lists : s'.lists = (s.tcWaitqWakeupOne wq).1.lists) :
    QueueStep m s s' := by
  cases queue : s.events (.waiters wq) with
  | nil => exact same (by rw [lists, tcWaitqWakeupOne_nil queue])
  | cons x es =>
      have one : s'.lists =
          [x].foldl (fun lists e => (lists.remove e).pushFront e .immediate) s.lists := by
        rw [lists, tcWaitqWakeupOne_cons queue]
        rfl
      exact activated one

end QueueStep

section Effects

variable {s s' : State} {w : WorkerId} {t : Tid}

private theorem runOrQueue_queue {e : EventId} {chosen : Option Tid}
    (ran : RunOrQueue s w e chosen s') (m : MutexId) : QueueStep m s s' := by
  cases ran with
  | exits _ _ => exact .removed rfl
  | queued _ _ _ _ _ _ => exact .moved rfl (by simp)
  | signalled _ _ _ _ _ => exact .moved rfl (by simp)
  | selected _ _ _ _ _ _ => exact .removed rfl

private theorem finishWait_queue {e : EventId} {rv : Bool} (finished : FinishWait s w t e rv s')
    (m : MutexId) : QueueStep m s s' := by
  cases finished with
  | expected _ _ => exact .removed rfl
  | requeued x _ _ _ _ =>
      have both : ((((s.lists.remove e).remove x).pushBack x (.pending t)).elems
          (.waiters (.mutex m))).Sublist (s.lists.elems (.waiters (.mutex m))) := by
        rw [IntrusiveLists.pushBack_elems_of_ne _ _ (by simp)]
        exact ((s.lists.remove e).remove_sublist x _).trans (s.lists.remove_sublist e _)
      exact .inl both
  | interrupted _ _ _ _ _ => exact .removed rfl

theorem State.UserEffect.queue {op : UserOp} (effect : UserEffect s w t op s') (m : MutexId) :
    QueueStep m s s' := by
  cases effect with
  | wakeupAll k => exact .activated (tcWaitqWakeupAll_lists s _)
  | wakeupOne k => exact .wakeupOne rfl
  | fire g => exact .activated (tcWaitqWakeupAll_lists s _)
  | subscribe g n _ _ subscribed =>
      obtain ⟨free, rfl⟩ := tcSignalSubscribe_ok subscribed
      exact .attached rfl free
  | unsubscribe u n _ => exact .removed rfl
  | unlock m' _ => exact .wakeupOne rfl
  | threadPost u s₁ _ added =>
      obtain ⟨free, rfl⟩ := addEventCr_ok added
      exact .attached rfl free
  | yield n s₁ _ added =>
      obtain ⟨free, rfl⟩ := addEventCr_ok added
      exact .attached rfl free
  | waitFdFailed n g mask priority ctl s₁ _ refused =>
      cases refused with
      | errHup => exact .same rfl
      | failed _ free =>
          have removed := (s.lists.pushBack (.auto t n) (.fd g)).remove_sublist (.auto t n)
            (.waiters (.mutex m))
          rw [IntrusiveLists.pushBack_elems_of_ne _ _ (by simp)] at removed
          exact .inl removed
  | waitFd n g mask priority ctl s₁ _ added =>
      cases added with
      | armed _ free => exact .attached rfl free
  | waitqWait n k s₁ _ prepared =>
      obtain ⟨free, rfl⟩ := tcWaitqPrepareToWait_ok prepared
      exact .attached rfl free
  | threadWait n v d id s₁ _ prepared =>
      obtain ⟨free, rfl⟩ := tcWaitqPrepareToWait_ok prepared
      exact .attached rfl free
  | _ => exact .same rfl

theorem State.FrameEffect.queue {f : Frame} (effect : FrameEffect s w t f s') (m : MutexId) :
    QueueStep m s s' := by
  cases effect with
  | scheduled _ _ scheduled =>
      cases scheduled with
      | slept _ => exact .same rfl
      | signalled _ _ _ _ _ => exact .moved rfl (by simp)
      | resumed _ _ _ _ _ _ => exact .removed rfl
  | yieldIntr _ _ _ _ _ => exact .removed rfl
  | fdIntr _ _ _ _ _ _ => exact .removed rfl
  | interrupted s₁ _ _ finished => exact finishWait_queue finished m
  | again s₁ _ _ finished => exact finishWait_queue finished m
  | woken s₁ _ _ _ finished => exact finishWait_queue finished m
  | prepared wq s₁ _ _ _ prepared =>
      obtain ⟨free, rfl⟩ := tcWaitqPrepareToWait_ok prepared
      exact .attached rfl free
  | held s₁ rv _ finished => exact finishWait_queue finished m
  | _ => exact .same rfl

end Effects

theorem State.Effect.queue {s s' : State} {a : Action} (effect : s.Effect a s') (inv : ListInv s)
    (m : MutexId) : QueueStep m s s' := by
  cases effect with
  | queued w scan x s₁ _ _ ran => exact runOrQueue_queue ran m
  | reaped w scan x u s₁ _ _ _ ran => exact runOrQueue_queue ran m
  | chosen w scan x u s₁ immediateFd _ _ _ ran => exact runOrQueue_queue ran m
  | reported w g em _ _ =>
      obtain ⟨moved, choice, handled⟩ := handleReport_spec (fun f => inv.lists.nodup (.fd f)) w g em
      obtain ⟨errHup, fdEpEvents, equal⟩ := handled.effect
      refine .inl ?_
      rw [equal]
      exact (IntrusiveLists.movesTo_back EventList.immediate).foldl_sublist s.lists moved (by simp)
  | reportQueued w g x s₁ _ _ ran => exact runOrQueue_queue ran m
  | reportChosen w g x u s₁ _ _ ran => exact runOrQueue_queue ran m
  | aio w k _ => exact .activated (tcWaitqWakeupAll_lists s _)
  | user w u op _ _ _ effect => exact effect.queue m
  | advanced w u g rest _ _ _ effect => exact effect.queue m
  | died w u _ _ _ effect =>
      cases effect with
      | settled _ => exact .same rfl
      | announced _ => exact .activated (tcWaitqWakeupAll_lists s _)
      | exits s₁ _ added =>
          obtain ⟨free, rfl⟩ := addEventCr_ok added
          exact .attached rfl free
  | _ => exact .same rfl

/-! ## Sleeping on the queue -/

/-- The call of `tc_mutex_lock` with frame `f` has gone to sleep, and its event is queued. -/
structure Waiting (s : State) (t : Tid) (m : MutexId) (f : Frame) : Prop where
  top : ∃ rest, s.frames t = f :: rest
  call : f.call = .mutex m
  pc : f.pc = .asleep ∨ f.pc = .woke
  on : s.el f.e = some (.waiters (.mutex m))

section Waiting

variable {s s' : State} {t : Tid} {m : MutexId} {f : Frame}

/-- A thread that does not run and has its event on the queue sleeps in `tc_mutex_lock`. -/
theorem Waiting.of_stopped (inv : SystemInv s) {e : EventId} (queued : e ∈ s.mutexQueue m)
    (stopped : s.running e.owner = false) : ∃ f, Waiting s e.owner m f ∧ f.e = e := by
  have on : s.el e = some (.waiters (.mutex m)) := inv.lists.mem_events.mp queued
  have here : (s.view e.owner).el e = some (.waiters (.mutex m)) := by
    simpa [State.view, State.el] using on
  obtain ⟨f, rest, frames, same, call⟩ := (inv.thread e.owner).top_of_mutex here
  have idle : (s.view e.owner).running = false := by simpa [State.view] using stopped
  rcases (inv.thread e.owner).idle idle with ⟨_, empty⟩ | ⟨_, g, rest', equal, pc, _⟩
  · simp [frames] at empty
  · obtain ⟨rfl, rfl⟩ := List.cons.inj (frames.symm.trans equal)
    exact ⟨f, ⟨⟨rest, frames⟩, call, .inl pc, same ▸ on⟩, same⟩

theorem Waiting.locking (waiting : Waiting s t m f) (inv : SystemInv s) :
    s.eventStack t = some f.e ∧ s.owner m ≠ none ∧ s.owner m ≠ some t := by
  obtain ⟨rest, frames⟩ := waiting.top
  have view : (s.view t).frames = f :: rest := by simpa [State.view] using frames
  obtain ⟨⟨n, auto⟩, _⟩ := (inv.thread t).frame f (view ▸ .head _)
  have home : (s.view t).el f.e = some f.call.home := by
    simpa [State.view, State.el, auto, waiting.call, Call.home] using waiting.on
  have locking := (inv.mutex t).locking f rest m view waiting.call
  have state : (s.view t).stack = some f.e ∧ (s.view t).mutex m = .other := by
    rcases waiting.pc with pc | pc <;>
    · simp only [Locking, pc, home, true_and, ne_eq, not_true_eq_false, false_and, or_false]
        at locking
      exact locking
  refine ⟨by simpa [State.view] using state.1, fun free => ?_, fun mine => ?_⟩
  · have free : (s.view t).mutex m = .free := by simpa [State.view] using free
    simp [state.2] at free
  · have mine : (s.view t).mutex m = .mine := by simpa [State.view] using mine
    simp [state.2] at mine

theorem Waiting.effect {w : WorkerId} (waiting : Waiting s t m f) (inv : SystemInv s)
    (on : s.mode w = .thread t) (effect : FrameEffect s w t f s') :
    s'.result f.e = some .intr := by
  obtain ⟨rest, frames⟩ := waiting.top
  have call := waiting.call
  have top := view_top on frames
  have awake := ((inv.thread t).executed top.1).awake f rest top.2
  have pc : f.pc = .woke := waiting.pc.resolve_left awake
  have notFinished : ∀ {s₁ : State}, ¬ FinishWait s w t f.e false s₁ := by
    intro s₁ finished
    rcases delivered_of_woke inv on frames pc with ⟨_, _, off⟩ | ⟨⟨n, signal, flags⟩, _⟩
    · simp [waiting.on] at off
    · obtain ⟨⟨k, auto⟩, _⟩ := (inv.thread t).frame f (by simp [State.view, frames])
      cases finished with
      | expected _ woken => simp [signal, auto] at woken
      | requeued _ _ _ _ active => simp [waiting.on] at active
  cases effect with
  | pushed pc' => simp [pc] at pc'
  | scheduled _ pc' _ => simp [pc] at pc'
  | yieldIntr _ yield _ _ _ => simp [call] at yield
  | yieldDone _ yield _ => simp [call] at yield
  | fdIntr _ _ fd _ _ _ => simp [call] at fd
  | fdDone _ _ _ fd _ _ => simp [call] at fd
  | interrupted s₁ _ _ _ => exact returnCall_result s₁ t f .intr
  | again s₁ _ _ finished => exact absurd finished notFinished
  | woken _ _ _ notMutex _ => exact absurd call (notMutex m)
  | prepared _ _ pc' _ _ _ => simp [pc] at pc'
  | held _ _ pc' _ => simp [pc] at pc'
  | acquired _ pc' _ _ => simp [pc] at pc'
  | owned _ pc' _ _ => simp [pc] at pc'
  | taken _ pc' _ _ => simp [pc] at pc'
  | turned pc' turned =>
      rw [pc, call] at turned
      cases turned

/-- A call that sleeps on the queue goes on sleeping, is interrupted, or is given the mutex
by `tc_mutex_unlock` when its event is the first one. -/
theorem Waiting.step (waiting : Waiting s t m f) (inv : SystemInv s) {a : Action}
    (stepped : s.step a = some s') :
    (∃ g, Waiting s' t m g ∧ g.e = f.e) ∨ s'.result f.e = some .intr ∨
      (∃ es, s.mutexQueue m = f.e :: es) ∧ Granted s' t m f := by
  obtain ⟨rest, frames⟩ := waiting.top
  have inside : f.inCondition = false := by simp [Frame.inCondition, waiting.call]
  obtain ⟨_, owned, foreign⟩ := waiting.locking inv
  obtain ⟨_, effect | ⟨fault, _, rfl⟩⟩ := State.step_cases stepped
  · rcases effect.inside inv frames inside with same | ⟨w, rfl, enter, rfl⟩ | ⟨w, rfl, on, effect⟩
    · have frames' := same.1.trans frames
      have inv' := inv.step stepped
      have view : (s'.view t).frames = f :: rest := by simpa [State.view] using frames'
      obtain ⟨⟨n, auto⟩, _⟩ := (inv'.thread t).frame f (view ▸ .head _)
      have locking := (inv'.mutex t).locking f rest m view waiting.call
      have state : (s'.view t).el f.e = some f.call.home ∨ (s'.view t).mutex m = .mine := by
        rcases waiting.pc with pc | pc <;>
        · simp only [Locking, pc] at locking
          exact locking.2.imp And.left And.right
      rcases state with home | mine
      · refine .inl ⟨f, ⟨⟨rest, frames'⟩, waiting.call, waiting.pc, ?_⟩, rfl⟩
        simpa [State.view, State.el, auto, waiting.call, Call.home] using home
      · have owner : s'.owner m = some t := by simpa [State.view] using mine
        rcases effect.owner inv.lists m with kept | free | ⟨w, u, rfl, _, _, _⟩
        · exact absurd (kept.symm.trans owner) foreign
        · exact absurd free owned
        · obtain ⟨g, woken, granted⟩ := Granted.of_unlock inv stepped owner
          obtain ⟨rest', frames''⟩ := granted.top
          obtain ⟨rfl, rfl⟩ := List.cons.inj (frames'.symm.trans frames'')
          refine .inr (.inr ⟨?_, granted⟩)
          unfold tcWaitqWakeupOne at woken
          split at woken
          · cases woken
          · next e es queue => exact ⟨es, by rw [mutexQueue, queue, Option.some.inj woken]⟩
    · refine .inl ⟨{ f with pc := .woke }, ⟨⟨rest, ?_⟩, waiting.call, .inr rfl, waiting.on⟩, rfl⟩
      simp [enterThread, frames]
    · exact .inr (.inl (waiting.effect inv on effect))
  · exact .inl ⟨f, ⟨⟨rest, frames⟩, waiting.call, waiting.pc, waiting.on⟩, rfl⟩

end Waiting

/-! ## First come, first served -/

/-- Of two calls that went to sleep on the queue, with the event of the first one ahead:
both still sleep, or the first one has been served or interrupted, or has the mutex, or the
second one has been interrupted. -/
inductive InOrder (s : State) (m : MutexId) (e₁ e₂ : EventId) : Prop where
  | both {f g : Frame} (first : Waiting s e₁.owner m f) (second : Waiting s e₂.owner m g)
      (same : f.e = e₁) (same' : g.e = e₂) (ahead : Ahead (s.mutexQueue m) e₁ e₂)
  | served (rv : Rv) (result : s.result e₁ = some rv) (outcome : rv = .ok ∨ rv = .intr)
  | granted {f g : Frame} (first : Granted s e₁.owner m f) (second : Waiting s e₂.owner m g)
      (same : f.e = e₁) (same' : g.e = e₂)
  | gaveUp (result : s.result e₂ = some .intr)

theorem Waiting.queued {s : State} {t : Tid} {m : MutexId} {f : Frame}
    (waiting : Waiting s t m f) (inv : SystemInv s) : f.e ∈ s.mutexQueue m :=
  inv.lists.mem_events.mpr waiting.on

private theorem ahead_step {s s' : State} {a : Action} {m : MutexId} {e₁ e₂ : EventId}
    (inv : SystemInv s) (stepped : s.step a = some s') (ahead : Ahead (s.mutexQueue m) e₁ e₂)
    (first : e₁ ∈ s'.mutexQueue m) (second : e₂ ∈ s'.mutexQueue m) :
    Ahead (s'.mutexQueue m) e₁ e₂ := by
  obtain ⟨_, effect | ⟨fault, _, rfl⟩⟩ := State.step_cases stepped
  · rcases effect.queue inv.lists m with sublist | ⟨x, _, appended⟩
    · exact ahead.of_sublist (inv.lists.lists.nodup _) sublist first second
    · exact appended ▸ ahead.append [x]
  · exact ahead

theorem result_stays {s s' : State} {a : Action} (inv : SystemInv s)
    (stepped : s.step a = some s') {e : EventId} {rv : Rv} (auto : ∃ t n, e = .auto t n)
    (result : s.result e = some rv) : s'.result e = some rv := by
  obtain ⟨t, n, rfl⟩ := auto
  have run : Transition.Run State.step Transition.always s s' := .next .refl trivial stepped
  exact (inv.returned run (inv.ended result)).2.trans result

theorem InOrder.step {s s' : State} {a : Action} {m : MutexId} {e₁ e₂ : EventId}
    (order : InOrder s m e₁ e₂) (inv : SystemInv s) (stepped : s.step a = some s')
    (auto₁ : ∃ t n, e₁ = .auto t n) (auto₂ : ∃ t n, e₂ = .auto t n) : InOrder s' m e₁ e₂ := by
  cases order with
  | @both f g first second same same' ahead =>
      subst same same'
      rcases first.step inv stepped with ⟨f', first', same⟩ | intr | ⟨_, granted⟩
      · rcases second.step inv stepped with ⟨g', second', same'⟩ | intr | ⟨⟨es, head⟩, _⟩
        · have inv' := inv.step stepped
          exact .both first' second' same same' (ahead_step inv stepped ahead
            (same ▸ first'.queued inv') (same' ▸ second'.queued inv'))
        · exact .gaveUp intr
        · exact absurd head (ahead.ne_head (inv.lists.lists.nodup _))
      · exact .served .intr intr (.inr rfl)
      · rcases second.step inv stepped with ⟨g', second', same'⟩ | intr | ⟨⟨es, head⟩, _⟩
        · exact .granted granted second' rfl same'
        · exact .gaveUp intr
        · exact absurd head (ahead.ne_head (inv.lists.lists.nodup _))
  | served rv result outcome => exact .served rv (result_stays inv stepped auto₁ result) outcome
  | @granted f g first second same same' =>
      subst same same'
      rcases first.step inv stepped with ok | ⟨f', first', same, _⟩
      · exact .served .ok ok (.inl rfl)
      · rcases second.step inv stepped with ⟨g', second', same'⟩ | intr | ⟨_, granted⟩
        · exact .granted first' second' same same'
        · exact .gaveUp intr
        · -- the mutex cannot have been handed over a second time
          have equal := Option.some.inj (first'.owner.symm.trans granted.owner)
          exact absurd (equal ▸ first.owner) (second.locking inv).2.2
  | gaveUp result => exact .gaveUp (result_stays inv stepped auto₂ result)

/-- The call of `tc_mutex_lock` with event `e` owns the mutex, or has returned `RV_OK`. -/
def HasAcquired (s : State) (m : MutexId) (e : EventId) : Prop :=
  s.result e = some .ok ∨ ∃ f, f.e = e ∧ Granted s e.owner m f

private theorem Waiting.not_acquired {s : State} {m : MutexId} {f : Frame}
    (waiting : Waiting s f.e.owner m f) (inv : SystemInv s) : ¬ HasAcquired s m f.e := by
  rintro (ok | ⟨g, _, granted⟩)
  · obtain ⟨rest, frames⟩ := waiting.top
    obtain ⟨⟨n, auto⟩, live⟩ := (inv.thread f.e.owner).frame f (by simp [State.view, frames])
    rw [auto] at ok live
    have ended := inv.ended ok
    simp [State.view, ended] at live
  · exact (waiting.locking inv).2.2 granted.owner

theorem InOrder.first {s : State} {m : MutexId} {e₁ e₂ : EventId} (order : InOrder s m e₁ e₂)
    (inv : SystemInv s) (auto₂ : ∃ t n, e₂ = .auto t n) (acquired : HasAcquired s m e₂) :
    s.result e₁ = some .ok ∨ s.result e₁ = some .intr := by
  cases order with
  | both _ second _ same' _ =>
      subst same'
      exact absurd acquired (second.not_acquired inv)
  | served rv result outcome => rcases outcome with rfl | rfl <;> simp [result]
  | granted _ second _ same' =>
      subst same'
      exact absurd acquired (second.not_acquired inv)
  | gaveUp result =>
      rcases acquired with ok | ⟨g, same, granted⟩
      · simp [result] at ok
      · obtain ⟨t, n, rfl⟩ := auto₂
        obtain ⟨rest, frames⟩ := granted.top
        obtain ⟨_, live⟩ := (inv.thread t).frame g (by simpa [State.view] using frames ▸ .head _)
        simp [State.view, same, inv.ended result] at live

private theorem unlock_head {s s' : State} {w : WorkerId} {m : MutexId} {e : EventId}
    {es : List EventId} (inv : SystemInv s) (queue : s.mutexQueue m = e :: es)
    (stepped : s.step (.user w (.unlock m)) = some s') :
    s'.owner m = some (s.tc e) ∧ s'.mutexQueue m = es := by
  obtain ⟨_, effect | ⟨fault, failed, _⟩⟩ := State.step_cases stepped
  · cases effect with
    | user _ u _ _ _ _ effect =>
        cases effect with
        | unlock _ _ =>
            rw [tcWaitqWakeupOne_cons queue]
            refine ⟨by simp, ?_⟩
            have rest : s.lists.elems (.waiters (.mutex m)) = e :: es := queue
            have on : s.lists.el e = some (.waiters (.mutex m)) :=
              (inv.lists.lists.mem_iff _ _).mp (rest ▸ List.mem_cons_self)
            simp only [mutexQueue, State.events, iwiImmediate]
            rw [IntrusiveLists.pushFront_elems_of_ne _ _ (by simp),
              IntrusiveLists.remove_elems_of_el on, Function.update_self, rest,
              List.erase_cons_head]
  · cases act_error inv failed

/-- While somebody sleeps on the queue of a mutex, the mutex has an owner; the owner hands
it to the first in the queue, which events join at the end; so of two sleepers the one that
was queued first gets the mutex first, or is interrupted. -/
theorem mutex_waiters_served_in_order {workers : Nat} {domainOf : WorkerId → DomainId} {s : State}
    (reached : Reachable workers domainOf s) (m : MutexId) :
    (∀ e ∈ s.mutexQueue m, s.running (s.tc e) = false →
      s.owner m ≠ none ∧ ∀ u, s.casOwner m u = none) ∧
    (∀ w e es s', s.mutexQueue m = e :: es → s.step (.user w (.unlock m)) = some s' →
      s'.owner m = some (s.tc e) ∧ s'.mutexQueue m = es) ∧
    (∀ a s', s.step a = some s' → (s'.mutexQueue m).Sublist (s.mutexQueue m) ∨
      ∃ e, s.el e = none ∧ s'.mutexQueue m = s.mutexQueue m ++ [e]) ∧
    ∀ e₁ e₂, Ahead (s.mutexQueue m) e₁ e₂ → s.running (s.tc e₁) = false →
      s.running (s.tc e₂) = false →
      ∀ s', Transition.Run State.step Transition.always s s' → HasAcquired s' m e₂ →
        s'.result e₁ = some .ok ∨ s'.result e₁ = some .intr := by
  have inv := SystemInv.run reached
  have sleeps : ∀ e ∈ s.mutexQueue m, s.running (s.tc e) = false →
      (∃ t n, e = .auto t n) ∧ ∃ f, Waiting s e.owner m f ∧ f.e = e := by
    intro e queued stopped
    have on := inv.lists.mem_events.mp queued
    rw [inv.lists.owner e (by simp [on])] at stopped
    obtain ⟨f, waiting, rfl⟩ := Waiting.of_stopped inv queued stopped
    obtain ⟨rest, frames⟩ := waiting.top
    obtain ⟨⟨n, auto⟩, _⟩ := (inv.thread f.e.owner).frame f (by simp [State.view, frames])
    exact ⟨⟨_, n, auto⟩, f, waiting, rfl⟩
  refine ⟨fun e queued stopped => ?_, fun w e es s' queue stepped => unlock_head inv queue stepped,
    fun a s' stepped => ?_, fun e₁ e₂ ahead stopped stopped' s' run acquired => ?_⟩
  · obtain ⟨_, f, waiting, _⟩ := sleeps e queued stopped
    have owned := (waiting.locking inv).2.1
    exact ⟨owned, fun u => by simp [casOwner, owned]⟩
  · obtain ⟨_, effect | ⟨fault, _, rfl⟩⟩ := State.step_cases stepped
    · exact effect.queue inv.lists m
    · exact .inl (.refl _)
  · obtain ⟨auto₁, f, first, same⟩ := sleeps e₁ ahead.first_mem stopped
    obtain ⟨auto₂, g, second, same'⟩ := sleeps e₂ ahead.second_mem stopped'
    have order : InOrder s' m e₁ e₂ := by
      refine run.invariant_of_reached (fun s => InOrder s m e₁ e₂)
        (.both first second same same' ahead) ?_
      intro before after a reached order _ stepped
      exact order.step (inv.later reached) stepped auto₁ auto₂
    exact order.first (inv.later run) auto₂ acquired

set_option maxRecDepth 10000 in
/-- Two threads sleep on the queue of a mutex that a third one holds. -/
theorem mutex_waiters_served_in_order_two :
    ∃ s, Reachable 3 (fun _ => 0) s ∧ s.mutexQueue 0 = [.auto 1 0, .auto 2 0] ∧
      s.owner 0 ≠ none ∧ ∀ s', Transition.Run State.step Transition.always s s' →
        HasAcquired s' 0 (.auto 2 0) →
          s'.result (.auto 1 0) = some .ok ∨ s'.result (.auto 1 0) = some .intr := by
  obtain ⟨s, reached, shown⟩ := reachable_of_exec 3 (fun _ => 0)
    [.user 0 (.trylock 0), .user 1 (.lock 0 0), .advance 1, .advance 1, .advance 1, .advance 1,
      .advance 1, .advance 1, .advance 1, .user 2 (.lock 0 0), .advance 2, .advance 2, .advance 2,
      .advance 2, .advance 2, .advance 2, .advance 2]
    (fun s => s.mutexQueue 0 = [.auto 1 0, .auto 2 0] ∧ s.running (s.tc (.auto 1 0)) = false ∧
      s.running (s.tc (.auto 2 0)) = false) (by decide)
  obtain ⟨queue, stopped, stopped'⟩ := of_decide_eq_true shown
  obtain ⟨owned, _, _, order⟩ := mutex_waiters_served_in_order reached 0
  exact ⟨s, reached, queue, (owned _ (by simp [queue]) stopped).1,
    order _ _ (by rw [queue]; exact .refl _) stopped stopped'⟩

end Libtcr
