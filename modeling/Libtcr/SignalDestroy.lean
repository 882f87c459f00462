import Libtcr.SignalProperties
import Libtcr.FaultProperties

/-! `tc_signal_destroy`, which takes the events of all subscriptions off their lists. It holds the
lock of the waiters of the signal, and `remove_event` takes the lock of the list that an event is
on. -/

set_option autoImplicit false

namespace Libtcr

open State

inductive DestroyFault where
  | deadlock
  /-- `remove_event` waits for an event that is on no list. -/
  | spins
  | stillWaiters
  deriving DecidableEq, Repr

namespace State

/-- `remove_event`, called with the lock of the list `held` taken. -/
def removeEventHolding (s : State) (held : EventList) (e : EventId) : Except DestroyFault State :=
  match s.el e with
  | none => .error .spins
  | some k => if k = held then .error .deadlock else .ok (s.detachEvent e)

def removeSub (s : State) (g : SignalId) (e : EventId) : State :=
  { s with sss := Function.update s.sss g ((s.sss g).erase e) }

/-- The loop of `tc_signal_destroy` over the subscriptions that are left. -/
def destroyLoop (g : SignalId) : List EventId → State → Except DestroyFault State
  | [], s => .ok s
  | e :: es, s =>
    match s.removeEventHolding (.waiters (.signal g)) e with
    | .error fault => .error fault
    | .ok s' => destroyLoop g es (s'.removeSub g e)

def tcSignalDestroy (s : State) (g : SignalId) : Except DestroyFault State :=
  match destroyLoop g (s.sss g) s with
  | .error fault => .error fault
  | .ok s' => if s'.events (.waiters (.signal g)) = [] then .ok s' else .error .stillWaiters

end State

/-- The subscriptions of a signal and the lists their events are on. -/
structure SignalLists (s : State) (g : SignalId) : Prop where
  lists : s.lists.WellFormed
  nodup : (s.sss g).Nodup
  placed : ∀ e ∈ s.sss g, s.el e = some (.waiters (.signal g)) ∨ s.el e = some .immediate ∨
    s.el e = some (.pending (s.tc e))
  only : ∀ e, s.el e = some (.waiters (.signal g)) → e ∈ s.sss g

/-! ## The subscriptions of a signal in every run -/

inductive SssStep (s s' : State) : Prop where
  | same (sss : s'.sss = s.sss) (signal : s'.signal = s.signal)
      (life : ∀ t n, s'.life (.sub t n) = s.life (.sub t n))
  | subscribed (t : Tid) (n : Nat) (g : SignalId) (unused : s.life (.sub t n) = .unused)
      (sss : s'.sss = Function.update s.sss g (.sub t n :: s.sss g))
      (signal : s'.signal = Function.update s.signal (.sub t n) g)
      (life : s'.life = Function.update s.life (.sub t n) .live)
  | unsubscribed (t : Tid) (n : Nat) (live : s.life (.sub t n) = .live)
      (sss : s'.sss = Function.update s.sss (s.signal (.sub t n))
        ((s.sss (s.signal (.sub t n))).erase (.sub t n)))
      (signal : s'.signal = s.signal)
      (life : s'.life = Function.update s.life (.sub t n) .dead)

section Steps

variable {s s' : State} {w : WorkerId} {t : Tid}

structure SameSss (s s' : State) : Prop where
  sss : s'.sss = s.sss
  signal : s'.signal = s.signal
  life : ∀ t n, s'.life (.sub t n) = s.life (.sub t n)

theorem SameSss.step (same : SameSss s s') : SssStep s s' := .same same.sss same.signal same.life

private theorem runOrQueue_sss {e : EventId} {tcfd : Option FdId} {chosen : Option Tid}
    (ran : RunOrQueue (s.served w tcfd) w e chosen s') : SameSss s s' := by
  obtain ⟨_, _, _, _, _, _, _, rfl⟩ := ran.frame
  exact ⟨rfl, rfl, fun _ _ => rfl⟩

private theorem tcWaitqWakeupOne_sss (s : State) (wq : Waitq) :
    SameSss s (s.tcWaitqWakeupOne wq).1 := by
  obtain ⟨_, _, _, frame⟩ := tcWaitqWakeupOne_frame s wq
  rw [frame]
  exact ⟨rfl, rfl, fun _ _ => rfl⟩

private theorem finishWait_sss {e : EventId} {rv : Bool} (finished : FinishWait s w t e rv s') :
    SameSss s s' := by
  obtain ⟨_, _, _, _, _, _, _, rfl⟩ := finished.frame
  exact ⟨rfl, rfl, fun _ _ => rfl⟩

theorem State.UserEffect.sssStep {op : UserOp} (effect : UserEffect s w t op s') : SssStep s s' := by
  cases effect with
  | wakeupOne q => exact (tcWaitqWakeupOne_sss s _).step
  | subscribe g n _ unused subscribed =>
      obtain ⟨_, rfl⟩ := tcSignalSubscribe_ok subscribed
      exact .subscribed t n g unused rfl rfl rfl
  | unsubscribe u n live => exact .unsubscribed u n live rfl rfl rfl
  | unlock m _ =>
      have same := tcWaitqWakeupOne_sss s (.mutex m)
      exact .same same.sss same.signal same.life
  | threadPost v s₁ created added =>
      obtain ⟨_, rfl⟩ := addEventCr_ok added
      exact .same rfl rfl fun _ _ => rfl
  | yield n s₁ _ added =>
      obtain ⟨_, rfl⟩ := addEventCr_ok added
      exact .same rfl rfl fun _ _ => rfl
  | waitFdFailed n g mask priority ctl s₁ _ refused =>
      cases refused <;> exact .same rfl rfl fun _ _ => rfl
  | waitFd n g mask priority ctl s₁ _ added =>
      cases added
      exact .same rfl rfl fun _ _ => rfl
  | waitqWait n q s₁ _ prepared =>
      obtain ⟨_, rfl⟩ := tcWaitqPrepareToWait_ok prepared
      exact .same rfl rfl fun _ _ => rfl
  | threadWait n v d id s₁ _ prepared =>
      obtain ⟨_, rfl⟩ := tcWaitqPrepareToWait_ok prepared
      exact .same rfl rfl fun _ _ => rfl
  | _ => exact .same rfl rfl fun _ _ => rfl

theorem SameSss.returnCall {f : Frame} {s₁ : State} (same : SameSss s s₁)
    (auto : ∃ n, f.e = .auto t n) (rv : Rv) : SameSss s (s₁.returnCall t f rv) := by
  obtain ⟨n, event⟩ := auto
  refine ⟨same.sss, same.signal, fun u k => ?_⟩
  rw [← same.life]
  simp [State.returnCall, endEvent, event]

theorem SameSss.returnIntr {f : Frame} {s₁ : State} (same : SameSss s s₁)
    (auto : ∃ n, f.e = .auto t n) (cause : Option EventId) :
    SameSss s (s₁.returnIntr t f cause) :=
  { same.returnCall auto .intr with }

private theorem State.FrameEffect.sameSss {f : Frame} (effect : FrameEffect s w t f s')
    (auto : ∃ n, f.e = .auto t n) : SameSss s s' := by
  cases effect with
  | scheduled _ _ scheduled => cases scheduled <;> exact ⟨rfl, rfl, fun _ _ => rfl⟩
  | yieldIntr _ _ _ _ _ =>
      apply SameSss.returnIntr ?_ auto
      exact ⟨rfl, rfl, fun _ _ => rfl⟩
  | yieldDone _ _ _ =>
      apply SameSss.returnCall ?_ auto
      exact ⟨rfl, rfl, fun _ _ => rfl⟩
  | fdIntr _ _ _ _ _ _ =>
      apply SameSss.returnIntr ?_ auto
      exact ⟨rfl, rfl, fun _ _ => rfl⟩
  | fdDone _ rv _ _ _ _ =>
      apply SameSss.returnCall ?_ auto
      exact ⟨rfl, rfl, fun _ _ => rfl⟩
  | interrupted s₁ _ _ finished => exact (finishWait_sss finished).returnIntr auto _
  | again s₁ _ _ finished => exact { finishWait_sss finished with }
  | woken s₁ _ _ _ finished => exact (finishWait_sss finished).returnCall auto _
  | prepared wq s₁ _ _ _ prepared =>
      obtain ⟨_, rfl⟩ := tcWaitqPrepareToWait_ok prepared
      exact ⟨rfl, rfl, fun _ _ => rfl⟩
  | held s₁ rv _ finished => exact (finishWait_sss finished).returnCall auto _
  | acquired m _ _ _ =>
      apply SameSss.returnCall ?_ auto
      exact ⟨rfl, rfl, fun _ _ => rfl⟩
  | owned m _ _ _ =>
      apply SameSss.returnCall ?_ auto
      exact ⟨rfl, rfl, fun _ _ => rfl⟩
  | _ => exact ⟨rfl, rfl, fun _ _ => rfl⟩

theorem State.Effect.sssStep {a : Action} (effect : s.Effect a s') (inv : SystemInv s) :
    SssStep s s' := by
  have auto : ∀ {u f rest}, s.frames u = f :: rest → ∃ n, f.e = .auto u n := by
    intro u f rest frames
    have member : f ∈ (s.view u).frames := by simp [State.view, frames]
    exact ((inv.thread u).frame f member).1
  have through : ∀ {e : EventId} {tcfd : Option FdId} {chosen : Option Tid} {s₁ : State} {w : WorkerId},
      RunOrQueue (s.served w tcfd) w e chosen s₁ → s'.sss = s₁.sss → s'.signal = s₁.signal →
      (∀ u n, s'.life (.sub u n) = s₁.life (.sub u n)) → SssStep s s' := by
    intro e tcfd chosen s₁ w ran sss signal life
    have same := runOrQueue_sss ran
    exact .same (sss.trans same.sss) (signal.trans same.signal)
      fun u n => (life u n).trans (same.life u n)
  cases effect with
  | queued w scan x s₁ _ _ ran => exact through ran rfl rfl fun _ _ => rfl
  | reaped w scan x u s₁ _ _ _ ran => exact through ran rfl rfl fun _ _ => rfl
  | chosen w scan x u s₁ immediateFd _ _ _ ran => exact through ran rfl rfl fun _ _ => rfl
  | reported w g em _ _ =>
      obtain ⟨moved, choice, handled⟩ := handleReport_spec (fun f => inv.lists.lists.nodup (.fd f)) w g em
      obtain ⟨errHup, fdEpEvents, equal⟩ := handled.effect
      rw [equal]
      exact .same rfl rfl fun _ _ => rfl
  | reportQueued w g x s₁ _ _ ran => exact through ran rfl rfl fun _ _ => rfl
  | reportChosen w g x u s₁ _ _ ran => exact through ran rfl rfl fun _ _ => rfl
  | user w u op _ _ _ effect => exact effect.sssStep
  | returned w value u f rest k _ frames _ _ =>
      have same : SameSss s s := ⟨rfl, rfl, fun _ _ => rfl⟩
      exact (same.returnCall (auto frames) _).step
  | advanced w u g rest _ _ frames effect => exact (effect.sameSss (auto frames)).step
  | died w u _ _ _ effect =>
      cases effect with
      | exits s₁ _ added =>
          obtain ⟨_, rfl⟩ := addEventCr_ok added
          exact .same rfl rfl fun _ _ => rfl
      | _ => exact .same rfl rfl fun _ _ => rfl
  | _ => exact .same rfl rfl fun _ _ => rfl

end Steps

/-- `s->sss` holds the subscriptions that have not been cancelled, each of them once. -/
structure SssInv (s : State) : Prop where
  nodup : ∀ g, (s.sss g).Nodup
  mem : ∀ g e, e ∈ s.sss g ↔ s.Subscribed g e

section Invariant

variable {s s' : State} {g : SignalId}

theorem subscribed_sub {t : Tid} {n : Nat} :
    s.Subscribed g (.sub t n) ↔ s.life (.sub t n) = .live ∧ s.signal (.sub t n) = g :=
  ⟨fun subscribed => subscribed.2, fun both => ⟨⟨t, n, rfl⟩, both⟩⟩

theorem SssInv.step (inv : SssInv s) (step : SssStep s s') : SssInv s' := by
  cases step with
  | same sss signal life =>
      refine ⟨fun g => sss ▸ inv.nodup g, fun g e => ?_⟩
      rw [sss, inv.mem]
      constructor
      · rintro ⟨⟨t, n, rfl⟩, both⟩
        exact subscribed_sub.mpr (by rwa [life, signal])
      · rintro ⟨⟨t, n, rfl⟩, both⟩
        exact subscribed_sub.mpr (by rwa [life, signal] at both)
  | subscribed t n g unused sss signal life =>
      have new : ∀ h, .sub t n ∉ s.sss h := by
        intro h member
        have live := ((inv.mem h _).mp member).2.1
        simp [unused] at live
      constructor
      case nodup =>
        rw [sss]
        exact (Function.forall_update_iff s.sss fun _ es => es.Nodup).mpr
          ⟨List.nodup_cons.mpr ⟨new g, inv.nodup g⟩, fun h _ => inv.nodup h⟩
      case mem =>
        intro h e
        by_cases this : e = .sub t n
        · subst this
          rw [subscribed_sub, sss, signal, life]
          by_cases same : h = g
          · simp [same]
          · simp [same, Ne.symm same, new h]
        · have kept : s'.Subscribed h e ↔ s.Subscribed h e := by
            unfold State.Subscribed
            rw [signal, life, Function.update_of_ne this, Function.update_of_ne this]
          rw [kept, ← inv.mem, sss]
          by_cases same : h = g
          · simp [same, this]
          · simp [same]
  | unsubscribed t n live sss signal life =>
      constructor
      case nodup =>
        rw [sss]
        exact (Function.forall_update_iff s.sss fun _ es => es.Nodup).mpr
          ⟨(inv.nodup _).erase _, fun h _ => inv.nodup h⟩
      case mem =>
        intro h e
        by_cases this : e = .sub t n
        · subst this
          rw [subscribed_sub, life, sss]
          by_cases same : h = s.signal (.sub t n)
          · simp [same, (inv.nodup _).mem_erase_iff]
          · have off : .sub t n ∉ s.sss h := by
              rw [inv.mem, subscribed_sub]
              exact fun both => same both.2.symm
            simp [same, off]
        · have kept : s'.Subscribed h e ↔ s.Subscribed h e := by
            unfold State.Subscribed
            rw [signal, life, Function.update_of_ne this]
          rw [kept, ← inv.mem, sss]
          by_cases same : h = s.signal (.sub t n)
          · simp [same, (inv.nodup _).mem_erase_iff, this]
          · simp [same]

theorem SssInv.later {ok : State → Action → Prop} {start : State} (sys : SystemInv start)
    (inv : SssInv start) (run : Transition.Run State.step ok start s) : SssInv s := by
  have both : SystemInv s ∧ SssInv s := by
    refine run.invariant (fun s => SystemInv s ∧ SssInv s) ⟨sys, inv⟩ ?_
    intro s a s' ⟨sys, inv⟩ _ stepped
    refine ⟨sys.step stepped, ?_⟩
    obtain ⟨_, effect | ⟨fault, _, rfl⟩⟩ := State.step_cases stepped
    · exact inv.step (effect.sssStep sys)
    · exact inv.step (.same rfl rfl fun _ _ => rfl)
  exact both.2

theorem SssInv.initial (workers : Nat) (domainOf : WorkerId → DomainId) :
    SssInv (.initial workers domainOf) := by
  refine ⟨fun g => by simp [State.initial], fun g e => ?_⟩
  refine iff_of_false (by simp [State.initial]) ?_
  rintro ⟨⟨t, n, rfl⟩, live, _⟩
  simp [State.initial] at live

private theorem SignalLists.of_reachable {workers : Nat} {domainOf : WorkerId → DomainId}
    (reached : Reachable workers domainOf s) (g : SignalId) : SignalLists s g := by
  have inv := SystemInv.run reached
  have subs := (SssInv.initial workers domainOf).later (SystemInv.initial workers domainOf) reached
  refine ⟨inv.lists.lists, subs.nodup g, ?_, ?_⟩
  · intro e member
    obtain ⟨⟨t, n, rfl⟩, live, rfl⟩ := (subs.mem g e).mp member
    have placed := (inv.thread t).subs n (by simpa [State.view] using live)
    simp only [State.view, own_sub] at placed
    have owner : s.tc (.sub t n) = t := by
      refine inv.lists.owner (.sub t n) (fun off => ?_)
      simp [State.el] at off
      simp [off] at placed
    rwa [owner]
  · intro e waits
    have live := inv.live_of_placed (show s.el e ≠ none by simp [waits])
    cases e with
    | auto t n =>
        have on : (s.view t).el (.auto t n) = some (.waiters (.signal g)) := by
          simpa [State.view, State.el] using waits
        obtain ⟨f, member, event⟩ := (inv.thread t).autoLive n (by simpa [State.view] using live)
        have placed := ((inv.thread t).located f member).placed (by simp [event, on])
        rw [Placed, event, on] at placed
        -- no call waits in the queue of a signal
        cases call : f.call <;> simp [call, Call.home] at placed
    | sub t n =>
        have placed := (inv.thread t).subs n (by simpa [State.view] using live)
        simp only [State.view, own_sub] at placed
        have on : s.lists.el (.sub t n) = some (.waiters (.signal g)) := waits
        have mine : s.signal (.sub t n) = g := by simpa [on, eq_comm] using placed
        exact (subs.mem g _).mpr (subscribed_sub.mpr ⟨live, mine⟩)
    | self t =>
        have immediate := (inv.thread t).selfEvent (.waiters (.signal g))
          (by simpa [State.view, State.el] using waits)
        cases immediate.1

end Invariant

/-! ## The call -/

structure Destroyed (s : State) (g : SignalId) (s' : State) : Prop where
  sss : s'.sss g = []
  waiters : s'.events (.waiters (.signal g)) = []
  el : ∀ e ∈ s.sss g, s'.el e = none
  refcnt : ∀ t, s'.refcnt t = s.refcnt t - (s.sss g).countP fun e => s.tc e = t

section Call

variable {s : State} {g : SignalId} {es : List EventId}

private theorem detached_el {e : EventId} (fresh : e ∉ es) (s : State) (g : SignalId) :
    ∀ x ∈ es, ((s.detachEvent e).removeSub g e).el x = s.el x := by
  intro x member
  have different : x ≠ e := fun same => fresh (same ▸ member)
  simp [State.el, removeSub, detachEvent, unlinkEvent, different]

private theorem destroyLoop_ok (left : s.sss g = es) (nodup : es.Nodup)
    (placed : ∀ e ∈ es, s.el e ≠ none)
    (elsewhere : ∀ e ∈ es, s.el e ≠ some (.waiters (.signal g))) :
    ∃ s', destroyLoop g es s = .ok s' ∧ s'.sss g = [] ∧
      s'.events (.waiters (.signal g)) = s.events (.waiters (.signal g)) ∧
      (∀ e, s'.el e = if e ∈ es then none else s.el e) ∧
      ∀ t, s'.refcnt t = s.refcnt t - es.countP fun e => s.tc e = t := by
  induction es generalizing s with
  | nil => exact ⟨s, rfl, left, rfl, by simp, by simp⟩
  | cons e es ih =>
      obtain ⟨fresh, nodup⟩ := List.nodup_cons.mp nodup
      obtain ⟨k, on⟩ := Option.ne_none_iff_exists'.mp (placed e (.head _))
      have other : k ≠ .waiters (.signal g) := fun same => elsewhere e (.head _) (same ▸ on)
      have removed : s.removeEventHolding (.waiters (.signal g)) e = .ok (s.detachEvent e) := by
        simp [removeEventHolding, on, other]
      have el := detached_el fresh s g
      have next : ((s.detachEvent e).removeSub g e).sss g = es := by
        simp [removeSub, detachEvent, unlinkEvent, left]
      obtain ⟨s', looped, sss, waiters, off, refcnt⟩ := ih next nodup
        (fun x member => el x member ▸ placed x (.tail _ member))
        (fun x member => el x member ▸ elsewhere x (.tail _ member))
      refine ⟨s', by simp only [destroyLoop, removed, looped], sss, ?_, ?_, ?_⟩
      · rw [waiters]
        exact IntrusiveLists.remove_elems_of_ne (elsewhere e (.head _))
      · intro x
        rw [off]
        by_cases same : x = e
        · simp [same, State.el, removeSub, detachEvent, unlinkEvent]
        · simp [same, State.el, removeSub, detachEvent, unlinkEvent]
      · intro t
        rw [refcnt, List.countP_cons]
        by_cases same : s.tc e = t
        · simp [same, removeSub, detachEvent, unlinkEvent]
          omega
        · simp [same, Ne.symm same, removeSub, detachEvent, unlinkEvent]

private theorem destroyLoop_deadlock (nodup : es.Nodup) (placed : ∀ e ∈ es, s.el e ≠ none)
    (waits : ∃ e ∈ es, s.el e = some (.waiters (.signal g))) :
    destroyLoop g es s = .error .deadlock := by
  induction es generalizing s with
  | nil => simp at waits
  | cons e es ih =>
      obtain ⟨fresh, nodup⟩ := List.nodup_cons.mp nodup
      obtain ⟨k, on⟩ := Option.ne_none_iff_exists'.mp (placed e (.head _))
      by_cases own : k = .waiters (.signal g)
      · simp [destroyLoop, removeEventHolding, on, own]
      · have el := detached_el fresh s g
        obtain ⟨x, member, waits⟩ := waits
        have later : x ∈ es := by
          rcases List.mem_cons.mp member with rfl | later
          · rw [on] at waits
            exact absurd (Option.some.inj waits) own
          · exact later
        have looped := ih (s := (s.detachEvent e).removeSub g e) nodup
          (fun x member => el x member ▸ placed x (.tail _ member)) ⟨x, later, el x later ▸ waits⟩
        simp only [destroyLoop, removeEventHolding, on, if_neg own, looped]

/-- `tc_signal_destroy` detaches every subscriber if and only if none of their events is on the
list whose lock it holds. -/
theorem signal_destroy_iff (valid : SignalLists s g) :
    (∃ s', s.tcSignalDestroy g = .ok s' ∧ Destroyed s g s') ↔
      ∀ e ∈ s.sss g, s.el e ≠ some (.waiters (.signal g)) := by
  have placed : ∀ e ∈ s.sss g, s.el e ≠ none := by
    intro e member off
    have on := valid.placed e member
    simp [off] at on
  constructor
  · rintro ⟨s', returned, _⟩ e member waits
    have stuck := destroyLoop_deadlock valid.nodup placed ⟨e, member, waits⟩
    simp [tcSignalDestroy, stuck] at returned
  · intro elsewhere
    obtain ⟨s', looped, sss, waiters, el, refcnt⟩ := destroyLoop_ok rfl valid.nodup placed elsewhere
    have none_waits : s.events (.waiters (.signal g)) = [] := by
      apply List.eq_nil_iff_forall_not_mem.mpr
      intro e member
      have waits := (valid.lists.mem_iff _ e).mp member
      exact elsewhere e (valid.only e waits) waits
    rw [none_waits] at waiters
    refine ⟨s', by simp [tcSignalDestroy, looped, waiters], sss, waiters, ?_, refcnt⟩
    intro e member
    rw [el, if_pos member]

end Call

/-- Two subscriptions have been fired, and neither has been delivered. -/
theorem signal_destroy_fired : ∃ s, Reachable 1 (fun _ => 0) s ∧
    s.sss 0 = [.sub 0 1, .sub 0 0] ∧ ∃ s', s.tcSignalDestroy 0 = .ok s' ∧ Destroyed s 0 s' := by
  obtain ⟨s, reached, shown⟩ := reachable_of_exec 1 (fun _ => 0)
    [.user 0 (.subscribe 0 0), .user 0 (.subscribe 0 1), .user 0 (.fire 0)]
    (fun s => s.sss 0 = [.sub 0 1, .sub 0 0] ∧
      ∀ e ∈ s.sss 0, s.el e ≠ some (.waiters (.signal 0))) (by decide)
  obtain ⟨sss, fired⟩ := of_decide_eq_true shown
  exact ⟨s, reached, sss, (signal_destroy_iff (.of_reachable reached 0)).mpr fired⟩

/-- With one subscription that waits for the signal the call does not return. -/
theorem signal_destroy_deadlock : ∃ s, Reachable 1 (fun _ => 0) s ∧ s.sss 0 = [.sub 0 0] ∧
    s.el (.sub 0 0) = some (.waiters (.signal 0)) ∧
    destroyLoop 0 (s.sss 0) s = .error .deadlock ∧
    ¬ ∃ s', s.tcSignalDestroy 0 = .ok s' ∧ Destroyed s 0 s' := by
  obtain ⟨s, reached, shown⟩ := reachable_of_exec 1 (fun _ => 0) [.user 0 (.subscribe 0 0)]
    (fun s => s.sss 0 = [.sub 0 0] ∧ s.el (.sub 0 0) = some (.waiters (.signal 0))) (by decide)
  obtain ⟨sss, waits⟩ := of_decide_eq_true shown
  have stuck : destroyLoop 0 (s.sss 0) s = .error .deadlock :=
    destroyLoop_deadlock (by simp [sss]) (by simp [sss, waits]) ⟨_, by simp [sss], waits⟩
  refine ⟨s, reached, sss, waits, stuck, ?_⟩
  rintro ⟨s', returned, _⟩
  simp [tcSignalDestroy, stuck] at returned

end Libtcr
