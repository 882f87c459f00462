import Libtcr.ListInvariantProperties
import Libtcr.MutexInvariant
import Libtcr.ControlInvariant
import Libtcr.ViewLemmas

/-! Every step of the system is, for every thread, a sequence of steps of its view. -/

set_option autoImplicit false

namespace Libtcr

def Frame.finishes (f : Frame) : Bool :=
  (f.pc = .woke && !f.call.isLeaf) || f.pc = .holds

namespace State

/-- The worker is about to call `tc_waitq_finish_wait` for its thread's top frame, with a
`woken_by_event` that is set, and is not the event of the frame. -/
def finishesOther (s : State) (w : WorkerId) (f : Frame) : Bool :=
  f.finishes &&
    match s.wokenByEvent w with
    | none => false
    | some x => x ≠ f.e

/-- The action leaves `tc_waitq_finish_wait` by its last exit: there is a signal, and
the event it was called for is not active. -/
def signalOnlyExit (s : State) : Action → Bool
  | .advance w =>
    match s.mode w with
    | .thread t =>
      match s.frames t with
      | f :: _ => s.finishesOther w f && !s.isActive t f.e
      | [] => false
    | _ => false
  | _ => false

/-- The action makes `tc_waitq_finish_wait` put a signal back on the pending list although
the call was not woken by it: its condition was true. -/
def staleRequeue (s : State) : Action → Bool
  | .advance w =>
    match s.mode w with
    | .thread t =>
      match s.frames t with
      | f :: _ => f.pc = .holds && s.finishesOther w f && s.isActive t f.e
      | [] => false
    | _ => false
  | _ => false

/-- The frames of the thread that takes the action, below the top one. -/
def outerFrames (s : State) : Action → List Frame
  | .advance w =>
    match s.mode w with
    | .thread t => (s.frames t).tail
    | _ => []
  | _ => []

def Special (s : State) (a : Action) (t : Tid) : Kind → Prop
  | .plain => True
  | .signalOnly nested =>
    s.signalOnlyExit a = true ∧ nested = !(s.outerFrames a).isEmpty
  | .staleRequeue => s.staleRequeue a = true
  | .cancel e => ∃ w n, a = .user w (.unsubscribe t n) ∧ e = .sub t n

/-- One of the steps that action `a` in state `s` is for thread `t`. -/
def ViewMove (s : State) (a : Action) (t : Tid) (v v' : View) : Prop :=
  ∃ kind, (kind = .plain ∨ v = s.view t ∧ s.Special a t kind) ∧ ViewStep t v kind v'

def ViewMoves (s : State) (a : Action) (t : Tid) : View → View → Prop :=
  Relation.ReflTransGen (s.ViewMove a t)

namespace ViewMoves

variable {s : State} {a : Action} {t : Tid} {v v' v'' : View}

theorem same (equal : v' = v) : s.ViewMoves a t v v' := equal ▸ .refl

theorem plain (step : ViewStep t v .plain v') : s.ViewMoves a t v v' :=
  .single ⟨.plain, .inl rfl, step⟩

theorem plain_to (equal : v'' = v') (step : ViewStep t v .plain v') : s.ViewMoves a t v v'' :=
  equal ▸ plain step

theorem special {kind : Kind} (allowed : s.Special a t kind)
    (step : ViewStep t (s.view t) kind v') : s.ViewMoves a t (s.view t) v' :=
  .single ⟨kind, .inr ⟨rfl, allowed⟩, step⟩

theorem ends (moves : s.ViewMoves a t v v') (equal : v'' = v') : s.ViewMoves a t v v'' :=
  equal ▸ moves

private theorem then_plain (moves : s.ViewMoves a t v v') (step : ViewStep t v' .plain v'') :
    s.ViewMoves a t v v'' :=
  moves.tail ⟨.plain, .inl rfl, step⟩

theorem then_plain_to {v₁ : View} (moves : s.ViewMoves a t v v') (equal : v₁ = v'')
    (step : ViewStep t v' .plain v'') : s.ViewMoves a t v v₁ :=
  equal ▸ moves.then_plain step

end ViewMoves

end State

open State

/-! ## The scheduler -/

section RunOrQueue

variable {base s s₁ : State} {a : Action} {w : WorkerId} {e : EventId} {u : Tid}

theorem runOrQueue_queued (ran : RunOrQueue s w e none s₁) (owner : s.tc e = e.owner)
    (served : ∀ k, s.el e = some k → k.served = true) (t : Tid) :
    base.ViewMoves a t (s.view t) (s₁.view t) := by
  cases ran with
  | queued k tcfd on elsewhere stays refused =>
      rw [owner] at refused ⊢
      by_cases own : e.owner = t
      · have after : ({ s with tcfd := tcfd }.relocateEvent e (.pending e.owner)).view t =
            { s.view t with el := Function.update (s.view t).el e (some (.pending t)) } := by
          simp [State.view, relocateEvent, unlinkEvent, own_update own, own]
        rw [after]
        subst own
        exact .plain (.queue e k rfl (by simpa [State.view, State.el] using on) (served k on)
          (by simpa [State.view] using stays) (by simpa [State.view] using refused))
      · refine .same ?_
        simp [State.view, relocateEvent, unlinkEvent, own_update_other own]

theorem runOrQueue_reaped (ran : RunOrQueue s w e (some u) s₁) (owner : s.tc e = e.owner)
    (exiting : s.flags e = .exiting) (away : ∀ t x, placeOf t (s.mode w) x = .away) (t : Tid) :
    base.ViewMoves a t (s.view t)
      (State.view { s₁ with mode := Function.update s₁.mode w (.free u) } t) := by
  cases ran with
  | exits _ on =>
      by_cases own : e.owner = t
      · have after : State.view { s.detachEvent e with
              mode := Function.update (s.detachEvent e).mode w (.free (s.tc e)) } t =
            { s.view t with
              el := Function.update (s.view t).el e none
              place := Function.update (s.view t).place w .freeing } := by
          simp [State.view, detachEvent, unlinkEvent, own_update own, owner, own,
            places_update_mode]
        rw [after]
        exact .plain (.reap w e own (by simpa [State.view, State.el, own] using on)
          (by simpa [State.view, own] using exiting) (away t _))
      · refine .same ?_
        simp [State.view, detachEvent, unlinkEvent, own_update_other own, owner, away,
          places_update_mode, placeOf_free_other _ own]
  | signalled k _ _ signal _ => simp [exiting] at signal
  | selected k _ _ stays _ _ => exact absurd exiting stays

theorem runOrQueue_chosen (ran : RunOrQueue s w e (some u) s₁) (owner : s.tc e = e.owner)
    (served : ∀ k, s.el e = some k → k.served = true)
    (stays : s.flags e ≠ .exiting) (away : ∀ t x, placeOf t (s.mode w) x = .away) (t : Tid) :
    base.ViewMoves a t (s.view t)
      (State.view { s₁ with mode := Function.update s₁.mode w (.enter u) } t) := by
  cases ran with
  | exits exiting _ => exact absurd exiting stays
  | signalled k on _ signal idle =>
      by_cases own : e.owner = t
      · have after : State.view { s.relocateEvent e (.waiters (.signal (s.signal e))) with
              running := Function.update s.running (s.tc e) true
              wokenByEvent := Function.update s.wokenByEvent w (some e)
              mode := Function.update s.mode w (.enter (s.tc e)) } t =
            { s.view t with
              running := true
              el := Function.update (s.view t).el e
                (some (.waiters (.signal ((s.view t).signal e))))
              place := Function.update (s.view t).place w (.entering (some e)) } := by
          simp [State.view, relocateEvent, unlinkEvent, own_update own, owner, own, places_update]
        refine .plain_to after ?_
        exact .selectSignal w e k own (by simpa [State.view, State.el, own] using on)
          (served k on) (by simpa [State.view, own] using signal)
          (by simpa [State.view, owner, own] using idle) (away t _)
      · refine .same ?_
        simp [State.view, relocateEvent, unlinkEvent, own_update_other own, owner, away,
          places_update, placeOf_enter_other _ own, Ne.symm own]
  | selected k on event _ idle top =>
      by_cases own : e.owner = t
      · have after : State.view { s.detachEvent e with
              running := Function.update s.running (s.tc e) true
              wokenByEvent := Function.update s.wokenByEvent w (some e)
              mode := Function.update s.mode w (.enter (s.tc e)) } t =
            { s.view t with
              running := true
              el := Function.update (s.view t).el e none
              place := Function.update (s.view t).place w (.entering (some e)) } := by
          simp [State.view, detachEvent, unlinkEvent, own_update own, owner, own, places_update]
        refine .plain_to after ?_
        exact .selectEvent w e k own (by simpa [State.view, State.el, own] using on)
          (served k on) (by simpa [State.view, own] using event)
          (by simpa [State.view, own] using stays)
          (by simpa [State.view, owner, own] using idle)
          (by simpa [State.view, owner, own] using top) (away t _)
      · refine .same ?_
        simp [State.view, detachEvent, unlinkEvent, own_update_other own, owner, away,
          places_update, placeOf_enter_other _ own, Ne.symm own]

end RunOrQueue

/-! ## Waking and handing over -/

section Wakeup

variable {base s : State} {a : Action}

theorem wake_moves {s' : State} (moved : List EventId)
    (el : ∀ e, s'.lists.el e = if e ∈ moved then some .immediate else s.lists.el e)
    (queued : ∀ e ∈ moved, ∃ k, s.el e = some k ∧ k.wakes = true) (t : Tid)
    (others : s'.view t = { s.view t with el := (s'.view t).el }) :
    base.ViewMoves a t (s.view t) (s'.view t) := by
  rw [others]
  have after : (s'.view t).el = fun e =>
      if decide (e.owner = t ∧ e ∈ moved) then some .immediate else (s.view t).el e := by
    funext e
    by_cases own : e.owner = t
    · by_cases member : e ∈ moved <;> simp [State.view, Libtcr.own, own, el, member]
    · simp [State.view, Libtcr.own, own]
  rw [after]
  refine .plain (.wake _ fun e woken => ?_)
  obtain ⟨own, member⟩ : e.owner = t ∧ e ∈ moved := by simpa using woken
  obtain ⟨k, on, wakes⟩ := queued e member
  exact ⟨k, by simpa [State.view, State.el, own] using on, wakes⟩

theorem wakeupAll_moves (inv : ListInv s) (wq : Waitq)
    (wakes : (EventList.waiters wq).wakes = true) (t : Tid) :
    base.ViewMoves a t (s.view t) ((s.tcWaitqWakeupAll wq).view t) := by
  refine wake_moves (s.events (.waiters wq)) (fun e => ?_) (fun e member => ?_) t ?_
  · rw [tcWaitqWakeupAll_lists]
    exact (IntrusiveLists.movesTo_front EventList.immediate).foldl_el s.lists _ e
  · exact ⟨_, inv.mem_events.mp member, wakes⟩
  · simp [State.view, tcWaitqWakeupAll]

private theorem wakeupOne_moves (inv : ListInv s) (wq : Waitq)
    (wakes : (EventList.waiters wq).wakes = true) (t : Tid) :
    base.ViewMoves a t (s.view t) ((s.tcWaitqWakeupOne wq).1.view t) := by
  cases queue : s.events (.waiters wq) with
  | nil => exact .same (by rw [tcWaitqWakeupOne_nil queue])
  | cons e es =>
      have on : s.el e = some (.waiters wq) := inv.mem_events.mp (by simp [queue])
      rw [tcWaitqWakeupOne_cons queue]
      refine wake_moves [e] (fun x => ?_) (fun x member => ?_) t ?_
      · by_cases same : x = e <;> simp [iwiImmediate, same]
      · obtain rfl := List.mem_singleton.mp member
        exact ⟨_, on, wakes⟩
      · simp [State.view, iwiImmediate]

private theorem fire_moves (inv : ListInv s) (g : SignalId) (t : Tid) :
    base.ViewMoves a t (s.view t) ((s.tcSignalFire g).view t) := by
  have after : (s.tcSignalFire g).view t = { s.view t with
      el := fun e => if (s.view t).el e = some (.waiters (.signal g)) then some .immediate
        else (s.view t).el e
      fires := own t 0 (s.tcSignalFire g).fires } := by
    have el : own t none (s.tcSignalFire g).lists.el = fun e =>
        if own t none s.lists.el e = some (.waiters (.signal g)) then some .immediate
        else own t none s.lists.el e := by
      funext e
      have moved := (IntrusiveLists.movesTo_front EventList.immediate).foldl_el s.lists
        (s.events (.waiters (.signal g))) e
      rw [← tcWaitqWakeupAll_lists] at moved
      by_cases own' : e.owner = t
      · simp only [own_of_owner own', tcSignalFire, moved]
        simp only [inv.mem_events, State.el]
      · simp [own_of_other own']
    simp only [State.view, el]
    rfl
  rw [after]
  refine .plain (.fire g _ fun e => ?_)
  by_cases own' : e.owner = t
  · by_cases subscribed : s.Subscribed g e
    · refine .inl ⟨?_, ?_⟩
      · simp [own_of_owner own', tcSignalFire, subscribed, State.view]
      · simpa [View.Subscribed, State.view, own_of_owner own', State.Subscribed] using subscribed
    · refine .inr ⟨?_, ?_⟩
      · simp [own_of_owner own', tcSignalFire, subscribed, State.view]
      · simpa [View.Subscribed, State.view, own_of_owner own', State.Subscribed] using subscribed
  · exact .inr ⟨by simp [own_of_other own', State.view],
      by simp [View.Subscribed, State.view, own_of_other own']⟩

end Wakeup

/-! ## Calls of the library -/

theorem shares_update (r : Tid) (owner : MutexId → Option Tid) (m : MutexId) (next : Option Tid) :
    (fun m' => shareOf r (Function.update owner m next m')) =
      Function.update (fun m' => shareOf r (owner m')) m (shareOf r next) := by
  funext m'
  by_cases same : m' = m <;> simp [same]

section UserEffect

variable {s : State} {a : Action} {w : WorkerId} {t : Tid}

private theorem view_inUserCode (on : s.mode w = .thread t) (user : s.inUserCode t = true) :
    (s.view t).InUserCode w (s.wokenByEvent w) := by
  unfold inUserCode at user
  refine ⟨by simp [State.view, on], ?_, ?_⟩
  · simpa [State.view] using (Bool.and_eq_true_iff.mp user).1
  · have code := (Bool.and_eq_true_iff.mp user).2
    cases frames : s.frames t with
    | nil => exact .inl (by simpa [State.view] using frames)
    | cons f rest =>
        rw [frames] at code
        exact .inr ⟨f, rest, by simpa [State.view] using frames, code⟩

private theorem subscribe_moves (on : s.mode w = .thread t) (user : s.inUserCode t = true)
    {s' : State} {g : SignalId} {n : Nat} (unused : s.life (.sub t n) = .unused)
    (subscribed : s.tcSignalSubscribe w t (.sub t n) g = .ok s') (r : Tid) :
    s.ViewMoves a r (s.view r) (s'.view r) := by
  obtain ⟨_, rfl⟩ := tcSignalSubscribe_ok subscribed
  by_cases own : t = r
  · subst own
    refine .plain_to ?_ (.subscribe w _ n g (view_inUserCode on user) (by simpa [State.view] using unused))
    simp [State.view, attachEvent, tcEventInit, own_update (e := .sub t n) (t := t) rfl,
      places_update_woken, on]
  · refine .same ?_
    have other : (EventId.sub t n).owner ≠ r := own
    simp [State.view, attachEvent, tcEventInit, own_update_other other,
      places_update_woken, on, placeOf_thread_other _ own]

private theorem unsubscribe_moves {u : Tid} {n : Nat} (action : a = .user w (.unsubscribe u n))
    (live : s.life (.sub u n) = .live) (r : Tid) :
    s.ViewMoves a r (s.view r) ((s.tcSignalUnsubscribe (.sub u n)).view r) := by
  by_cases own : u = r
  · subst own
    have after : (s.tcSignalUnsubscribe (.sub u n)).view u = { s.view u with
        el := Function.update (s.view u).el (.sub u n) none
        life := Function.update (s.view u).life (.sub u n) .dead } := by
      simp [State.view, tcSignalUnsubscribe, removeEventHoldingLocks, unlinkEvent,
        own_update (e := .sub u n) (t := u) rfl]
    rw [after]
    have allowed : s.Special a u (.cancel (.sub u n)) := ⟨w, n, action, rfl⟩
    exact .special allowed (.cancel n (by simpa [State.view] using live))
  · refine .same ?_
    have other : (EventId.sub u n).owner ≠ r := own
    simp [State.view, tcSignalUnsubscribe, removeEventHoldingLocks, unlinkEvent,
      own_update_other other]

theorem taken_moves {s' : State} {m : MutexId} (free : s.owner m = none) {r : Tid} (other : t ≠ r)
    (after : s'.view r = { s.view r with
      mutex := Function.update (s.view r).mutex m (shareOf r (some t)) }) :
    s.ViewMoves a r (s.view r) (s'.view r) := by
  refine .plain_to after (.share m _ ?_ ?_ ?_)
  · simp [State.view, free]
  · simpa using other
  · simp

private theorem trylock_moves (on : s.mode w = .thread t) (user : s.inUserCode t = true)
    {m : MutexId} (free : s.owner m = none) (r : Tid) :
    s.ViewMoves a r (s.view r) (State.view { s with
      owner := Function.update s.owner m (some t)
      held := Function.update s.held t (Function.update (s.held t) m true) } r) := by
  by_cases own : t = r
  · subst own
    refine .plain_to ?_ (.trylock w _ m (view_inUserCode on user) (by simpa [State.view] using free))
    simp [State.view, shares_update]
  · refine taken_moves free own ?_
    simp [State.view, shares_update, Ne.symm own]

private theorem unlock_moves (inv : ListInv s) (threads : ∀ t, ThreadInv t (s.view t))
    (on : s.mode w = .thread t) (user : s.inUserCode t = true) {m : MutexId}
    (held : s.held t m = true) (owner : s.owner m = some t) (r : Tid) :
    s.ViewMoves a r (s.view r) (State.view { (s.tcWaitqWakeupOne (.mutex m)).1 with
      owner := Function.update s.owner m ((s.tcWaitqWakeupOne (.mutex m)).2.map s.tc)
      held := Function.update s.held t (Function.update (s.held t) m false) } r) := by
  have code := view_inUserCode on user
  -- a thread in code of the application waits for no mutex
  have mine : ∀ e, (s.view t).el e ≠ some (.waiters (.mutex m)) := by
    intro e queued
    obtain ⟨f, rest, frames, _, call⟩ := (threads t).top_of_mutex queued
    exact code.not_mutex f rest m frames call
  cases queue : s.events (.waiters (.mutex m)) with
  | nil =>
      rw [tcWaitqWakeupOne_nil queue]
      by_cases own : t = r
      · subst own
        refine .plain_to ?_ (.unlock w _ m .free code (by simpa [State.view] using held) (by simp)
          fun _ => mine)
        simp [State.view, shares_update]
      · refine .plain_to ?_ (.share m .free ?_ (by simp) fun _ => .inr fun e queued => ?_)
        · simp [State.view, shares_update, Ne.symm own]
        · simpa [State.view, owner] using own
        · by_cases own' : e.owner = r
          · have member : e ∈ s.events (.waiters (.mutex m)) :=
              inv.mem_events.mpr (by simpa [State.view, State.el, own_of_owner own'] using queued)
            simp [queue] at member
          · simp [State.view, own_of_other own'] at queued
  | cons e es =>
      have queued : s.el e = some (.waiters (.mutex m)) := inv.mem_events.mp (by simp [queue])
      have tc := inv.owner e (by simp [queued])
      have waits : (s.view e.owner).el e = some (.waiters (.mutex m)) := by
        simpa [State.view, State.el] using queued
      have foreign : e.owner ≠ t := by
        intro same
        exact mine e (same ▸ waits)
      rw [tcWaitqWakeupOne_cons queue]
      by_cases own : t = r
      · subst own
        refine .plain_to ?_ (.unlock w _ m .other code (by simpa [State.view] using held) (by simp)
          (by simp))
        simp [State.view, iwiImmediate, shares_update, tc, shareOf_other foreign,
          own_update_other foreign]
      · by_cases next : e.owner = r
        · subst next
          refine .plain_to ?_ (.grant e m waits (by simpa [State.view, owner] using own))
          simp [State.view, iwiImmediate, shares_update, tc, own_update rfl, Ne.symm own]
        · refine .plain_to ?_ (.share m .other (by simpa [State.view, owner] using own) (by simp)
            (by simp))
          simp [State.view, iwiImmediate, shares_update, tc, shareOf_other next,
            own_update_other next, Ne.symm own]

private theorem begin_moves (on : s.mode w = .thread t) (user : s.inUserCode t = true) {n : Nat}
    (unused : s.life (.auto t n) = .unused) (call : Call) (pc : Pc)
    (begins : Begins (s.view t) call pc) :
    s.ViewMoves a t (s.view t) { s.view t with
      frames := ⟨call, .auto t n, pc, s.eventStack t⟩ :: s.frames t
      life := Function.update (s.view t).life (.auto t n) .live
      next := Function.update (s.view t).next (.auto t n) none } :=
  .plain (.begin w _ n call pc (view_inUserCode on user) (by simpa [State.view] using unused)
    begins)

private theorem auto_owner (n : Nat) : (EventId.auto t n).owner = t := rfl

private theorem begun_moves (on : s.mode w = .thread t) (user : s.inUserCode t = true) {n : Nat}
    (unused : s.life (.auto t n) = .unused) (call : Call) (pc : Pc)
    (begins : Begins (s.view t) call pc) (d : DomainId) (r : Tid) :
    s.ViewMoves a r (s.view r) (((s.tcEventInit (.auto t n) d).pushFrame t call (.auto t n) pc
      (s.eventStack t)).view r) := by
  by_cases own : t = r
  · subst own
    refine (begin_moves on user unused call pc begins).ends ?_
    simp [State.view, pushFrame, tcEventInit, own_update (auto_owner n)]
  · refine .same ?_
    have other : (EventId.auto t n).owner ≠ r := own
    simp [State.view, pushFrame, tcEventInit, own_update_other other, Ne.symm own]

private theorem threadNa_moves (on : s.mode w = .thread t) (user : s.inUserCode t = true) {n : Nat}
    (unused : s.life (.auto t n) = .unused) (d : DomainId) {rv : Rv} (notIntr : rv ≠ .intr)
    (r : Tid) :
    s.ViewMoves a r (s.view r)
      (((s.tcEventInit (.auto t n) d).endEvent (.auto t n) rv).view r) := by
  by_cases own : t = r
  · subst own
    refine (begin_moves on user unused .yield .prep (.plain (by simp))).then_plain_to ?_
      (.returnPlain w (s.wokenByEvent w) _ _ rv ⟨by simp [State.view, on], rfl⟩ rfl (by simp)
        notIntr)
    simp [State.view, endEvent, tcEventInit, own_update (auto_owner n)]
  · refine .same ?_
    have other : (EventId.auto t n).owner ≠ r := own
    simp [State.view, endEvent, tcEventInit, own_update_other other]

private theorem yield_moves (on : s.mode w = .thread t) (user : s.inUserCode t = true) {s₁ : State}
    {n : Nat} {d : DomainId} (unused : s.life (.auto t n) = .unused)
    (added : (s.tcEventInit (.auto t n) d).addEventCr (.auto t n) .ready t = .ok s₁) (r : Tid) :
    s.ViewMoves a r (s.view r)
      ((s₁.pushFrame t .yield (.auto t n) .queued (s.eventStack t)).view r) := by
  obtain ⟨_, rfl⟩ := addEventCr_ok added
  by_cases own : t = r
  · subst own
    refine (begin_moves on user unused .yield .prep (.plain (by simp))).then_plain_to ?_
      (.enqueue w (s.wokenByEvent w) _ _ .ready ⟨by simp [State.view, on], rfl⟩ rfl rfl (.inl rfl))
    simp [State.view, pushFrame, attachEvent, tcEventInit, own_update (auto_owner n), Call.home]
  · refine .same ?_
    have other : (EventId.auto t n).owner ≠ r := own
    simp [State.view, pushFrame, attachEvent, tcEventInit, own_update_other other, Ne.symm own]

private theorem prepared_moves (on : s.mode w = .thread t) (user : s.inUserCode t = true)
    {s₁ : State} {n : Nat} {d : DomainId} (call : Call) {wq : Waitq}
    (unused : s.life (.auto t n) = .unused) (queue : call.isLeaf = false)
    (home : call.home = .waiters wq) (notMutex : ∀ m, call ≠ .mutex m)
    (prepared : (s.tcEventInit (.auto t n) d).tcWaitqPrepareToWait w t (.auto t n) wq = .ok s₁)
    (r : Tid) :
    s.ViewMoves a r (s.view r)
      ((s₁.pushFrame t call (.auto t n) call.afterPrepare (s.eventStack t)).view r) := by
  obtain ⟨_, rfl⟩ := tcWaitqPrepareToWait_ok prepared
  by_cases own : t = r
  · subst own
    refine (begin_moves on user unused call .prep (.plain notMutex)).then_plain_to ?_
      (.prepare w (s.wokenByEvent w) _ _ ⟨by simp [State.view, on], rfl⟩ rfl queue)
    simp [State.view, pushFrame, attachEvent, tcEventInit, tcEventOnTcStack,
      own_update (auto_owner n), home, places_update_woken, on]
  · refine .same ?_
    have other : (EventId.auto t n).owner ≠ r := own
    simp [State.view, pushFrame, attachEvent, tcEventInit, tcEventOnTcStack,
      own_update_other other, Ne.symm own, places_update_woken, on, placeOf_thread_other _ own]

private theorem waitFd_moves (on : s.mode w = .thread t) (user : s.inUserCode t = true) {s₁ : State}
    {n : Nat} {d : DomainId} {f : FdId} {mask : Mask} {flag : EventFlag}
    (unused : s.life (.auto t n) = .unused) (waits : flag = .ready ∨ flag = .priority)
    (added : AddEventFd (s.tcEventInit (.auto t n) d) t (.auto t n) f mask flag true s₁) (r : Tid) :
    s.ViewMoves a r (s.view r)
      ((s₁.pushFrame t (.fd f) (.auto t n) .queued (s.eventStack t)).view r) := by
  cases added with
  | armed fdEpEvents _ =>
      by_cases own : t = r
      · subst own
        refine (begin_moves on user unused (.fd f) .prep (.plain (by simp))).then_plain_to ?_
          (.enqueue w (s.wokenByEvent w) _ _ flag ⟨by simp [State.view, on], rfl⟩ rfl rfl waits)
        simp [State.view, pushFrame, attachEvent, tcEventInit, own_update (auto_owner n), Call.home]
      · refine .same ?_
        have other : (EventId.auto t n).owner ≠ r := own
        simp [State.view, pushFrame, attachEvent, tcEventInit, own_update_other other,
          Ne.symm own]

private theorem waitFdFailed_moves (on : s.mode w = .thread t) (user : s.inUserCode t = true)
    {s₁ : State} {n : Nat} {d : DomainId} {f : FdId} {mask : Mask} {flag : EventFlag}
    (unused : s.life (.auto t n) = .unused) (waits : flag = .ready ∨ flag = .priority)
    (refused : AddEventFd (s.tcEventInit (.auto t n) d) t (.auto t n) f mask flag false s₁)
    (r : Tid) : s.ViewMoves a r (s.view r) ((s₁.endEvent (.auto t n) .failed).view r) := by
  cases refused with
  | errHup => exact threadNa_moves on user unused d (by simp) r
  | failed fdEpEvents _ =>
      by_cases own : t = r
      · subst own
        have queued := (begin_moves (a := a) on user unused (.fd f) .prep
          (.plain (by simp))).then_plain (.enqueue w (s.wokenByEvent w) _ _ flag
            ⟨by simp [State.view, on], rfl⟩ rfl rfl waits)
        refine queued.then_plain_to ?_ (.refused w (s.wokenByEvent w) _ _ .failed
          ⟨by simp [State.view, on], rfl⟩ rfl (by simp))
        simp [State.view, endEvent, detachEvent, unlinkEvent, attachEvent, tcEventInit,
          own_update (auto_owner n)]
      · refine .same ?_
        have other : (EventId.auto t n).owner ≠ r := own
        simp [State.view, endEvent, detachEvent, unlinkEvent, attachEvent, tcEventInit,
          own_update_other other]

private theorem threadNew_moves {u : Tid} (unused : s.status u = .unused) (d : DomainId) (nr : Int)
    (affine : Bool) (r : Tid) :
    s.ViewMoves a r (s.view r) ((s.tcThreadNew u d nr affine).view r) := by
  by_cases own : u = r
  · subst own
    refine .plain_to ?_ (.born (by simpa [State.view] using unused))
    simp [State.view, tcThreadNew, tcEventInit, own_update (e := .self u) (t := u) rfl]
  · refine .same ?_
    have other : (EventId.self u).owner ≠ r := own
    simp [State.view, tcThreadNew, tcEventInit, own_update_other other, Ne.symm own]

private theorem threadPost_moves {s₁ : State} {u : Tid} {d : DomainId}
    (created : s.status u = .created) (added : s.addEventCr (.self u) .ready u = .ok s₁) (r : Tid) :
    s.ViewMoves a r (s.view r) (({ s₁ with
      status := Function.update s₁.status u .posted }.iwiImmediate d).view r) := by
  obtain ⟨free, rfl⟩ := addEventCr_ok added
  by_cases own : u = r
  · subst own
    refine .plain_to ?_ (.post (by simpa [State.view] using created)
      (by simpa [State.view, State.el] using free))
    simp [State.view, iwiImmediate, attachEvent, own_update (e := .self u) (t := u) rfl]
  · refine .same ?_
    have other : (EventId.self u).owner ≠ r := own
    simp [State.view, iwiImmediate, attachEvent, own_update_other other, Ne.symm own]

theorem userEffect_moves (inv : ListInv s) (threads : ∀ t, ThreadInv t (s.view t))
    (mutexes : ∀ t, MutexInv (s.view t)) (on : s.mode w = .thread t)
    (user : s.inUserCode t = true) {op : UserOp} {s' : State} (effect : UserEffect s w t op s')
    (r : Tid) : s.ViewMoves (.user w op) r (s.view r) (s'.view r) := by
  have flagged : ∀ priority : Bool, (if priority then EventFlag.priority else .ready) = .ready ∨
      (if priority then EventFlag.priority else .ready) = .priority := by
    intro priority
    cases priority <;> simp
  cases effect with
  | wakeupAll k => exact wakeupAll_moves inv _ rfl r
  | wakeupOne k => exact wakeupOne_moves inv _ rfl r
  | fire g => exact fire_moves inv g r
  | subscribe g n _ unused subscribed => exact subscribe_moves on user unused subscribed r
  | unsubscribe u n live => exact unsubscribe_moves rfl live r
  | locked m free => exact trylock_moves on user free r
  | notLocked m => exact .refl
  | unlock m held =>
      have owner : s.owner m = some t := by
        simpa [State.view] using (mutexes t).holder m (by simpa [State.view] using held)
      exact unlock_moves inv threads on user held owner r
  | threadNew u d nr affine unused => exact threadNew_moves unused d nr affine r
  | threadPost u s₁ created added => exact threadPost_moves created added r
  | rearm f => exact .same rfl
  | unregisterFd f => exact .same rfl
  | yield n s₁ unused added => exact yield_moves on user unused added r
  | waitFdFailed n f mask priority ctl s₁ unused refused =>
      exact waitFdFailed_moves on user unused (flagged priority) refused r
  | waitFd n f mask priority ctl s₁ unused added =>
      exact waitFd_moves on user unused (flagged priority) added r
  | waitqWait n k s₁ unused prepared =>
      exact prepared_moves on user (.waitq k) unused rfl rfl (by simp) prepared r
  | threadWait n u d id s₁ unused prepared =>
      exact prepared_moves on user (.thread u) unused rfl rfl (by simp) prepared r
  | threadNa n u d id unused => exact threadNa_moves on user unused _ (by simp) r
  | waitEvent n k unused =>
      exact begun_moves on user unused (.cond k) .test0 .condition _ r
  | waitEventLoop n k unused =>
      exact begun_moves on user unused (.cond k) .prep (.plain (by simp)) _ r
  | lock n m unused foreign =>
      exact begun_moves on user unused (.mutex m) .cas0
        (.lock (by simpa [State.view] using foreign)) _ r
  | dieUnlink empty alive =>
      by_cases own : t = r
      · subst own
        refine .plain_to ?_ (.dying w (s.wokenByEvent w) .unlinked (by simp [State.view, on])
          (by simpa [State.view] using empty) (by simpa [State.view, alive] using .unlink))
        simp [State.view]
      · refine .same ?_
        simp [State.view, Ne.symm own]
  | exitMain empty =>
      by_cases own : t = r
      · subst own
        refine .plain_to ?_ (.exitMain w (s.wokenByEvent w) (by simp [State.view, on])
          (by simpa [State.view] using empty))
        simp [State.view, iwiImmediate, places_update_mode]
      · refine .same ?_
        simp [State.view, iwiImmediate, places_update_mode, on, placeOf_thread_other _ own]

end UserEffect

end Libtcr
