import Libtcr.Lib.CircularList
import Libtcr.SignalDestroy

/-! `signal_cancel_pending` with the links of the event lists: `_cancel_signal` takes an event off
the list that `CIRCLEQ_FOREACH` goes through, and frees the subscription that contains its links. -/

set_option autoImplicit false

namespace Libtcr

open State

/-- What the pointers of a `CIRCLEQ` point to: the head of a list, or the links of an event. -/
inductive ChainNode where
  | head (k : EventList)
  | event (e : EventId)
  deriving DecidableEq, Repr

inductive CancelFault where
  | useAfterFree
  | assertRemoveEvent
  /-- The head of another list is taken for an event. -/
  | strayHead
  | endless
  deriving DecidableEq, Repr

/-- The system, with `e_chain` of the events and the heads of the lists. -/
structure CancelState where
  sys : State
  links : Links ChainNode

namespace CancelState

/-- `_cancel_signal(e, el)`. `_remove_event` leaves the links of `e` itself as they are. -/
def cancelSignal (s : CancelState) (e : EventId) (el : EventList) :
    Except CancelFault CancelState :=
  match s.sys.removeEventFrom e el with
  | .error _ => .error .assertRemoveEvent
  | .ok sys => .ok {
      sys := { sys.removeSub (sys.signal e) e with life := Function.update sys.life e .dead }
      links := s.links.remove (.event e) }

/-- `CIRCLEQ_FOREACH(e, &el->events, e_chain)` with `_cancel_signal` for the events that `wants`
selects. The pointer to the next event is read after the body. -/
def cancelLoop (el : EventList) (wants : State → EventId → Bool) :
    Nat → ChainNode → CancelState → Except CancelFault CancelState
  | 0, _, _ => .error .endless
  | _ + 1, .head k, s => if k = el then .ok s else .error .strayHead
  | fuel + 1, .event e, s =>
    if s.sys.life e ≠ .live then .error .useAfterFree
    else
      match (if wants s.sys e then s.cancelSignal e el else .ok s) with
      | .error fault => .error fault
      | .ok s' =>
        if s'.sys.life e ≠ .live then .error .useAfterFree
        else cancelLoop el wants fuel (s'.links.next (.event e)) s'

def ownSignal (t : Tid) (sys : State) (e : EventId) : Bool :=
  decide (sys.tc e = t ∧ sys.flags e = .signal)

/-- The condition of the second loop, which does not compare `e->tc`. -/
def anySignal (sys : State) (e : EventId) : Bool := decide (sys.flags e = .signal)

def signalCancelPending (s : CancelState) (t : Tid) : Except CancelFault CancelState :=
  match cancelLoop .immediate (ownSignal t) ((s.sys.events .immediate).length + 1)
      (s.links.next (.head .immediate)) s with
  | .error fault => .error fault
  | .ok s' =>
    cancelLoop (.pending t) anySignal ((s'.sys.events (.pending t)).length + 1)
      (s'.links.next (.head (.pending t))) s'

/-- The links of `common.immediate` and of the pending list of `t` are those of the lists, and the
events on them exist. -/
structure Chained (s : CancelState) (t : Tid) : Prop where
  immediate : s.links.Ring (.head .immediate) ((s.sys.events .immediate).map .event)
  pending : s.links.Ring (.head (.pending t)) ((s.sys.events (.pending t)).map .event)
  el : ∀ k e, e ∈ s.sys.events k → s.sys.el e = some k
  live : ∀ k e, e ∈ s.sys.events k → s.sys.life e = .live

def Fired (s : State) (t : Tid) (e : EventId) : Prop :=
  s.flags e = .signal ∧ (e ∈ s.events .immediate ∧ s.tc e = t ∨ e ∈ s.events (.pending t))

instance (s : State) (t : Tid) (e : EventId) : Decidable (Fired s t e) :=
  inferInstanceAs (Decidable (_ ∧ _))

/-- The fired signals of `t` have been cancelled, and everything else is as it was. -/
structure Cancelled (s : CancelState) (t : Tid) (s' : CancelState) : Prop where
  immediate : s'.sys.events .immediate =
    (s.sys.events .immediate).filter fun e => ¬ Fired s.sys t e
  pending : s'.sys.events (.pending t) =
    (s.sys.events (.pending t)).filter fun e => ¬ Fired s.sys t e
  sss : ∀ g, s'.sys.sss g = (s.sys.sss g).filter fun e => ¬ Fired s.sys t e
  chained : s'.Chained t

/-! ## One traversal -/

section Loop

variable {s : CancelState} {el : EventList} {wants : State → EventId → Bool} {es : List EventId}
  {first : ChainNode} {fuel : Nat}

/-- What `_cancel_signal` leaves behind: the links of the event are in memory that has been freed. -/
theorem cancelSignal_freed {e : EventId} (on : s.sys.el e = some el) :
    ∃ s', s.cancelSignal e el = .ok s' ∧ s'.sys.life e = .dead := by
  have removed : s.sys.removeEventFrom e el = .ok (s.sys.detachEvent e) := by
    simp [removeEventFrom, on]
  unfold cancelSignal
  rw [removed]
  exact ⟨_, rfl, by simp⟩

private theorem cancelLoop_idle (segment : s.links.Segment first (es.map .event) (.head el))
    (live : ∀ e ∈ es, s.sys.life e = .live) (none : ∀ e ∈ es, wants s.sys e = false)
    (enough : es.length < fuel) : cancelLoop el wants fuel (s.links.next first) s = .ok s := by
  induction es generalizing first fuel with
  | nil =>
      obtain ⟨fuel, rfl⟩ := Nat.exists_eq_succ_of_ne_zero (Nat.ne_of_gt enough)
      rw [segment.1]
      simp [cancelLoop]
  | cons e es ih =>
      obtain ⟨fuel, rfl⟩ := Nat.exists_eq_succ_of_ne_zero (Nat.ne_zero_of_lt enough)
      obtain ⟨forth, _, rest⟩ := segment
      have here := live e (.head _)
      have skipped := none e (.head _)
      rw [forth, cancelLoop, if_neg (by simp [here])]
      simp only [skipped, Bool.false_eq_true, if_false]
      rw [if_neg (by simp [here])]
      exact ih rest (fun x member => live x (.tail _ member)) (fun x member => none x (.tail _ member))
        (Nat.lt_of_succ_lt_succ enough)

private theorem cancelLoop_freed (segment : s.links.Segment first (es.map .event) (.head el))
    (live : ∀ e ∈ es, s.sys.life e = .live) (on : ∀ e ∈ es, s.sys.el e = some el)
    (some : ∃ e ∈ es, wants s.sys e = true) (enough : es.length < fuel) :
    cancelLoop el wants fuel (s.links.next first) s = .error .useAfterFree := by
  induction es generalizing first fuel with
  | nil => simp at some
  | cons e es ih =>
      obtain ⟨fuel, rfl⟩ := Nat.exists_eq_succ_of_ne_zero (Nat.ne_zero_of_lt enough)
      obtain ⟨forth, _, rest⟩ := segment
      have here := live e (.head _)
      rw [forth, cancelLoop, if_neg (by simp [here])]
      cases wanted : wants s.sys e with
      | true =>
          obtain ⟨s', cancelled, dead⟩ := cancelSignal_freed (on e (.head _))
          simp [cancelled, dead]
      | false =>
          have later : ∃ x ∈ es, wants s.sys x = true := by
            obtain ⟨x, member, selected⟩ := some
            rcases List.mem_cons.mp member with rfl | below
            · simp [wanted] at selected
            · exact ⟨x, below, selected⟩
          simp only [Bool.false_eq_true, if_false]
          rw [if_neg (by simp [here])]
          exact ih rest (fun x member => live x (.tail _ member))
            (fun x member => on x (.tail _ member)) later (Nat.lt_of_succ_lt_succ enough)

end Loop

/-! ## The call -/

section Call

variable {s : CancelState} {t : Tid}

private theorem firstLoop_idle (chained : s.Chained t)
    (none : ∀ e ∈ s.sys.events .immediate, ownSignal t s.sys e = false) :
    cancelLoop .immediate (ownSignal t) ((s.sys.events .immediate).length + 1)
      (s.links.next (.head .immediate)) s = .ok s :=
  cancelLoop_idle chained.immediate.segment (chained.live .immediate) none (Nat.lt_succ_self _)

private theorem signalCancelPending_idle (chained : s.Chained t) (none : ∀ e, ¬ Fired s.sys t e) :
    s.signalCancelPending t = .ok s := by
  have first := firstLoop_idle chained fun e member =>
    decide_eq_false fun both => none e ⟨both.2, .inl ⟨member, both.1⟩⟩
  have second : cancelLoop (.pending t) anySignal ((s.sys.events (.pending t)).length + 1)
      (s.links.next (.head (.pending t))) s = .ok s := by
    refine cancelLoop_idle chained.pending.segment (chained.live (.pending t)) ?_ (Nat.lt_succ_self _)
    exact fun e member => decide_eq_false fun signal => none e ⟨signal, .inr member⟩
  simp only [signalCancelPending, first, second]

private theorem signalCancelPending_freed (chained : s.Chained t) {e : EventId}
    (fired : Fired s.sys t e) : s.signalCancelPending t = .error .useAfterFree := by
  by_cases own : ∃ x ∈ s.sys.events .immediate, ownSignal t s.sys x = true
  · have first : cancelLoop .immediate (ownSignal t) ((s.sys.events .immediate).length + 1)
        (s.links.next (.head .immediate)) s = .error .useAfterFree :=
      cancelLoop_freed chained.immediate.segment (chained.live .immediate) (chained.el .immediate)
        own (Nat.lt_succ_self _)
    simp only [signalCancelPending, first]
  · have first := firstLoop_idle chained fun x member => by
      have not := fun selected => own ⟨x, member, selected⟩
      simpa using not
    have pending : e ∈ s.sys.events (.pending t) := by
      refine fired.2.resolve_left fun immediate => own ⟨e, immediate.1, ?_⟩
      exact decide_eq_true ⟨immediate.2, fired.1⟩
    have second : cancelLoop (.pending t) anySignal ((s.sys.events (.pending t)).length + 1)
        (s.links.next (.head (.pending t))) s = .error .useAfterFree :=
      cancelLoop_freed chained.pending.segment (chained.live (.pending t)) (chained.el (.pending t))
        ⟨e, pending, decide_eq_true fired.1⟩ (Nat.lt_succ_self _)
    simp only [signalCancelPending, first, second]

/-- `signal_cancel_pending` does its work if and only if there is none: a single fired signal of the
thread is enough for the traversal to read a link in memory that it has freed. -/
theorem signal_cancel_pending_iff (chained : s.Chained t) :
    (∃ s', s.signalCancelPending t = .ok s' ∧ Cancelled s t s') ↔ ∀ e, ¬ Fired s.sys t e := by
  constructor
  · rintro ⟨s', returned, _⟩ e fired
    simp [signalCancelPending_freed chained fired] at returned
  · intro none
    refine ⟨s, signalCancelPending_idle chained none, ?_, ?_, fun g => ?_, chained⟩
    · simp [none]
    · simp [none]
    · simp [none]

end Call

/-! ## The reachable states -/

section Reachable

variable {s : State} {t : Tid}

private theorem exists_chained (inv : SystemInv s) (t : Tid) :
    ∃ links, Chained ⟨s, links⟩ t := by
  have lists := inv.lists
  have distinct : ∀ k, (ChainNode.head k :: (s.events k).map ChainNode.event).Nodup := by
    intro k
    refine List.nodup_cons.mpr ⟨by simp, ?_⟩
    exact (lists.lists.nodup k).map fun _ _ same => ChainNode.event.inj same
  have empty : ∀ k, (⟨id, id⟩ : Links ChainNode).Ring (.head k) [] :=
    fun k => ⟨⟨rfl, rfl⟩, List.nodup_singleton _⟩
  obtain ⟨immediate, pending⟩ := (empty .immediate).ofList (empty (.pending t)) (distinct .immediate)
    (by simp)
  have apart : (ChainNode.head (.pending t) :: (s.events (.pending t)).map ChainNode.event).Disjoint
      (ChainNode.head .immediate :: (s.events .immediate).map ChainNode.event) := by
    intro node left right
    cases node with
    | head k =>
        obtain rfl : k = .pending t := by simpa using left
        simp at right
    | event e =>
        have one : s.el e = some (.pending t) := lists.mem_events.mp (by simpa using left)
        have two : s.el e = some .immediate := lists.mem_events.mp (by simpa using right)
        simp [one] at two
  obtain ⟨pending, immediate⟩ := pending.ofList immediate (distinct (.pending t)) apart
  refine ⟨_, immediate, pending, fun k e => lists.mem_events.mp, fun k e member => ?_⟩
  exact inv.live_of_placed (by simp [lists.mem_events.mp member])

theorem signalCancelPending_refines {links : Links ChainNode}
    (chained : Chained ⟨s, links⟩ t) :
    (s.signalCancelPending t = .ok s ∧ signalCancelPending ⟨s, links⟩ t = .ok ⟨s, links⟩) ∨
      (s.signalCancelPending t = .error .useAfterFree ∧
        signalCancelPending ⟨s, links⟩ t = .error .useAfterFree) := by
  have own : (s.events .immediate).any (fun e => s.tc e = t ∧ s.flags e = .signal) = true ↔
      ∃ e ∈ s.events .immediate, s.tc e = t ∧ s.flags e = .signal := by simp
  have any : (s.events (.pending t)).any (fun e => s.flags e = .signal) = true ↔
      ∃ e ∈ s.events (.pending t), s.flags e = .signal := by simp
  by_cases none : ∀ e, ¬ Fired s t e
  · refine .inl ⟨?_, signalCancelPending_idle chained none⟩
    rw [State.signalCancelPending, if_neg, if_neg]
    · rw [any]
      rintro ⟨e, member, signal⟩
      exact none e ⟨signal, .inr member⟩
    · rw [own]
      rintro ⟨e, member, tc, signal⟩
      exact none e ⟨signal, .inl ⟨member, tc⟩⟩
  · obtain ⟨e, fired⟩ := not_forall_not.mp none
    refine .inr ⟨?_, signalCancelPending_freed chained fired⟩
    rw [State.signalCancelPending]
    split
    · rfl
    · next notOwn =>
      rw [if_pos]
      refine any.mpr ⟨e, fired.2.resolve_left fun immediate => notOwn ?_, fired.1⟩
      exact own.mpr ⟨e, immediate.1, immediate.2, fired.1⟩

end Reachable

/-- A thread exits while the signal of another one has been fired. -/
theorem signal_cancel_pending_foreign : ∃ s links s', Reachable 2 (fun _ => 0) s ∧
    s.events .immediate = [.sub 1 0] ∧ Chained ⟨s, links⟩ 0 ∧
    signalCancelPending ⟨s, links⟩ 0 = .ok s' ∧ Cancelled ⟨s, links⟩ 0 s' := by
  obtain ⟨s, reached, shown⟩ := reachable_of_exec 2 (fun _ => 0)
    [.user 1 (.subscribe 0 0), .user 0 (.fire 0)]
    (fun s => s.events .immediate = [.sub 1 0] ∧ s.events (.pending 0) = [] ∧ s.tc (.sub 1 0) = 1)
    (by decide)
  obtain ⟨immediate, pending, tc⟩ := of_decide_eq_true shown
  obtain ⟨links, chained⟩ := exists_chained (SystemInv.run reached) 0
  have none : ∀ e, ¬ Fired s 0 e := by
    rintro e ⟨_, ⟨member, own⟩ | member⟩
    · rw [immediate, List.mem_singleton] at member
      simp [member, tc] at own
    · simp [pending] at member
  obtain ⟨s', returned, cancelled⟩ := (signal_cancel_pending_iff chained).mpr none
  exact ⟨s, links, s', reached, immediate, chained, returned, cancelled⟩

/-- Thread 1 subscribes to a signal that is then fired, and exits. -/
theorem signal_cancel_pending_reads_freed : ∃ s links, Reachable 1 (fun _ => 0) s ∧
    s.status 1 = .unlinked ∧ 0 < s.refcnt 1 ∧ s.events .immediate = [.sub 1 0, .auto 0 0] ∧
    Chained ⟨s, links⟩ 1 ∧ signalCancelPending ⟨s, links⟩ 1 = .error .useAfterFree ∧
    ¬ ∃ s', signalCancelPending ⟨s, links⟩ 1 = .ok s' ∧ Cancelled ⟨s, links⟩ 1 s' := by
  obtain ⟨s, reached, shown⟩ := reachable_of_exec 1 (fun _ => 0)
    [.user 0 (.threadNew 1 0 (-1) false), .user 0 (.threadPost 1), .user 0 (.yield 0), .advance 0,
      .advance 0, .leave 0, .runImmediate 0 .any, .enter 0, .user 0 (.subscribe 0 0),
      .user 0 (.fire 0), .user 0 .dieUnlink]
    (fun s => s.status 1 = .unlinked ∧ 0 < s.refcnt 1 ∧
      s.events .immediate = [.sub 1 0, .auto 0 0] ∧ s.tc (.sub 1 0) = 1 ∧
      s.flags (.sub 1 0) = .signal) (by decide)
  obtain ⟨status, refcnt, immediate, tc, signal⟩ := of_decide_eq_true shown
  obtain ⟨links, chained⟩ := exists_chained (SystemInv.run reached) 1
  have fired : Fired s 1 (.sub 1 0) := ⟨signal, .inl ⟨by simp [immediate], tc⟩⟩
  have freed := signalCancelPending_freed chained fired
  exact ⟨s, links, reached, status, refcnt, immediate, chained, freed, by simp [freed]⟩

end CancelState

end Libtcr
