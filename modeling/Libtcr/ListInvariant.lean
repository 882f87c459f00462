import Libtcr.Lib.Update
import Libtcr.System

/-! The representation invariant of the event lists, and that the functions which
move events keep it. -/

set_option autoImplicit false

namespace Libtcr

structure ListInv (s : State) : Prop where
  lists : s.lists.WellFormed
  count : s.immediateCount = (s.events .immediate).length
  notNegative : s.immediateNegative = false
  refcnt : ∀ t, s.refcnt t = s.lists.placed (fun e => s.tc e = t)
  owner : ∀ e, s.el e ≠ none → s.tc e = e.owner

namespace ListInv

variable {s : State}

theorem mem_events (inv : ListInv s) {k : EventList} {e : EventId} :
    e ∈ s.events k ↔ s.el e = some k :=
  inv.lists.mem_iff k e

theorem positive (inv : ListInv s) {e : EventId} (on : s.el e = some .immediate) :
    0 < s.immediateCount := by
  rw [inv.count]
  exact_mod_cast List.length_pos_of_mem (inv.mem_events.mpr on)

/-! ## Taking events off -/

private theorem unlink_count (inv : ListInv s) (e : EventId) :
    (s.unlinkEvent e).immediateCount = ((s.unlinkEvent e).events .immediate).length := by
  unfold State.unlinkEvent State.events
  by_cases on : s.el e = some .immediate
  · have length := inv.lists.length_remove on
    have positive := inv.positive on
    have count := inv.count
    unfold State.events at count
    simp only [on, if_true]
    rw [if_neg (by omega), count]
    omega
  · simp only [on, if_false]
    rw [IntrusiveLists.remove_elems_of_ne on]
    exact inv.count

private theorem unlink_notNegative (inv : ListInv s) (e : EventId) :
    (s.unlinkEvent e).immediateNegative = false := by
  unfold State.unlinkEvent
  by_cases on : s.el e = some .immediate
  · have positive := inv.positive on
    simp only [on, true_and]
    rw [if_neg (by omega)]
    exact inv.notNegative
  · simp [on, inv.notNegative]

private theorem owner_remove (inv : ListInv s) (e x : EventId)
    (on : (s.lists.remove e).el x ≠ none) :
    s.tc x = x.owner :=
  inv.owner x (Update.ne_of_ne on).2

theorem detachEvent (inv : ListInv s) {e : EventId} (on : s.el e ≠ none) :
    ListInv (s.detachEvent e) where
  lists := inv.lists.remove e
  count := inv.unlink_count e
  notNegative := inv.unlink_notNegative e
  refcnt t := by
    have total := inv.refcnt t
    simp only [State.detachEvent, State.unlinkEvent]
    by_cases own : s.tc e = t
    · have dropped := inv.lists.placed_remove on (fun x => s.tc x = t) own
      rw [← own, Function.update_self, own]
      omega
    · have same := s.lists.placed_remove_of_not (fun x => s.tc x = t) own
      rw [Function.update_of_ne (Ne.symm own), same, total]
  owner := inv.owner_remove e

theorem removeEventHoldingLocks (inv : ListInv s) (e : EventId) :
    ListInv (s.removeEventHoldingLocks e) := by
  by_cases on : s.el e = none
  · have lists : s.lists.remove e = s.lists := IntrusiveLists.remove_of_free on
    refine ⟨inv.lists.remove e, inv.unlink_count e, inv.unlink_notNegative e, fun t => ?_,
      inv.owner_remove e⟩
    simp only [State.removeEventHoldingLocks, on, if_true, State.unlinkEvent, lists]
    exact inv.refcnt t
  · have detached := inv.detachEvent on
    have same : s.removeEventHoldingLocks e = s.detachEvent e := by
      simp [State.removeEventHoldingLocks, State.detachEvent, on]
    rwa [same]

/-! ## Putting events on -/

private theorem refcnt_attach (inv : ListInv s) {e : EventId} (free : s.el e = none) (k : EventList)
    (u t : Tid) : (s.attachEvent e k u).refcnt t =
      (s.attachEvent e k u).lists.placed (fun x => (s.attachEvent e k u).tc x = t) := by
  have total := inv.refcnt t
  have agree : ∀ x, x ≠ e → ((s.attachEvent e k u).tc x = t ↔ s.tc x = t) := by
    intro x different
    simp [State.attachEvent, different]
  by_cases own : u = t
  · have grown := inv.lists.placed_insert free (s.lists.pushBack_el e k) _ _ agree
      (by simp [State.attachEvent, own])
    simp only [State.attachEvent] at grown ⊢
    rw [own, Function.update_self]
    rw [own] at grown
    omega
  · have same := IntrusiveLists.placed_insert_of_not free (s.lists.pushBack_el e k) _ _ agree
      (by simp [State.attachEvent, own])
    simp only [State.attachEvent] at same ⊢
    rw [Function.update_of_ne (Ne.symm own)]
    omega

private theorem owner_attach (inv : ListInv s) {e : EventId} (k : EventList) {x : EventId}
    (on : (s.attachEvent e k e.owner).el x ≠ none) :
    (s.attachEvent e k e.owner).tc x = x.owner := by
  by_cases same : x = e
  · simp [same, State.attachEvent]
  · simp only [State.attachEvent, Function.update_of_ne same]
    exact inv.owner x (by simpa [State.attachEvent, State.el, same] using on)

theorem attachEvent (inv : ListInv s) {e : EventId} (free : s.el e = none) {k : EventList}
    (queue : k ≠ .immediate) : ListInv (s.attachEvent e k e.owner) where
  lists := inv.lists.pushBack free k
  count := by
    simp only [State.attachEvent, State.events]
    rw [IntrusiveLists.pushBack_elems_of_ne _ _ queue.symm]
    exact inv.count
  notNegative := inv.notNegative
  refcnt t := inv.refcnt_attach free k e.owner t
  owner _ on := inv.owner_attach k on

theorem attachImmediate (inv : ListInv s) {e : EventId} (free : s.el e = none) :
    ListInv { s.attachEvent e .immediate e.owner with
      immediateCount := (s.attachEvent e .immediate e.owner).immediateCount + 1 } where
  lists := inv.lists.pushBack free .immediate
  count := by
    simp only [State.attachEvent, State.events]
    rw [IntrusiveLists.pushBack_elems_self, inv.count]
    simp [State.events]
  notNegative := inv.notNegative
  refcnt t := inv.refcnt_attach free .immediate e.owner t
  owner _ on := inv.owner_attach .immediate on

/-! ## Moving events -/

theorem relocateEvent (inv : ListInv s) {e : EventId} (on : s.el e ≠ none) {k : EventList}
    (queue : k ≠ .immediate) : ListInv (s.relocateEvent e k) where
  lists := (inv.lists.remove e).pushBack (by simp) k
  count := by
    have count := inv.unlink_count e
    simp only [State.unlinkEvent, State.events] at count
    simp only [State.relocateEvent, State.unlinkEvent, State.events]
    rwa [IntrusiveLists.pushBack_elems_of_ne _ _ queue.symm]
  notNegative := inv.unlink_notNegative e
  refcnt t := by
    have same := IntrusiveLists.placed_move on
      ((IntrusiveLists.movesTo_back k).el s.lists e) (fun x => s.tc x = t)
    simp only [State.relocateEvent, State.unlinkEvent]
    rw [same]
    exact inv.refcnt t
  owner x placed := by
    refine inv.owner x ?_
    by_cases same : x = e
    · rwa [same]
    · simpa [State.relocateEvent, State.el, same] using placed

/-- Events of other lists are moved to `common.immediate`, one after the other. -/
theorem moveAll (inv : ListInv s)
    {move : IntrusiveLists EventId EventList → EventId → IntrusiveLists EventId EventList}
    (moves : IntrusiveLists.MovesTo move .immediate) {moved : List EventId}
    (nodup : moved.Nodup)
    (queued : ∀ e ∈ moved, ∃ k, s.el e = some k ∧ k ≠ .immediate) {s' : State}
    (lists : s'.lists = moved.foldl move s.lists)
    (count : s'.immediateCount = s.immediateCount + moved.length)
    (negative : s'.immediateNegative = s.immediateNegative) (refcnt : s'.refcnt = s.refcnt)
    (tc : s'.tc = s.tc) : ListInv s' where
  lists := by
    rw [lists]
    exact moves.foldl_wellFormed inv.lists moved
  count := by
    have away : ∀ e ∈ moved, s.lists.el e ≠ some .immediate := by
      intro e member
      obtain ⟨k, on, queue⟩ := queued e member
      simpa [show s.lists.el e = some k from on] using queue
    rw [count, State.events, lists, moves.foldl_length nodup away, inv.count]
    simp [State.events]
  notNegative := negative.trans inv.notNegative
  refcnt t := by
    have on : ∀ e ∈ moved, s.lists.el e ≠ none := by
      intro e member
      obtain ⟨k, on, _⟩ := queued e member
      simp [show s.lists.el e = some k from on]
    rw [refcnt, tc, lists, moves.foldl_placed on]
    exact inv.refcnt t
  owner e on := by
    rw [tc]
    refine inv.owner e ?_
    rw [State.el, lists, moves.foldl_el] at on
    by_cases member : e ∈ moved
    · obtain ⟨k, placed, _⟩ := queued e member
      simp [placed]
    · simpa [member, State.el] using on

end ListInv

end Libtcr
