import Libtcr.ListInvariant
import Libtcr.SystemProperties
import Libtcr.ThreadInvariant

/-! Every step keeps the representation invariant of the event lists. -/

set_option autoImplicit false

namespace Libtcr

open State

namespace ListInv

variable {s s' : State}

theorem runOrQueue {w : WorkerId} {e : EventId} {chosen : Option Tid} (inv : ListInv s)
    (ran : RunOrQueue s w e chosen s') : ListInv s' := by
  cases ran with
  | exits _ on => exact inv.detachEvent (by simp [on])
  | queued k tcfd on _ _ _ =>
      have queued : ListInv { s with tcfd := tcfd } := { inv with }
      refine queued.relocateEvent ?_ (by simp)
      simpa [State.el] using fun off => by simp [State.el, off] at on
  | signalled k on _ _ _ =>
      have moved : ListInv (s.relocateEvent e (.waiters (.signal (s.signal e)))) :=
        inv.relocateEvent (by simp [on]) (by simp)
      exact { moved with }
  | selected k on _ _ _ _ =>
      have detached := inv.detachEvent (e := e) (by simp [on])
      exact { detached with }

theorem tcScheduler {w : WorkerId} {t : Tid} {f : Frame} (inv : ListInv s)
    (scheduled : TcScheduler s w t f s') : ListInv s' := by
  cases scheduled with
  | slept _ => exact { inv with }
  | signalled e tcfd _ on _ =>
      have moved : ListInv (s.relocateEvent e (.waiters (.signal (s.signal e)))) :=
        inv.relocateEvent on (by simp)
      exact { moved with }
  | resumed e tcfd _ on _ _ =>
      have detached := inv.detachEvent (e := e) (by simp [on])
      exact { detached with }

theorem finishWait {w : WorkerId} {t : Tid} {e : EventId} {rv : Bool} (inv : ListInv s)
    (woken : ∀ x, s.wokenByEvent w = some x → x.owner = t)
    (finished : FinishWait s w t e rv s') : ListInv s' := by
  have removed := inv.removeEventHoldingLocks e
  cases finished with
  | expected _ _ => exact { removed with }
  | requeued x by_ _ _ _ =>
      obtain rfl := woken x by_
      have free : ((s.removeEventHoldingLocks e).removeEventHoldingLocks x).el x = none := by
        simp [State.el]
      have requeued : ListInv (((s.removeEventHoldingLocks e).removeEventHoldingLocks x).attachEvent
          x (.pending x.owner) x.owner) :=
        (removed.removeEventHoldingLocks x).attachEvent free (by simp)
      exact { requeued with }
  | interrupted x _ _ _ _ => exact removed

theorem wakeupAll (inv : ListInv s) (wq : Waitq) : ListInv (s.tcWaitqWakeupAll wq) := by
  refine inv.moveAll (IntrusiveLists.movesTo_front EventList.immediate) (inv.lists.nodup _) ?_
    (tcWaitqWakeupAll_lists s wq) (tcWaitqWakeupAll_count s wq) rfl rfl rfl
  intro e member
  exact ⟨_, inv.mem_events.mp member, by simp⟩

theorem wakeupOne (inv : ListInv s) (wq : Waitq) : ListInv (s.tcWaitqWakeupOne wq).1 := by
  cases queue : s.events (.waiters wq) with
  | nil =>
      rw [tcWaitqWakeupOne_nil queue]
      exact inv
  | cons e es =>
      rw [tcWaitqWakeupOne_cons queue]
      have on : s.el e = some (.waiters wq) := inv.mem_events.mp (by simp [queue])
      refine inv.moveAll (IntrusiveLists.movesTo_front EventList.immediate) (List.nodup_singleton e) ?_
        rfl rfl rfl rfl rfl
      intro x member
      exact ⟨_, (List.mem_singleton.mp member) ▸ on, by simp⟩

theorem moveToImmediate (inv : ListInv s) {moved : List EventId} {f : FdId} (nodup : moved.Nodup)
    (from_ : ∀ e ∈ moved, e ∈ s.events (.fd f)) : ListInv (s.moveToImmediate moved) := by
  refine inv.moveAll (IntrusiveLists.movesTo_back EventList.immediate) nodup ?_ rfl rfl rfl rfl rfl
  intro e member
  exact ⟨_, inv.mem_events.mp (from_ e member), by simp⟩

theorem addEventCr {e : EventId} {flag : EventFlag} (inv : ListInv s)
    (added : s.addEventCr e flag e.owner = .ok s') : ListInv s' := by
  obtain ⟨free, rfl⟩ := addEventCr_ok added
  have attached := inv.attachImmediate free
  exact { attached with }

theorem tcEventInit (inv : ListInv s) (e : EventId) (d : DomainId) :
    ListInv (s.tcEventInit e d) :=
  { inv with }

theorem tcWaitqPrepareToWait {w : WorkerId} {e : EventId} {wq : Waitq} (inv : ListInv s)
    (prepared : s.tcWaitqPrepareToWait w e.owner e wq = .ok s') : ListInv s' := by
  obtain ⟨free, rfl⟩ := tcWaitqPrepareToWait_ok prepared
  have attached : ListInv (s.attachEvent e (.waiters wq) e.owner) :=
    inv.attachEvent free (by simp)
  exact { attached with }

theorem addEventFd {t : Tid} {e : EventId} {f : FdId} {mask : Mask} {flag : EventFlag}
    {done : Bool} (inv : ListInv s) (added : AddEventFd s t e f mask flag done s')
    (owner : e.owner = t) : ListInv s' := by
  subst owner
  cases added with
  | errHup => exact inv
  | armed fdEpEvents free =>
      have attached : ListInv (s.attachEvent e (.fd f) e.owner) := inv.attachEvent free (by simp)
      exact { attached with }
  | failed fdEpEvents free =>
      have attached : ListInv (s.attachEvent e (.fd f) e.owner) := inv.attachEvent free (by simp)
      have armed : ListInv { s.attachEvent e (.fd f) e.owner with
          epEvents := Function.update s.epEvents e mask
          flags := Function.update s.flags e flag
          fdEpEvents := fdEpEvents } := { attached with }
      exact armed.detachEvent (by simp [State.el, State.attachEvent])

private theorem userEffect {w : WorkerId} {t : Tid} {op : UserOp} (inv : ListInv s)
    (effect : UserEffect s w t op s') : ListInv s' := by
  cases effect with
  | wakeupAll k => exact inv.wakeupAll _
  | wakeupOne k => exact inv.wakeupOne _
  | fire g => exact { inv.wakeupAll (.signal g) with }
  | subscribe g n _ _ subscribed =>
      obtain ⟨free, rfl⟩ := tcSignalSubscribe_ok subscribed
      have attached : ListInv ((s.tcEventInit (.sub t n) (s.workerDomain w)).attachEvent (.sub t n)
          (.waiters (.signal g)) t) :=
        (inv.tcEventInit _ _).attachEvent free (by simp)
      exact { attached with }
  | unsubscribe u n _ => exact { inv.removeEventHoldingLocks (.sub u n) with }
  | locked m _ => exact { inv with }
  | notLocked m => exact inv
  | unlock m _ => exact { inv.wakeupOne (.mutex m) with }
  | threadNew u d nr affine _ => exact { inv with }
  | threadPost u s₁ _ added =>
      have queued := inv.addEventCr added
      exact { queued with }
  | rearm f => exact { inv with }
  | unregisterFd f => exact { inv with }
  | yield n s₁ _ added =>
      have queued := (inv.tcEventInit (.auto t n) (s.workerDomain w)).addEventCr added
      exact { queued with }
  | waitFdFailed n f mask priority ctl s₁ _ refused =>
      have kept := (inv.tcEventInit (.auto t n) (s.workerDomain w)).addEventFd refused rfl
      exact { kept with }
  | waitFd n f mask priority ctl s₁ _ added =>
      have queued := (inv.tcEventInit (.auto t n) (s.workerDomain w)).addEventFd added rfl
      exact { queued with }
  | waitqWait n k s₁ _ prepared =>
      have queued := (inv.tcEventInit (.auto t n) (s.workerDomain w)).tcWaitqPrepareToWait prepared
      exact { queued with }
  | threadWait n u d id s₁ _ prepared =>
      have queued := (inv.tcEventInit (.auto t n) (s.workerDomain w)).tcWaitqPrepareToWait prepared
      exact { queued with }
  | threadNa n u d id _ => exact { inv with }
  | waitEvent n k _ => exact { inv with }
  | waitEventLoop n k _ => exact { inv with }
  | lock n m _ _ => exact { inv with }
  | dieUnlink _ _ => exact { inv with }
  | exitMain _ => exact { inv with }

private theorem frameEffect {w : WorkerId} {t : Tid} {f : Frame} (inv : ListInv s)
    (woken : ∀ x, s.wokenByEvent w = some x → x.owner = t) (owner : f.e.owner = t)
    (effect : FrameEffect s w t f s') : ListInv s' := by
  cases effect with
  | pushed _ => exact { inv with }
  | scheduled _ _ scheduled => exact inv.tcScheduler scheduled
  | yieldIntr _ _ _ on _ => exact { inv.detachEvent on with }
  | yieldDone _ _ _ => exact { inv with }
  | fdIntr fd _ _ _ on _ => exact { inv.detachEvent on with }
  | fdDone fd rv _ _ _ _ => exact { inv with }
  | interrupted s₁ _ _ finished => exact { inv.finishWait woken finished with }
  | again s₁ _ _ finished => exact { inv.finishWait woken finished with }
  | woken s₁ _ _ _ finished => exact { inv.finishWait woken finished with }
  | prepared wq s₁ _ _ _ prepared =>
      subst owner
      exact { inv.tcWaitqPrepareToWait prepared with }
  | held s₁ rv _ finished => exact { inv.finishWait woken finished with }
  | acquired m _ _ _ => exact { inv with }
  | owned m _ _ _ => exact { inv with }
  | taken m _ _ _ => exact { inv with }
  | turned pc _ => exact { inv with }

private theorem dieEffect {w : WorkerId} {t : Tid} (inv : ListInv s) (effect : DieEffect s w t s') :
    ListInv s' := by
  cases effect with
  | settled _ => exact { inv with }
  | announced _ => exact { inv.wakeupAll (.exit t) with }
  | exits s₁ _ added =>
      have queued := inv.addEventCr added
      exact { queued with }

end ListInv

theorem State.Effect.listInv {s s' : State} {a : Action} (effect : s.Effect a s')
    (inv : ListInv s) (threads : ∀ t, ThreadInv t (s.view t)) : ListInv s' := by
  cases effect with
  | searched w scan _ => exact { inv with }
  | queued w scan e s₁ _ _ ran =>
      have served : ListInv (s.served w none) := { inv with }
      exact served.runOrQueue ran
  | reaped w scan e t s₁ _ _ _ ran =>
      have served : ListInv (s.served w none) := { inv with }
      exact { served.runOrQueue ran with }
  | chosen w scan e t s₁ immediateFd _ _ _ ran =>
      have served : ListInv (s.served w none) := { inv with }
      exact { served.runOrQueue ran with }
  | reported w f em _ _ =>
      obtain ⟨moved, choice, report⟩ := handleReport_spec (fun f => inv.lists.nodup (.fd f)) w f em
      obtain ⟨errHup, fdEpEvents, equal⟩ := report.effect
      rw [equal]
      exact { inv.moveToImmediate report.nodup report.movedFrom with }
  | reportQueued w f e s₁ _ _ ran =>
      have served : ListInv (s.served w (some f)) := { inv with }
      exact { served.runOrQueue ran with }
  | reportChosen w f e t s₁ _ _ ran =>
      have served : ListInv (s.served w (some f)) := { inv with }
      exact { served.runOrQueue ran with }
  | entered w t _ => exact { inv with }
  | left w t _ => exact { inv with }
  | freed w t _ => exact { inv with }
  | aio w k _ => exact inv.wakeupAll _
  | user w t op _ _ _ effect => exact inv.userEffect effect
  | returned w value t f rest k _ _ _ _ => exact { inv with }
  | evaluated w value t f rest pc _ _ _ _ => exact { inv with }
  | advanced w t f rest _ on frames effect =>
      have thread := threads t
      refine inv.frameEffect (fun x woken => ?_) ?_ effect
      · exact thread.woken w x (.inr (by simp [State.view, on, woken, placeOf]))
      · exact thread.event_owner (by simp [State.view, frames])
  | died w t _ _ _ effect => exact inv.dieEffect effect

end Libtcr
