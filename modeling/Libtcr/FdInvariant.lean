import Libtcr.SystemInvariant

/-! While a worker holds the lock of the event list of a `tc_fd`, the event it is about to
run stays on that list. This needs that nobody waits for both directions at once:
`matching_event` could otherwise move and return the same event. -/

set_option autoImplicit false

namespace Libtcr

open State

def singleDirection (mask : Mask) : Bool :=
  mask &&& EPOLLIN = 0 || mask &&& EPOLLOUT = 0

/-- Every call of `tc_wait_fd` asks for only one of `EPOLLIN` and `EPOLLOUT`. -/
def Action.singleDirection : Action → Bool
  | .user _ (.waitFd _ _ mask _ _) => Libtcr.singleDirection mask
  | _ => true

private theorem singleDirection_oneshot {mask : Mask} (single : singleDirection mask = true) :
    singleDirection (mask ||| EPOLLONESHOT) = true := by
  have distribute : ∀ bit : Mask, EPOLLONESHOT &&& bit = 0 →
      (mask ||| EPOLLONESHOT) &&& bit = mask &&& bit := by
    intro bit apart
    rw [BitVec.and_or_distrib_right, apart]
    simp
  simpa [singleDirection, distribute EPOLLIN (by decide), distribute EPOLLOUT (by decide)]
    using single

structure FdInv (s : State) : Prop where
  locked : ∀ w f e, s.mode w = .report f e → s.fdLock f = true ∧ s.el e = some (.fd f)
  unique : ∀ w w' f e e', s.mode w = .report f e → s.mode w' = .report f e' → w = w'
  single : ∀ e f, s.el e = some (.fd f) → singleDirection (s.epEvents e) = true

/-- What a step leaves alone that neither begins nor ends to handle a report. -/
structure FdFrame (s s' : State) : Prop where
  lock : s'.fdLock = s.fdLock
  keeps : ∀ e f, s.el e = some (.fd f) → s.fdLock f = true → s'.el e = some (.fd f)
  masks : ∀ e f, s'.el e = some (.fd f) →
    s.el e = some (.fd f) ∧ s'.epEvents e = s.epEvents e ∨ singleDirection (s'.epEvents e) = true

namespace FdFrame

variable {s s' : State}

theorem congr {s₂ : State} (frame : FdFrame s s') (lock : s₂.fdLock = s'.fdLock)
    (lists : s₂.lists = s'.lists) (masks : s₂.epEvents = s'.epEvents) : FdFrame s s₂ := by
  have el : s₂.el = s'.el := congrArg IntrusiveLists.el lists
  refine ⟨lock.trans frame.lock, ?_, ?_⟩
  · rw [el]
    exact frame.keeps
  · rw [el, masks]
    exact frame.masks

theorem elsewhere (lock : s'.fdLock = s.fdLock)
    (moved : ∀ e, s'.el e = s.el e ∧ s'.epEvents e = s.epEvents e ∨
      (∀ f, s.el e ≠ some (.fd f)) ∧ ∀ f, s'.el e ≠ some (.fd f)) : FdFrame s s' where
  lock := lock
  keeps e f on _ := by
    rcases moved e with ⟨same, _⟩ | ⟨before, _⟩
    · exact same.trans on
    · exact absurd on (before f)
  masks e f on := by
    rcases moved e with ⟨same, mask⟩ | ⟨_, after⟩
    · exact .inl ⟨same.symm.trans on, mask⟩
    · exact absurd on (after f)

theorem same (lock : s'.fdLock = s.fdLock) (lists : s'.lists = s.lists)
    (masks : s'.epEvents = s.epEvents) : FdFrame s s' :=
  elsewhere lock fun e => .inl ⟨by rw [State.el, lists, State.el], by rw [masks]⟩

theorem update {x : EventId} {k : Option EventList} (lock : s'.fdLock = s.fdLock)
    (el : s'.lists.el = Function.update s.lists.el x k)
    (masks : ∀ e, e ≠ x → s'.epEvents e = s.epEvents e) (before : ∀ f, s.el x ≠ some (.fd f))
    (after : ∀ f, k ≠ some (.fd f)) : FdFrame s s' := by
  refine elsewhere lock fun e => ?_
  by_cases equal : e = x
  · subst equal
    exact .inr ⟨before, fun f => by simpa [State.el, el] using after f⟩
  · exact .inl ⟨by simp [State.el, el, equal], masks e equal⟩

theorem fresh {x : EventId} {k : Option EventList} (lock : s'.fdLock = s.fdLock)
    (el : s'.lists.el = Function.update s.lists.el x k)
    (masks : ∀ e, e ≠ x → s'.epEvents e = s.epEvents e) (free : s.el x = none)
    (after : ∀ f, k ≠ some (.fd f)) : FdFrame s s' :=
  update lock el masks (by simp [free]) after

theorem woken {wq : Waitq} (inv : ListInv s) (moved : List EventId)
    (from_ : ∀ e ∈ moved, e ∈ s.events (.waiters wq)) (lock : s'.fdLock = s.fdLock)
    (el : ∀ e, s'.lists.el e = if e ∈ moved then some .immediate else s.lists.el e)
    (masks : s'.epEvents = s.epEvents) : FdFrame s s' := by
  refine elsewhere lock fun e => ?_
  by_cases member : e ∈ moved
  · have on := inv.mem_events.mp (from_ e member)
    exact .inr ⟨fun f => by simp [on], fun f => by simp [State.el, el, member]⟩
  · exact .inl ⟨by simp [State.el, el, member], by rw [masks]⟩

theorem wakeupAll (inv : ListInv s) (wq : Waitq) (lock : s'.fdLock = s.fdLock)
    (lists : s'.lists = (s.tcWaitqWakeupAll wq).lists) (masks : s'.epEvents = s.epEvents) :
    FdFrame s s' := by
  refine woken inv (s.events (.waiters wq)) (fun _ member => member) lock (fun e => ?_) masks
  rw [lists, tcWaitqWakeupAll_lists]
  exact (IntrusiveLists.movesTo_front EventList.immediate).foldl_el s.lists _ e

theorem wakeupOne (inv : ListInv s) (wq : Waitq) (lock : s'.fdLock = s.fdLock)
    (lists : s'.lists = (s.tcWaitqWakeupOne wq).1.lists) (masks : s'.epEvents = s.epEvents) :
    FdFrame s s' := by
  cases queue : s.events (.waiters wq) with
  | nil => exact same lock (by rw [lists, tcWaitqWakeupOne_nil queue]) masks
  | cons x es =>
      have first : ∀ e ∈ [x], e ∈ s.events (.waiters wq) := by simp [queue]
      refine woken inv [x] first lock (fun e => ?_) masks
      rw [lists, tcWaitqWakeupOne_cons queue]
      by_cases equal : e = x <;> simp [iwiImmediate, equal]

theorem removed {x : EventId} (lock : s'.fdLock = s.fdLock)
    (el : s'.lists.el = Function.update s.lists.el x none) (masks : s'.epEvents = s.epEvents)
    (unlocked : ∀ f, s.el x = some (.fd f) → s.fdLock f = false) : FdFrame s s' := by
  refine ⟨lock, fun e f on locked => ?_, fun e f on => ?_⟩
  · have other : e ≠ x := by
      rintro rfl
      simp [unlocked f on] at locked
    simpa [State.el, el, other] using on
  · by_cases equal : e = x
    · simp [State.el, el, equal] at on
    · exact .inl ⟨by simpa [State.el, el, equal] using on, by rw [masks]⟩

theorem added {x : EventId} {f : FdId} {mask : Mask} (lock : s'.fdLock = s.fdLock)
    (el : s'.lists.el = Function.update s.lists.el x (some (.fd f)))
    (masks : s'.epEvents = Function.update s.epEvents x mask) (free : s.el x = none)
    (single : singleDirection mask = true) : FdFrame s s' := by
  refine ⟨lock, fun e g on _ => ?_, fun e g on => ?_⟩
  · have other : e ≠ x := by
      rintro rfl
      simp [free] at on
    simpa [State.el, el, other] using on
  · by_cases equal : e = x
    · exact .inr (by simpa [masks, equal] using single)
    · exact .inl ⟨by simpa [State.el, el, equal] using on, by simp [masks, equal]⟩

end FdFrame

section Effects

variable {s s' : State} {w : WorkerId} {t : Tid}

private theorem tcWaitqWakeupOne_fd (s : State) (wq : Waitq) :
    (s.tcWaitqWakeupOne wq).1.fdLock = s.fdLock ∧
      (s.tcWaitqWakeupOne wq).1.epEvents = s.epEvents := by
  obtain ⟨_, _, _, frame⟩ := tcWaitqWakeupOne_frame s wq
  rw [frame]
  exact ⟨rfl, rfl⟩

private theorem sub_not_fd (inv : SystemInv s) {u : Tid} {n : Nat}
    (live : s.life (.sub u n) = .live) (f : FdId) : s.el (.sub u n) ≠ some (.fd f) := by
  intro on
  have sub := (inv.thread u).subs n (by simpa [State.view] using live)
  simp [State.view, show s.lists.el (.sub u n) = some (.fd f) from on] at sub

theorem State.UserEffect.fdFrame {op : UserOp} (effect : UserEffect s w t op s')
    (inv : SystemInv s) (single : (Action.user w op).singleDirection = true) : FdFrame s s' := by
  cases effect with
  | wakeupAll k => exact .wakeupAll inv.lists (.user k) rfl rfl rfl
  | wakeupOne k =>
      obtain ⟨lock, masks⟩ := tcWaitqWakeupOne_fd s (.user k)
      exact .wakeupOne inv.lists (.user k) lock rfl masks
  | fire g => exact .wakeupAll inv.lists (.signal g) rfl rfl rfl
  | subscribe g n _ _ subscribed =>
      obtain ⟨free, rfl⟩ := tcSignalSubscribe_ok subscribed
      exact .fresh rfl rfl (fun _ _ => rfl) free (by simp)
  | unsubscribe u n live =>
      exact .update rfl rfl (fun _ _ => rfl) (sub_not_fd inv live) (by simp)
  | unlock m _ =>
      obtain ⟨lock, masks⟩ := tcWaitqWakeupOne_fd s (.mutex m)
      exact .wakeupOne inv.lists (.mutex m) lock rfl masks
  | threadPost u s₁ _ added =>
      obtain ⟨free, rfl⟩ := addEventCr_ok added
      refine .fresh rfl rfl (fun e other => ?_) free (by simp)
      simp [iwiImmediate, attachEvent, other]
  | yield n s₁ _ added =>
      obtain ⟨free, rfl⟩ := addEventCr_ok added
      refine .fresh rfl rfl (fun e other => ?_) free (by simp)
      simp [pushFrame, tcEventInit, attachEvent, other]
  | waitFdFailed n g mask priority ctl s₁ _ refused =>
      cases refused with
      | errHup => exact .same rfl rfl rfl
      | failed _ free =>
          refine .fresh (k := none) rfl ?_ (fun e other => ?_) free (by simp)
          · simp [endEvent, detachEvent, unlinkEvent, attachEvent, tcEventInit]
          · simp [endEvent, detachEvent, unlinkEvent, attachEvent, tcEventInit, other]
  | waitFd n g mask priority ctl s₁ _ added =>
      cases added with
      | armed _ free => exact .added rfl rfl rfl free (singleDirection_oneshot single)
  | waitqWait n k s₁ _ prepared =>
      obtain ⟨free, rfl⟩ := tcWaitqPrepareToWait_ok prepared
      refine .fresh rfl rfl (fun e other => ?_) free (by simp)
      simp [pushFrame, tcEventOnTcStack, tcEventInit, attachEvent, other]
  | threadWait n v d id s₁ _ prepared =>
      obtain ⟨free, rfl⟩ := tcWaitqPrepareToWait_ok prepared
      refine .fresh rfl rfl (fun e other => ?_) free (by simp)
      simp [pushFrame, tcEventOnTcStack, tcEventInit, attachEvent, other]
  | _ => exact .same rfl rfl rfl

private theorem frame_not_fd {f : Frame} {rest : List Frame} (inv : SystemInv s)
    (frames : s.frames t = f :: rest) (queue : f.call.isLeaf = false) (g : FdId) :
    s.el f.e ≠ some (.fd g) := by
  intro on
  have member : f ∈ (s.view t).frames := by simp [State.view, frames]
  obtain ⟨⟨n, auto⟩, _⟩ := (inv.thread t).frame f member
  have here : (s.view t).el f.e = some (.fd g) := by
    simpa [State.view, State.el, auto] using on
  have placed := ((inv.thread t).located f member).placed (by simp [here])
  rw [Placed, here] at placed
  cases call : f.call <;> simp_all [Call.home, Call.isLeaf]

private theorem finishWait_fdFrame {f : Frame} {rest : List Frame} {rv : Bool} {s₁ : State}
    (inv : SystemInv s) (on : s.mode w = .thread t) (frames : s.frames t = f :: rest)
    (queue : f.call.isLeaf = false) (finished : FinishWait s w t f.e rv s₁)
    (lock : s'.fdLock = s₁.fdLock) (lists : s'.lists = s₁.lists)
    (masks : s'.epEvents = s₁.epEvents) : FdFrame s s' := by
  have event := frame_not_fd inv frames queue
  have top := view_top on frames
  cases finished with
  | expected _ _ =>
      exact .update lock (by rw [lists]; rfl) (fun e _ => congrFun masks e) event (by simp)
  | requeued x woken live signal active =>
      have mine : x.owner = t := (inv.thread t).woken w x (.inr (by simpa [woken] using top.1))
      obtain ⟨n, rfl⟩ := (inv.thread t).sub_of_signal mine (by simpa [State.view, mine] using signal)
      refine .elsewhere lock fun e => ?_
      by_cases isSub : e = .sub t n
      · subst isSub
        exact .inr ⟨sub_not_fd inv live, fun f => by simp [State.el, lists, attachEvent]⟩
      · by_cases isOwn : e = f.e
        · subst isOwn
          refine .inr ⟨event, fun g => ?_⟩
          simp [State.el, lists, attachEvent, removeEventHoldingLocks, unlinkEvent, isSub]
        · refine .inl ⟨?_, congrFun masks e⟩
          simp [State.el, lists, attachEvent, removeEventHoldingLocks, unlinkEvent, isSub, isOwn]
  | interrupted x _ _ _ _ =>
      exact .update lock (by rw [lists]; rfl) (fun e _ => congrFun masks e) event (by simp)

theorem State.FrameEffect.fdFrame {f : Frame} {rest : List Frame} (effect : FrameEffect s w t f s')
    (inv : SystemInv s) (on : s.mode w = .thread t) (frames : s.frames t = f :: rest) :
    FdFrame s s' := by
  cases effect with
  | scheduled _ _ scheduled =>
      cases scheduled with
      | slept _ => exact .same rfl rfl rfl
      | signalled e _ pending _ _ =>
          have placed := inv.lists.mem_events.mp pending
          refine .update (x := e) (k := some (.waiters (.signal (s.signal e)))) rfl ?_
            (fun _ _ => rfl) (by simp [placed]) (by simp)
          simp [setFrame, relocateEvent]
      | resumed e _ pending _ _ _ =>
          have placed := inv.lists.mem_events.mp pending
          exact .update rfl rfl (fun _ _ => rfl) (by simp [placed]) (by simp)
  | yieldIntr _ _ _ _ unlocked =>
      have removed : FdFrame s (s.detachEvent f.e) := .removed rfl rfl rfl unlocked
      exact removed.congr rfl rfl rfl
  | fdIntr _ _ _ _ _ unlocked =>
      have removed : FdFrame s (s.detachEvent f.e) := .removed rfl rfl rfl unlocked
      exact removed.congr rfl rfl rfl
  | interrupted s₁ _ queue finished =>
      exact finishWait_fdFrame inv on frames queue finished rfl rfl rfl
  | again s₁ _ queue finished => exact finishWait_fdFrame inv on frames queue finished rfl rfl rfl
  | woken s₁ _ queue _ finished =>
      exact finishWait_fdFrame inv on frames queue finished rfl rfl rfl
  | prepared wq s₁ _ _ _ prepared =>
      obtain ⟨free, rfl⟩ := tcWaitqPrepareToWait_ok prepared
      refine .fresh rfl rfl (fun e other => ?_) free (by simp)
      simp [setFrame, tcEventOnTcStack, attachEvent, other]
  | held s₁ rv pc finished =>
      have queue : f.call.isLeaf = false := by
        have admits := (inv.control t).admits f rest (by simpa [State.view] using frames)
        cases call : f.call <;> simp_all [Call.admits, Call.isLeaf]
      exact finishWait_fdFrame inv on frames queue finished rfl rfl rfl
  | _ => exact .same rfl rfl rfl

theorem State.DieEffect.fdFrame (effect : DieEffect s w t s') (inv : SystemInv s) :
    FdFrame s s' := by
  cases effect with
  | settled _ => exact .same rfl rfl rfl
  | announced _ => exact .wakeupAll inv.lists (.exit t) rfl rfl rfl
  | exits s₁ _ added =>
      obtain ⟨free, rfl⟩ := addEventCr_ok added
      refine .fresh rfl rfl (fun e other => ?_) free (by simp)
      simp [iwiImmediate, attachEvent, other]

theorem runOrQueue_fd {e : EventId} {chosen : Option Tid} (ran : RunOrQueue s w e chosen s') :
    s'.fdLock = s.fdLock ∧ s'.epEvents = s.epEvents ∧
      ∃ k, s'.lists.el = Function.update s.lists.el e k ∧ ∀ f, k ≠ some (.fd f) := by
  cases ran with
  | exits _ _ => exact ⟨rfl, rfl, none, rfl, by simp⟩
  | queued k _ _ _ _ _ =>
      exact ⟨rfl, rfl, some (.pending (s.tc e)), by simp [relocateEvent], by simp⟩
  | signalled k _ _ _ _ =>
      exact ⟨rfl, rfl, some (.waiters (.signal (s.signal e))), by simp [relocateEvent], by simp⟩
  | selected k _ _ _ _ _ => exact ⟨rfl, rfl, none, rfl, by simp⟩

end Effects

/-! ## The invariant is kept -/

theorem FdFrame.fdInv {s s' : State} (frame : FdFrame s s') (inv : FdInv s)
    (modes : ∀ w f e, s'.mode w = .report f e → s.mode w = .report f e) : FdInv s' where
  locked w f e report := by
    obtain ⟨locked, on⟩ := inv.locked w f e (modes w f e report)
    exact ⟨frame.lock ▸ locked, frame.keeps e f on locked⟩
  unique w w' f e e' report other :=
    inv.unique w w' f e e' (modes w f e report) (modes w' f e' other)
  single e f on := by
    rcases frame.masks e f on with ⟨before, same⟩ | single
    · rw [same]
      exact inv.single e f before
    · exact single

theorem FdInv.ran {s s₁ : State} {w : WorkerId} {f : FdId} {e : EventId} {chosen : Option Tid}
    {mode : Mode} (inv : FdInv s) (report : s.mode w = .report f e)
    (ran : RunOrQueue (s.served w (some f)) w e chosen s₁) (other : ∀ f e, mode ≠ .report f e) :
    FdInv { s₁ with
      fdLock := Function.update s₁.fdLock f false
      mode := Function.update s₁.mode w mode } := by
  have taken := runOrQueue_fd ran
  obtain ⟨lock, masks, k, el, elsewhere⟩ : s₁.fdLock = s.fdLock ∧ s₁.epEvents = s.epEvents ∧
      ∃ k, s₁.lists.el = Function.update s.lists.el e k ∧ ∀ f, k ≠ some (.fd f) := taken
  have modes : ∀ {w' g x}, Function.update s₁.mode w mode w' = .report g x →
      w' ≠ w ∧ s.mode w' = .report g x := by
    intro w' g x reports
    rw [runOrQueue_mode ran] at reports
    refine ⟨?_, update_report reports other⟩
    rintro rfl
    simp [other] at reports
  refine ⟨fun w' g x reports => ?_, fun w' w'' g x y first second => ?_, fun x g on => ?_⟩
  · obtain ⟨different, before⟩ := modes reports
    obtain ⟨locked, on⟩ := inv.locked w' g x before
    have otherFd : g ≠ f := by
      rintro rfl
      exact different (inv.unique w' w g x e before report)
    have otherEvent : x ≠ e := by
      rintro rfl
      have here := (inv.locked w f x report).2
      simp [on, otherFd] at here
    refine ⟨by simpa [otherFd, lock] using locked, ?_⟩
    simpa [State.el, el, otherEvent] using on
  · exact inv.unique w' w'' g x y (modes first).2 (modes second).2
  · by_cases same : x = e
    · simp [State.el, el, same, elsewhere] at on
    · have before : s.el x = some (.fd g) := by simpa [State.el, el, same] using on
      simpa [masks] using inv.single x g before

theorem FdInv.reported {s : State} {w : WorkerId} {f : FdId} {em : Mask} (inv : FdInv s)
    (lists : ListInv s) (sched : s.mode w = .sched) (unlocked : s.fdLock f = false) :
    FdInv (s.handleReport w f em) := by
  obtain ⟨moved, choice, handled⟩ :=
    handleReport_spec (fun f => lists.lists.nodup (.fd f)) w f em
  obtain ⟨errHup, fdEpEvents, equal⟩ := handled.effect
  have stays := handled.stays fun e member => by
    simpa [singleDirection] using inv.single e f (lists.mem_events.mp member)
  have el : ∀ e, (s.handleReport w f em).el e =
      if e ∈ moved then some .immediate else s.el e := by
    intro e
    rw [equal]
    exact (IntrusiveLists.movesTo_back EventList.immediate).foldl_el s.lists moved e
  have modes : ∀ {w' g x}, (s.handleReport w f em).mode w' = .report g x →
      w' ≠ w ∧ s.mode w' = .report g x ∨ w' = w ∧ g = f ∧ choice = some x := by
    intro w' g x reports
    rw [equal] at reports
    by_cases same : w' = w
    · subst same
      cases found : choice with
      | none => simp [keepReport, moveToImmediate, found, sched] at reports
      | some y =>
          obtain ⟨rfl, rfl⟩ : f = g ∧ y = x := by
            simpa [keepReport, moveToImmediate, found] using reports
          exact .inr ⟨rfl, rfl, rfl⟩
    · refine .inl ⟨same, ?_⟩
      cases found : choice <;> simpa [keepReport, moveToImmediate, found, same] using reports
  have others : ∀ {w' g x}, s.mode w' = .report g x → g ≠ f := by
    rintro w' g x reports rfl
    simp [(inv.locked w' g x reports).1] at unlocked
  refine ⟨fun w' g x reports => ?_, fun w' w'' g x y first second => ?_, fun x g on => ?_⟩
  · rcases modes reports with ⟨_, before⟩ | ⟨_, rfl, chosen⟩
    · obtain ⟨locked, on⟩ := inv.locked w' g x before
      have absent : x ∉ moved := by
        intro member
        have there := lists.mem_events.mp (handled.movedFrom x member)
        simp [on, others before] at there
      refine ⟨?_, by rw [el, if_neg absent, on]⟩
      rw [equal]
      cases found : choice <;> simp [keepReport, moveToImmediate, others before, locked]
    · refine ⟨?_, ?_⟩
      · rw [equal]
        simp [keepReport, chosen]
      · rw [el, if_neg (stays x chosen)]
        exact lists.mem_events.mp (handled.chosenFrom x chosen)
  · rcases modes first with ⟨_, before⟩ | ⟨rfl, rfl, _⟩
    · rcases modes second with ⟨_, before'⟩ | ⟨_, rfl, _⟩
      · exact inv.unique w' w'' g x y before before'
      · exact absurd rfl (others before)
    · rcases modes second with ⟨_, before'⟩ | ⟨rfl, _, _⟩
      · exact absurd rfl (others before')
      · rfl
  · have absent : x ∉ moved := by
      intro member
      simp [el, member] at on
    have before : s.el x = some (.fd g) := by rwa [el, if_neg absent] at on
    rw [equal]
    exact inv.single x g before

theorem State.Effect.fdInv {s s' : State} {a : Action} (effect : s.Effect a s')
    (inv : SystemInv s) (fd : FdInv s) (single : a.singleDirection = true) : FdInv s' := by
  have kept : (∀ w f em, a ≠ .report w f em) → FdFrame s s' → FdInv s' := by
    intro other frame
    refine frame.fdInv fd fun w f e report => ?_
    rcases effect.mode_report inv.lists report with before | ⟨⟨em, equal⟩, _⟩
    · exact before
    · exact absurd equal (other w f em)
  have immediate : ∀ {w : WorkerId} {e : EventId} {chosen : Option Tid} {s₁ : State},
      e ∈ s.events .immediate → RunOrQueue (s.served w none) w e chosen s₁ → FdFrame s s₁ := by
    intro w e chosen s₁ found ran
    obtain ⟨lock, masks, k, el, elsewhere⟩ := runOrQueue_fd ran
    have on := inv.lists.mem_events.mp found
    exact .update lock el (fun x _ => congrFun masks x) (by simp [on]) elsewhere
  cases effect with
  | searched w scan _ => exact kept (by simp) (.same rfl rfl rfl)
  | queued w scan x s₁ _ found ran => exact kept (by simp) (immediate found ran)
  | reaped w scan x u s₁ _ found _ ran =>
      have frame := immediate found ran
      exact kept (by simp) ⟨frame.lock, frame.keeps, frame.masks⟩
  | chosen w scan x u s₁ immediateFd _ found _ ran =>
      have frame := immediate found ran
      exact kept (by simp) ⟨frame.lock, frame.keeps, frame.masks⟩
  | reported w g em sched unlocked => exact fd.reported inv.lists sched unlocked
  | reportQueued w g x s₁ report _ ran => exact fd.ran report ran (by simp)
  | reportChosen w g x u s₁ report _ ran => exact fd.ran report ran (by simp)
  | entered w u _ => exact kept (by simp) (.same rfl rfl rfl)
  | left w u _ => exact kept (by simp) (.same rfl rfl rfl)
  | freed w u _ => exact kept (by simp) (.same rfl rfl rfl)
  | aio w k _ =>
      exact kept (by simp) (.wakeupAll inv.lists (.user k) rfl rfl rfl)
  | user w u op _ _ _ effect => exact kept (by simp) (effect.fdFrame inv single)
  | returned w value u g rest k _ _ _ _ =>
      exact kept (by simp) (.same rfl rfl rfl)
  | evaluated w value u g rest pc _ _ _ _ =>
      exact kept (by simp) (.same rfl rfl rfl)
  | advanced w u g rest _ on frames effect =>
      exact kept (by simp) (effect.fdFrame inv on frames)
  | died w u _ _ _ effect => exact kept (by simp) (effect.fdFrame inv)

theorem FdInv.initial (workers : Nat) (domainOf : WorkerId → DomainId) :
    FdInv (.initial workers domainOf) where
  locked w f e report := by
    by_cases main : w < workers <;> simp [State.initial, main] at report
  unique w w' f e e' report := by
    by_cases main : w < workers <;> simp [State.initial, main] at report
  single e f on := by simp [State.initial, State.el, IntrusiveLists.empty] at on

end Libtcr
