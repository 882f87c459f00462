import Libtcr.ThreadProjection
import Libtcr.CallInvariant

/-! The steps inside sleeping calls as steps of the views, and with them every step of
the system. -/

set_option autoImplicit false

namespace Libtcr

open State

section FrameEffect

variable {s : State} {w : WorkerId} {t : Tid} {f : Frame} {rest : List Frame}

theorem view_top (on : s.mode w = .thread t) (frames : s.frames t = f :: rest) :
    (s.view t).Top w (s.wokenByEvent w) f rest :=
  ⟨by simp [State.view, on], by simpa [State.view] using frames⟩

theorem pending_owner (inv : ListInv s) (threads : ∀ t, ThreadInv t (s.view t)) {e : EventId}
    (pending : e ∈ s.events (.pending t)) : e.owner = t := by
  have on := inv.mem_events.mp pending
  have placed : (s.view e.owner).el e = some (.pending t) := by
    simpa [State.view, State.el] using on
  exact ((threads e.owner).pending_self placed).symm

private theorem scheduled_moves {a : Action} (inv : ListInv s)
    (threads : ∀ t, ThreadInv t (s.view t)) (on : s.mode w = .thread t)
    (frames : s.frames t = f :: rest) (pc : f.pc = .pushed) {s' : State}
    (scheduled : TcScheduler s w t f s') (r : Tid) : s.ViewMoves a r (s.view r) (s'.view r) := by
  have top := view_top on frames
  cases scheduled with
  | slept nothing =>
      by_cases own : t = r
      · subst own
        refine .plain_to ?_ (.sleep w _ f rest top pc fun e pending => ?_)
        · simp [State.view, setFrame, frames, places_update_mode]
        · by_cases own : e.owner = t
          · have member : e ∈ s.events (.pending t) :=
              inv.mem_events.mpr (by simpa [State.view, State.el, own_of_owner own] using pending)
            simpa [State.view, own_of_owner own] using nothing e member
          · simp [State.view, own_of_other own] at pending
      · refine .same ?_
        simp [State.view, setFrame, Ne.symm own, places_update_mode, on, placeOf_thread_other _ own]
  | signalled e tcfd pending _ signal =>
      have owner := pending_owner inv threads pending
      have placed := inv.mem_events.mp pending
      by_cases own : t = r
      · subst own
        refine .plain_to ?_ (.resumeSignal w _ f rest e top pc owner
          (by simpa [State.view, State.el, owner] using placed)
          (by simpa [State.view, owner] using signal))
        simp [State.view, setFrame, relocateEvent, unlinkEvent, frames, own_update owner, owner,
          places_update_woken, on]
      · refine .same ?_
        have other : e.owner ≠ r := owner.trans_ne own
        simp [State.view, setFrame, relocateEvent, unlinkEvent, Ne.symm own,
          own_update_other other, places_update_woken, on, placeOf_thread_other _ own]
  | resumed e tcfd pending placed event first =>
      have owner := pending_owner inv threads pending
      by_cases own : t = r
      · subst own
        refine .plain_to ?_ (.resumeEvent w _ f rest e top pc owner
          (by simpa [State.view, State.el, owner] using placed)
          (by simpa [State.view, owner] using event) (by simpa [State.view] using first))
        simp [State.view, setFrame, detachEvent, unlinkEvent, frames, own_update owner,
          places_update_woken, on]
      · refine .same ?_
        have other : e.owner ≠ r := owner.trans_ne own
        simp [State.view, setFrame, detachEvent, unlinkEvent, Ne.symm own,
          own_update_other other, places_update_woken, on, placeOf_thread_other _ own]

private theorem finished_moves {a : Action} (thread : ThreadInv t (s.view t))
    (on : s.mode w = .thread t) (frames : s.frames t = f :: rest) (queue : f.call.isLeaf = false)
    (pc : f.pc = .woke ∨ f.pc = .holds)
    (stale : f.pc = .holds → s.finishesOther w f = true → s.isActive t f.e = true →
      s.staleRequeue a = true) {s₁ : State} (finished : FinishWait s w t f.e false s₁) :
    s.ViewMoves a t (s.view t) ((s₁.setFrame t { f with pc := .prep }).view t) := by
  have top := view_top on frames
  obtain ⟨⟨n, auto⟩, _⟩ := thread.frame f (by simp [State.view, frames])
  have owner : f.e.owner = t := thread.event_owner (by simp [State.view, frames])
  cases finished with
  | expected first woken =>
      refine .plain_to ?_ (.finishExpected w _ f rest top pc queue (by simpa [State.view] using first)
        woken)
      simp [State.view, setFrame, removeEventHoldingLocks, unlinkEvent, frames, own_update owner,
        owner, places_update_woken, on]
  | requeued x woken live signal active =>
      have mine : x.owner = t :=
        thread.woken w x (.inr (by simp [State.view, on, woken]))
      have different : x ≠ f.e := by
        rintro rfl
        have flags := (thread.flagsAuto n).1
        rw [auto] at signal
        simp [State.view, signal] at flags
      have step := ViewStep.finishRequeue w x f rest (by simpa [woken] using top) pc queue mine
        (by simpa [State.view, mine] using live) (by simpa [State.view, mine] using signal)
        (by simpa [State.view, State.el, owner] using active)
      have allowed : (if f.pc = .holds then Kind.staleRequeue else .plain) = .plain ∨
          s.view t = s.view t ∧
            s.Special a t (if f.pc = .holds then Kind.staleRequeue else .plain) := by
        by_cases holds : f.pc = .holds
        · refine .inr ⟨rfl, ?_⟩
          rw [if_pos holds]
          exact stale holds (by simp [finishesOther, Frame.finishes, holds, woken, different])
            (by simpa [isActive] using active)
        · exact .inl (if_neg holds)
      refine ViewMoves.ends (.single ⟨_, allowed, step⟩) ?_
      simp [State.view, setFrame, removeEventHoldingLocks, unlinkEvent, attachEvent, frames,
        own_update owner, own_update mine, owner, places_update_woken, on]

private theorem finished_others {rv : Bool} (thread : ThreadInv t (s.view t))
    (on : s.mode w = .thread t) (frames : s.frames t = f :: rest) {s₁ : State}
    (finished : FinishWait s w t f.e rv s₁) {r : Tid} (other : t ≠ r) : s₁.view r = s.view r := by
  obtain ⟨⟨n, auto⟩, _⟩ := thread.frame f (by simp [State.view, frames])
  have foreign : f.e.owner ≠ r := by
    rw [auto, EventId.owner]
    exact other
  cases finished with
  | expected _ _ =>
      simp [State.view, removeEventHoldingLocks, unlinkEvent, own_update_other foreign,
        Ne.symm other, places_update_woken, on, placeOf_thread_other _ other]
  | requeued x woken _ _ _ =>
      have mine : x.owner = t := thread.woken w x (.inr (by simp [State.view, on, woken]))
      have notOurs : x.owner ≠ r := mine.trans_ne other
      simp [State.view, removeEventHoldingLocks, unlinkEvent, attachEvent,
        own_update_other foreign, own_update_other notOurs, Ne.symm other, places_update_woken, on,
        placeOf_thread_other _ other]
  | interrupted x _ _ _ _ =>
      simp [State.view, removeEventHoldingLocks, unlinkEvent, own_update_other foreign]

theorem returnCall_others (s : State) (f : Frame) (rv : Rv) {r : Tid} (other : t ≠ r)
    (foreign : f.e.owner ≠ r) : (s.returnCall t f rv).view r = s.view r := by
  have held : (s.returnCall t f rv).held r = s.held r := by
    cases call : f.call <;> cases rv <;> simp [returnCall, call, Ne.symm other]
  simp only [State.view, held]
  simp [returnCall, endEvent, own_update_other foreign, Ne.symm other]

private theorem returnIntr_others (s : State) (f : Frame) {x : Option EventId} {r : Tid}
    (other : t ≠ r) (foreign : f.e.owner ≠ r) (cause : ∀ y, x = some y → y.owner ≠ r) :
    (s.returnIntr t f x).view r = s.view r := by
  have returned := returnCall_others s f .intr other foreign
  cases x with
  | none => exact returned
  | some y =>
      have notOurs := cause y rfl
      rw [← returned]
      simp [State.view, returnIntr, returnCall, endEvent, own_update_other notOurs]

theorem returnCall_plain (s : State) (owner : f.e.owner = t) (rv : Rv)
    (plain : (∀ m, f.call ≠ .mutex m) ∨ rv ≠ .ok) :
    (s.returnCall t f rv).view t = { s.view t with
      frames := (s.frames t).tail
      life := Function.update (s.view t).life f.e .dead
      result := Function.update (s.view t).result f.e (some rv) } := by
  have held : (s.returnCall t f rv).held = s.held := by
    unfold returnCall
    dsimp only
    split
    · next call =>
      rcases plain with notMutex | notOk
      · exact absurd call (notMutex _)
      · exact absurd rfl notOk
    · rfl
  simp only [State.view, held]
  simp [returnCall, endEvent, own_update owner]

private theorem returnCall_locked (s : State) (owner : f.e.owner = t) {m : MutexId}
    (call : f.call = .mutex m) :
    (s.returnCall t f .ok).view t = { s.view t with
      frames := (s.frames t).tail
      life := Function.update (s.view t).life f.e .dead
      result := Function.update (s.view t).result f.e (some .ok)
      held := Function.update (s.view t).held m true } := by
  simp [State.view, returnCall, endEvent, own_update owner, call]

private theorem returnIntr_view (s : State) (owner : f.e.owner = t) {x : EventId}
    (mine : x.owner = t) :
    (s.returnIntr t f (some x)).view t = { s.view t with
      frames := (s.frames t).tail
      life := Function.update (s.view t).life f.e .dead
      result := Function.update (s.view t).result f.e (some .intr)
      interrupts := Function.update (s.view t).interrupts x ((s.view t).interrupts x + 1) } := by
  have returned := returnCall_plain s owner .intr (.inr (by simp))
  have same : (s.returnIntr t f (some x)).view t = { (s.returnCall t f .intr).view t with
      interrupts := Function.update (s.view t).interrupts x ((s.view t).interrupts x + 1) } := by
    simp [State.view, returnIntr, returnCall, endEvent, own_update mine, mine]
  rw [same, returned]

theorem turned_moves {a : Action} (on : s.mode w = .thread t) (frames : s.frames t = f :: rest)
    {pc : Pc} (turned : Turn (s.view t) f.call f.pc pc) (r : Tid) :
    s.ViewMoves a r (s.view r) ((s.setFrame t { f with pc := pc }).view r) := by
  by_cases own : t = r
  · subst own
    refine .plain_to ?_ (.turn w _ f rest pc (view_top on frames) turned)
    simp [State.view, setFrame, frames]
  · refine .same ?_
    simp [State.view, setFrame, Ne.symm own]

private theorem acquired_moves {a : Action} (on : s.mode w = .thread t)
    (frames : s.frames t = f :: rest) (owner : f.e.owner = t) {m : MutexId}
    (pc : f.pc = .cas0 ∨ f.pc = .cas1) (call : f.call = .mutex m) (free : s.owner m = none)
    (r : Tid) :
    s.ViewMoves a r (s.view r)
      (({ s with owner := Function.update s.owner m (some t) }.returnCall t f .ok).view r) := by
  by_cases own : t = r
  · subst own
    have unplaced : f.pc.unplaced = true := by rcases pc with pc | pc <;> simp [pc, Pc.unplaced]
    refine .plain_to ?_ (.returnLocked w _ f rest m (view_top on frames) unplaced call
      (.inr ⟨by simpa [State.view] using free, pc⟩))
    rw [returnCall_locked _ owner call]
    simp [State.view, frames, shares_update]
  · refine taken_moves free own ?_
    rw [returnCall_others _ f .ok own (owner.trans_ne own)]
    simp [State.view, shares_update]

private theorem taken_loop_moves {a : Action} (on : s.mode w = .thread t)
    (frames : s.frames t = f :: rest) {m : MutexId} (pc : f.pc = .cas) (call : f.call = .mutex m)
    (free : s.owner m = none) (r : Tid) :
    s.ViewMoves a r (s.view r) (({ s with
      owner := Function.update s.owner m (some t) }.setFrame t { f with pc := .holds }).view r) := by
  by_cases own : t = r
  · subst own
    refine .plain_to ?_ (.acquire w _ f rest m (view_top on frames) call pc
      (by simpa [State.view] using free))
    simp [State.view, setFrame, frames, shares_update]
  · refine taken_moves free own ?_
    simp [State.view, setFrame, shares_update, Ne.symm own]

private theorem leafIntr_moves {a : Action} (thread : ThreadInv t (s.view t))
    (on : s.mode w = .thread t) (frames : s.frames t = f :: rest) (pc : f.pc = .woke)
    (leaf : f.call.isLeaf = true) (woken : s.wokenByEvent w ≠ some f.e) {s' : State}
    {after : Option EventId} (left : after = s.wokenByEvent w ∨ after = none)
    (same : ∀ r, s'.view r = { s.view r with
      el := own r none (Function.update s.lists.el f.e none)
      stack := Function.update s.eventStack t (s.nextInStack f.e) r
      place := fun w' => placeOf r (s.mode w') (Function.update s.wokenByEvent w after w') })
    (frames' : s'.frames = s.frames) (r : Tid) :
    s.ViewMoves a r (s.view r) ((s'.returnIntr t f (s.wokenByEvent w)).view r) := by
  have top := view_top on frames
  obtain ⟨⟨n, auto⟩, _⟩ := thread.frame f (by simp [State.view, frames])
  have owner : f.e.owner = t := thread.event_owner (by simp [State.view, frames])
  obtain ⟨x, found, _⟩ := thread.delivered w _ f rest top.2 (.inr ⟨top.1, pc⟩)
  have mine : x.owner = t := thread.woken w x (.inr (found ▸ top.1))
  rw [found] at woken top left ⊢
  by_cases own : t = r
  · subst own
    refine .plain_to ?_ (.leafIntr w x after f rest top pc leaf mine (by simpa using woken) left)
    rw [returnIntr_view _ owner mine, same, frames']
    simp [State.view, frames, own_update owner, owner, places_update_woken, on]
  · refine .same ?_
    rw [returnIntr_others _ f own (owner.trans_ne own), same]
    · simp [State.view, own_update_other (owner.trans_ne own), Ne.symm own, places_update_woken, on,
        placeOf_thread_other _ own]
    · rintro y ⟨⟩
      exact mine.trans_ne own

private theorem leafDone_moves {a : Action} (thread : ThreadInv t (s.view t))
    (on : s.mode w = .thread t) (frames : s.frames t = f :: rest) (pc : f.pc = .woke)
    (leaf : f.call.isLeaf = true) (woken : s.wokenByEvent w = some f.e) (rv : Rv)
    (notIntr : rv ≠ .intr) {s' : State}
    (same : ∀ r, s'.view r = { s.view r with
      stack := Function.update s.eventStack t (s.nextInStack f.e) r
      place := fun w' => placeOf r (s.mode w') (Function.update s.wokenByEvent w none w') })
    (frames' : s'.frames = s.frames) (r : Tid) :
    s.ViewMoves a r (s.view r) ((s'.returnCall t f rv).view r) := by
  have top := view_top on frames
  obtain ⟨⟨n, auto⟩, _⟩ := thread.frame f (by simp [State.view, frames])
  have owner : f.e.owner = t := thread.event_owner (by simp [State.view, frames])
  have notMutex : ∀ m, f.call ≠ .mutex m := by
    intro m call
    simp [call, Call.isLeaf] at leaf
  rw [woken] at top
  by_cases own : t = r
  · subst own
    refine .plain_to ?_ (.leafDone w f rest rv top pc leaf notIntr)
    rw [returnCall_plain _ owner rv (.inl notMutex), same, frames']
    simp [State.view, frames, owner, places_update_woken, on]
  · refine .same ?_
    rw [returnCall_others _ f rv own (owner.trans_ne own), same]
    simp [State.view, Ne.symm own, places_update_woken, on, placeOf_thread_other _ own]

private theorem interrupted_moves {a : Action} (thread : ThreadInv t (s.view t))
    (on : s.mode w = .thread t) (frames : s.frames t = f :: rest) (queue : f.call.isLeaf = false)
    (pc : f.pc = .woke)
    (exit : s.finishesOther w f = true → s.isActive t f.e = false →
      s.Special a t (.signalOnly (!rest.isEmpty))) {s₁ : State}
    (finished : FinishWait s w t f.e true s₁) (r : Tid) :
    s.ViewMoves a r (s.view r) ((s₁.returnIntr t f (s.wokenByEvent w)).view r) := by
  have top := view_top on frames
  obtain ⟨⟨n, auto⟩, _⟩ := thread.frame f (by simp [State.view, frames])
  have owner : f.e.owner = t := thread.event_owner (by simp [State.view, frames])
  have others := fun r => finished_others (r := r) thread on frames finished
  cases finished with
  | interrupted x woken live signal inactive =>
      have mine : x.owner = t := thread.woken w x (.inr (by simp [State.view, on, woken]))
      have different : x ≠ f.e := by
        rintro rfl
        have flags := (thread.flagsAuto n).1
        rw [auto] at signal
        simp [State.view, signal] at flags
      rw [woken]
      by_cases own : t = r
      · subst own
        have allowed := exit (by simp [finishesOther, Frame.finishes, pc, queue, woken, different])
          (by simpa [isActive] using inactive)
        have step := ViewStep.finishIntr w x f rest (by simpa [woken] using top) pc queue mine
          (by simpa [State.view, mine] using live) (by simpa [State.view, mine] using signal)
          (by simpa [State.view, State.el, owner] using inactive)
        refine (ViewMoves.special allowed step).ends ?_
        rw [returnIntr_view _ owner mine]
        simp [State.view, removeEventHoldingLocks, unlinkEvent, frames, own_update owner]
      · refine .same ?_
        rw [returnIntr_others _ f own (owner.trans_ne own), others r own]
        rintro y ⟨⟩
        exact mine.trans_ne own

/-- The return `RV_OK` of a call whose event has been taken off its list and off the
event stack. -/
theorem returned_moves {a : Action} {s₁ : State} {v : View} (on : s₁.mode w = .thread t)
    (frames : s₁.frames t = f :: rest) (owner : f.e.owner = t)
    (locked : ∀ m, f.call = .mutex m → s₁.owner m = some t)
    (moves : s.ViewMoves a t v ((s₁.setFrame t { f with pc := .prep }).view t)) :
    s.ViewMoves a t v ((s₁.returnCall t f .ok).view t) := by
  have top : ((s₁.setFrame t { f with pc := .prep }).view t).Top w (s₁.wokenByEvent w)
      { f with pc := .prep } rest :=
    ⟨by simp [State.view, setFrame, on], by simp [State.view, setFrame, frames]⟩
  by_cases mutex : ∃ m, f.call = .mutex m
  · obtain ⟨m, call⟩ := mutex
    have mine := locked m call
    refine moves.then_plain_to ?_
      (.returnLocked w _ _ rest m top rfl call (.inl (by simpa [State.view, setFrame] using mine)))
    rw [returnCall_locked _ owner call]
    simp [State.view, setFrame, frames, mine]
  · have notMutex : ∀ m, f.call ≠ .mutex m := fun m call => mutex ⟨m, call⟩
    refine moves.then_plain_to ?_ (.returnPlain w _ _ rest .ok top rfl notMutex (by simp))
    rw [returnCall_plain _ owner .ok (.inl notMutex)]
    simp [State.view, setFrame, frames]

private theorem finishWait_frame {e : EventId} {rv : Bool} {s₁ : State}
    (finished : FinishWait s w t e rv s₁) :
    s₁.mode = s.mode ∧ s₁.frames = s.frames ∧ s₁.owner = s.owner := by
  obtain ⟨_, _, _, _, _, _, _, rfl⟩ := finished.frame
  exact ⟨rfl, rfl, rfl⟩

private theorem ignored_moves {a : Action} (thread : ThreadInv t (s.view t))
    (on : s.mode w = .thread t) (frames : s.frames t = f :: rest) (queue : f.call.isLeaf = false)
    (pc : f.pc = .holds) (notMutex : ∀ m, f.call ≠ .mutex m)
    (exit : s.finishesOther w f = true → s.isActive t f.e = false →
      s.Special a t (.signalOnly (!rest.isEmpty))) {s₁ : State}
    (finished : FinishWait s w t f.e true s₁) :
    s.ViewMoves a t (s.view t) ((s₁.returnCall t f .ok).view t) := by
  have top := view_top on frames
  obtain ⟨⟨n, auto⟩, _⟩ := thread.frame f (by simp [State.view, frames])
  have owner : f.e.owner = t := thread.event_owner (by simp [State.view, frames])
  cases finished with
  | interrupted x woken live signal inactive =>
      have mine : x.owner = t := thread.woken w x (.inr (by simp [State.view, on, woken]))
      have different : x ≠ f.e := by
        rintro rfl
        have flags := (thread.flagsAuto n).1
        rw [auto] at signal
        simp [State.view, signal] at flags
      have allowed := exit (by simp [finishesOther, Frame.finishes, pc, woken, different])
        (by simpa [isActive] using inactive)
      have step := ViewStep.finishIgnored w x f rest (by simpa [woken] using top) pc queue mine
        (by simpa [State.view, mine] using live) (by simpa [State.view, mine] using signal)
        (by simpa [State.view, State.el, owner] using inactive) notMutex
      refine (ViewMoves.special allowed step).ends ?_
      rw [returnCall_plain _ owner .ok (.inl notMutex)]
      simp [State.view, removeEventHoldingLocks, unlinkEvent, frames, own_update owner]

structure ViewsInv (s : State) : Prop where
  thread : ∀ t, ThreadInv t (s.view t)
  mutex : ∀ t, MutexInv (s.view t)
  control : ∀ t, ControlInv (s.view t)
  results : ∀ t, Unreturned t (s.view t)

private theorem held_moves {a : Action} (views : ViewsInv s) (on : s.mode w = .thread t)
    (frames : s.frames t = f :: rest) (pc : f.pc = .holds)
    (stale : s.finishesOther w f = true → s.isActive t f.e = true → s.staleRequeue a = true)
    (exit : s.finishesOther w f = true → s.isActive t f.e = false →
      s.Special a t (.signalOnly (!rest.isEmpty)))
    {s₁ : State} {rv : Bool} (finished : FinishWait s w t f.e rv s₁) (r : Tid) :
    s.ViewMoves a r (s.view r) ((s₁.returnCall t f .ok).view r) := by
  have thread := views.thread t
  have top := view_top on frames
  obtain ⟨⟨n, auto⟩, _⟩ := thread.frame f (by simp [State.view, frames])
  have owner : f.e.owner = t := thread.event_owner (by simp [State.view, frames])
  have admits := (views.control t).admits f rest top.2
  have queue : f.call.isLeaf = false := by
    cases call : f.call <;> simp_all [Call.admits, Call.isLeaf]
  by_cases own : t = r
  · subst own
    obtain ⟨mode, frames', mutex⟩ := finishWait_frame finished
    cases rv with
    | true =>
        refine ignored_moves thread on frames queue pc (fun m call => ?_) exit finished
        cases finished with
        | interrupted x woken _ _ _ =>
            have clear := (views.control t).cleared w _ f rest m top.1 top.2 call (.inr (.inr pc))
            simp [woken] at clear
    | false =>
        have frames₁ : s₁.frames t = f :: rest := by rw [frames', frames]
        refine returned_moves (by rw [mode, on]) frames₁ owner (fun m call => ?_)
          (finished_moves thread on frames queue (.inr pc) (fun _ => stale) finished)
        have locking := (views.mutex t).locking f rest m top.2 call
        simp only [Locking, pc] at locking
        rw [mutex]
        simpa [State.view] using locking.2
  · refine .same ?_
    rw [returnCall_others _ f .ok own (owner.trans_ne own)]
    exact finished_others thread on frames finished own

theorem frameEffect_moves (inv : ListInv s) (views : ViewsInv s) (on : s.mode w = .thread t)
    (frames : s.frames t = f :: rest) {s' : State} (effect : FrameEffect s w t f s') (r : Tid) :
    s.ViewMoves (.advance w) r (s.view r) (s'.view r) := by
  have thread := views.thread t
  obtain ⟨⟨n, auto⟩, _⟩ := thread.frame f (by simp [State.view, frames])
  have owner : f.e.owner = t := thread.event_owner (by simp [State.view, frames])
  have exit : s.finishesOther w f = true → s.isActive t f.e = false →
      s.Special (.advance w) t (.signalOnly (!rest.isEmpty)) := by
    intro other inactive
    simp [Special, signalOnlyExit, outerFrames, on, frames, other, inactive]
  have stale : f.pc = .holds → s.finishesOther w f = true → s.isActive t f.e = true →
      s.staleRequeue (.advance w) = true := by
    intro pc other active
    simp [staleRequeue, on, frames, pc, other, active]
  cases effect with
  | pushed pc =>
      by_cases own : t = r
      · subst own
        refine .plain_to ?_ (.push w _ f rest (view_top on frames) pc)
        simp [State.view, setFrame, tcEventOnTcStack, frames, own_update owner]
      · refine .same ?_
        simp [State.view, setFrame, tcEventOnTcStack, Ne.symm own,
          own_update_other (owner.trans_ne own)]
  | scheduled _ pc scheduled =>
      exact scheduled_moves inv views.thread on frames pc scheduled r
  | yieldIntr pc call woken placed _ =>
      refine leafIntr_moves thread on frames pc (by simp [call, Call.isLeaf]) woken (.inl rfl)
        (fun r => ?_) ?_ r
      · simp [State.view, detachEvent, unlinkEvent, Function.update_eq_self]
      · rfl
  | yieldDone pc call woken =>
      exact leafDone_moves thread on frames pc (by simp [call, Call.isLeaf]) woken .ok (by simp)
        (fun r => by rfl) (by rfl) r
  | fdIntr fd pc call woken placed _ =>
      exact leafIntr_moves thread on frames pc (by simp [call, Call.isLeaf]) woken (.inr rfl)
        (fun r => by rfl) (by rfl) r
  | fdDone fd rv pc call woken notIntr =>
      exact leafDone_moves thread on frames pc (by simp [call, Call.isLeaf]) woken rv notIntr
        (fun r => by rfl) (by rfl) r
  | interrupted s₁ pc queue finished =>
      exact interrupted_moves thread on frames queue pc exit finished r
  | again s₁ pc queue finished =>
      by_cases own : t = r
      · subst own
        exact finished_moves thread on frames queue (.inl pc) stale finished
      · refine .same ?_
        rw [← finished_others thread on frames finished own]
        simp [State.view, setFrame, Ne.symm own]
  | woken s₁ pc queue notMutex finished =>
      by_cases own : t = r
      · subst own
        obtain ⟨mode, frames', _⟩ := finishWait_frame finished
        have frames₁ : s₁.frames t = f :: rest := by rw [frames', frames]
        exact returned_moves (by rw [mode, on]) frames₁ owner
          (fun m call => absurd call (notMutex m))
          (finished_moves thread on frames queue (.inl pc) stale finished)
      · refine .same ?_
        rw [returnCall_others _ f .ok own (owner.trans_ne own)]
        exact finished_others thread on frames finished own
  | prepared wq s₁ pc queue home prepared =>
      obtain ⟨_, rfl⟩ := tcWaitqPrepareToWait_ok prepared
      by_cases own : t = r
      · subst own
        refine .plain_to ?_ (.prepare w _ f rest (view_top on frames) pc queue)
        simp [State.view, setFrame, tcEventOnTcStack, attachEvent, frames, own_update owner, home,
          places_update_woken, on]
      · refine .same ?_
        simp [State.view, setFrame, tcEventOnTcStack, attachEvent, Ne.symm own,
          own_update_other (owner.trans_ne own), places_update_woken, on,
          placeOf_thread_other _ own]
  | held s₁ rv pc finished =>
      exact held_moves views on frames pc (stale pc) exit finished r
  | acquired m pc call free => exact acquired_moves on frames owner pc call free r
  | owned m pc call mine =>
      by_cases own : t = r
      · subst own
        refine .plain_to ?_ (.returnLocked w _ f rest m (view_top on frames)
          (by simp [pc, Pc.unplaced]) call (.inl (by simpa [State.view] using mine)))
        rw [returnCall_locked _ owner call]
        simp [State.view, frames, mine]
      · exact .same (returnCall_others _ f .ok own (owner.trans_ne own))
  | taken m pc call free => exact taken_loop_moves on frames pc call free r
  | turned pc turned => exact turned_moves on frames turned r

end FrameEffect

/-! ## Every step -/

theorem dieEffect_moves {s s' : State} {a : Action} {w : WorkerId} {t : Tid} (inv : ListInv s)
    (on : s.mode w = .thread t) (empty : s.frames t = []) (effect : DieEffect s w t s') (r : Tid) :
    s.ViewMoves a r (s.view r) (s'.view r) := by
  have place : (s.view t).place w = .on (s.wokenByEvent w) := by simp [State.view, on]
  cases effect with
  | settled unlinked =>
      by_cases own : t = r
      · subst own
        refine .plain_to ?_ (.dying w _ .settled place (by simpa [State.view] using empty)
          (by simpa [State.view, unlinked] using .settle))
        simp [State.view]
      · refine .same ?_
        simp [State.view, Ne.symm own]
  | announced settled =>
      have woken : s.ViewMoves a r (s.view r) ((s.tcWaitqWakeupAll (.exit t)).view r) :=
        wakeupAll_moves inv (.exit t) rfl r
      by_cases own : t = r
      · subst own
        refine woken.then_plain_to ?_ (.dying w _ .announced place
          (by simpa [State.view, tcWaitqWakeupAll] using empty)
          (by simpa [State.view, tcWaitqWakeupAll, settled] using .announce))
        simp [State.view]
      · refine woken.ends ?_
        simp [State.view, tcWaitqWakeupAll, Ne.symm own]
  | exits s₁ announced added =>
      obtain ⟨free, rfl⟩ := addEventCr_ok added
      by_cases own : t = r
      · subst own
        refine .plain_to ?_ (.postExit w _ place (by simpa [State.view] using empty)
          (by simpa [State.view] using announced) (by simpa [State.view, State.el] using free))
        simp [State.view, iwiImmediate, attachEvent, own_update (e := .self t) (t := t) rfl,
          places_update_mode]
      · refine .same ?_
        have other : (EventId.self t).owner ≠ r := own
        simp [State.view, iwiImmediate, attachEvent, own_update_other other, Ne.symm own,
          places_update_mode, on, placeOf_thread_other _ own]

theorem entered_moves {s : State} {a : Action} {w : WorkerId} {t : Tid}
    (thread : ThreadInv t (s.view t)) (enter : s.mode w = .enter t) (r : Tid) :
    s.ViewMoves a r (s.view r) ((s.enterThread w t).view r) := by
  have entering : (s.view t).place w = .entering (s.wokenByEvent w) := by simp [State.view, enter]
  by_cases own : t = r
  · subst own
    rcases thread.entering w _ entering with ⟨posted, empty⟩ | ⟨status, f, rest, frames, _⟩
    · refine .plain_to ?_ (.start w _ entering empty posted)
      have posted : s.status t = .posted := posted
      have empty : s.frames t = [] := empty
      simp [State.view, enterThread, posted, empty, places_update]
    · refine .plain_to ?_ (.enter w _ f rest entering frames)
      have grown : s.status t ≠ .posted := by
        intro posted
        simp [State.view, posted, Status.executable] at status
      have frames : s.frames t = f :: rest := frames
      simp [State.view, enterThread, grown, frames, places_update_mode]
  · refine .same ?_
    by_cases posted : s.status t = .posted
    · simp [State.view, enterThread, posted, Ne.symm own, places_update, enter,
        placeOf_thread_other _ own, placeOf_enter_other _ own]
    · simp [State.view, enterThread, posted, Ne.symm own, places_update_mode, enter,
        placeOf_thread_other _ own, placeOf_enter_other _ own]

end Libtcr
