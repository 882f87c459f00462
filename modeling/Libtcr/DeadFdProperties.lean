import Libtcr.FdInvariant
import Libtcr.FaultProperties
import Libtcr.ArrivalProperties

/-! A `tc_fd` whose `err_hup` is set has no waiters, except while a worker that holds
the lock of its event list hands the last of them to `run_or_queue`. -/

set_option autoImplicit false

namespace Libtcr

open State

section Selection

variable {α : Type}

/-- The loop of `wakeup_all_events` keeps the first waiter of this worker in `ew`. -/
theorem wakeupLoop_here {here : α → Bool} {es : List α} (ew ex : Option α) (moved : List α)
    (kept : ∀ x, ew = some x → here x = true) :
    (∀ x, (wakeupLoop here ew ex moved es).1 = some x → here x = true) ∧
      ((ew ≠ none ∨ ∃ x ∈ es, here x = true) → (wakeupLoop here ew ex moved es).1 ≠ none) := by
  induction es generalizing ew ex moved with
  | nil =>
      refine ⟨kept, ?_⟩
      rintro (found | ⟨x, member, _⟩)
      · exact found
      · cases member
  | cons e es ih =>
      unfold wakeupLoop
      split
      · next first =>
        obtain ⟨owned, found⟩ := ih (some e) ex moved
          fun x equal => Option.some.inj equal ▸ first.2
        exact ⟨owned, fun _ => found (.inl (by simp))⟩
      · next passed =>
        have later : (ew ≠ none ∨ ∃ x ∈ e :: es, here x = true) →
            ew ≠ none ∨ ∃ x ∈ es, here x = true := by
          rintro (found | ⟨x, member, mine⟩)
          · exact .inl found
          · rcases List.mem_cons.mp member with rfl | member
            · exact .inl fun none => passed ⟨none, mine⟩
            · exact .inr ⟨x, member, mine⟩
        split
        · obtain ⟨owned, found⟩ := ih ew (some e) moved kept
          exact ⟨owned, fun some => found (later some)⟩
        · obtain ⟨owned, found⟩ := ih ew ex (moved ++ [e]) kept
          exact ⟨owned, fun some => found (later some)⟩

private theorem wakeupAllEvents_here (here : α → Bool) (es : List α)
    (some : ∃ e ∈ es, here e = true) :
    ∃ e, (wakeupAllEvents here es).2 = .some e ∧ here e = true := by
  obtain ⟨owned, found⟩ := wakeupLoop_here none none [] (show ∀ x, none = .some x → here x = true by simp)
  obtain ⟨e, first⟩ := Option.ne_none_iff_exists'.mp (found (.inr some))
  refine ⟨e, ?_, owned e first⟩
  unfold wakeupAllEvents
  split <;> simp_all

private theorem wakeupAllEvents_none {here : α → Bool} {es : List α}
    (none : (wakeupAllEvents here es).2 = .none) : es = [] := by
  have loop : ∀ {es ew ex moved}, (wakeupLoop here ew ex moved es).1 = .none →
      (wakeupLoop here ew ex moved es).2.1 = .none → ew = .none ∧ ex = .none ∧ es = [] := by
    intro es
    induction es with
    | nil => exact fun first second => ⟨first, second, rfl⟩
    | cons e es ih =>
        intro ew ex moved first second
        unfold wakeupLoop at first second
        split at first
        · next mine =>
          rw [if_pos mine] at second
          exact absurd (ih first second).1 (by simp)
        · next other =>
          rw [if_neg other] at second
          split at first
          · next empty =>
            rw [if_pos empty] at second
            exact absurd (ih first second).2.1 (by simp)
          · next full =>
            rw [if_neg full] at second
            exact absurd (ih first second).2.1 full
  unfold wakeupAllEvents at none
  split at none
  · cases none
  · cases none
  · next ex moved equal =>
    exact (loop (by rw [equal]) (by rw [equal]; exact none)).2.2

end Selection

/-! ## What the steps do to the waiters of one `tc_fd` -/

section Steps

variable {s s' : State} {a : Action} {f : FdId} {w : WorkerId}

def Action.SparesFd (s : State) (f : FdId) : Action → Prop
  | .report _ g _ => g ≠ f
  | .runReported w => ∀ e, s.mode w ≠ .report f e
  | _ => True

theorem addEventFd_dead (dead : s.errHup f = true) (t : Tid) (e : EventId) (mask : Mask)
    (flags : EventFlag) (ctl : Bool) :
    s.addEventFd t e f mask flags ctl = .ok (false, s) := by
  simp [addEventFd, dead]

private theorem act_waitFd_dead {n : Nat} {mask : Mask} {priority ctl : Bool}
    (done : s.act (.user w (.waitFd n f mask priority ctl)) = some (.ok s'))
    (dead : s.errHup f = true) : s'.lists = s.lists := by
  simp only [act] at done
  split at done
  · next t _ =>
    split at done
    · simp only [userStep] at done
      split at done
      · rw [addEventFd_dead (s := s.tcEventInit _ _) dead] at done
        cases done
        rfl
      · cases done
    · cases done
  · cases done

theorem act_unregisterFd (done : s.act (.user w (.unregisterFd f)) = some (.ok s')) :
    s.fdLock f = false ∧ s.events (.fd f) = [] ∧ s'.lists = s.lists := by
  simp only [act] at done
  split at done
  · split at done
    · simp only [userStep, tcFdUnregister] at done
      split at done
      · cases done
      · next unlocked =>
        split at done
        · cases done
        · next empty =>
          cases done
          exact ⟨by simpa using unlocked, by simpa using empty, rfl⟩
    · cases done
  · cases done

private theorem tcWaitqWakeupOne_errHup (s : State) (wq : Waitq) :
    (s.tcWaitqWakeupOne wq).1.errHup = s.errHup := by
  obtain ⟨_, _, _, frame⟩ := tcWaitqWakeupOne_frame s wq
  rw [frame]

private theorem runOrQueue_errHup {e : EventId} {chosen : Option Tid}
    (ran : RunOrQueue s w e chosen s') : s'.errHup = s.errHup := by
  obtain ⟨_, _, _, _, _, _, _, rfl⟩ := ran.frame
  rfl

private theorem finishWait_errHup {t : Tid} {e : EventId} {rv : Bool}
    (finished : FinishWait s w t e rv s') : s'.errHup = s.errHup := by
  obtain ⟨_, _, _, _, _, _, _, rfl⟩ := finished.frame
  rfl

private theorem handleReport_errHup (s : State) (w : WorkerId) (g : FdId) (em : Mask) (f : FdId) :
    (s.handleReport w g em).errHup f = s.errHup f ∨
      (s.handleReport w g em).errHup f = true ∧ g = f := by
  unfold handleReport
  dsimp only
  split
  · by_cases same : f = g
    · exact .inr ⟨by simp [keepReport, same], same.symm⟩
    · exact .inl (by simp [keepReport, same])
  · exact .inl rfl

theorem State.UserEffect.errHup {t : Tid} {op : UserOp} (effect : UserEffect s w t op s')
    (f : FdId) : s'.errHup f = s.errHup f ∨ s'.errHup f = true ∧ op = .unregisterFd f := by
  cases effect with
  | wakeupOne q => exact .inl (congrFun (tcWaitqWakeupOne_errHup s (.user q)) f)
  | subscribe g n _ _ subscribed =>
      obtain ⟨_, rfl⟩ := tcSignalSubscribe_ok subscribed
      exact .inl rfl
  | unlock m _ => exact .inl (congrFun (tcWaitqWakeupOne_errHup s (.mutex m)) f)
  | threadPost u s₁ _ added =>
      obtain ⟨_, rfl⟩ := addEventCr_ok added
      exact .inl rfl
  | unregisterFd g =>
      by_cases same : f = g
      · exact .inr ⟨by simp [same], same ▸ rfl⟩
      · exact .inl (by simp [same])
  | yield n s₁ _ added =>
      obtain ⟨_, rfl⟩ := addEventCr_ok added
      exact .inl rfl
  | waitFdFailed n g mask priority ctl s₁ _ refused => cases refused <;> exact .inl rfl
  | waitFd n g mask priority ctl s₁ _ added =>
      cases added
      exact .inl rfl
  | waitqWait n q s₁ _ prepared =>
      obtain ⟨_, rfl⟩ := tcWaitqPrepareToWait_ok prepared
      exact .inl rfl
  | threadWait n u d id s₁ _ prepared =>
      obtain ⟨_, rfl⟩ := tcWaitqPrepareToWait_ok prepared
      exact .inl rfl
  | _ => exact .inl rfl

theorem State.FrameEffect.errHup {t : Tid} {g : Frame} (effect : FrameEffect s w t g s')
    (f : FdId) : s'.errHup f = s.errHup f := by
  cases effect with
  | scheduled _ _ scheduled => cases scheduled <;> rfl
  | interrupted s₁ _ _ finished => exact congrFun (finishWait_errHup finished) f
  | again s₁ _ _ finished => exact congrFun (finishWait_errHup finished) f
  | woken s₁ _ _ _ finished => exact congrFun (finishWait_errHup finished) f
  | prepared wq s₁ _ _ _ prepared =>
      obtain ⟨_, rfl⟩ := tcWaitqPrepareToWait_ok prepared
      rfl
  | held s₁ rv _ finished => exact congrFun (finishWait_errHup finished) f
  | _ => rfl

/-- `err_hup` is only ever set: by a report, and when the `tc_fd` is unregistered. -/
theorem State.Effect.errHup (effect : s.Effect a s') (f : FdId) :
    s'.errHup f = s.errHup f ∨ s'.errHup f = true ∧
      ((∃ w em, a = .report w f em) ∨ ∃ w, a = .user w (.unregisterFd f)) := by
  cases effect with
  | queued w scan x s₁ _ _ ran => exact .inl (congrFun (runOrQueue_errHup ran) f)
  | reaped w scan x u s₁ _ _ _ ran => exact .inl (congrFun (runOrQueue_errHup ran) f)
  | chosen w scan x u s₁ immediateFd _ _ _ ran => exact .inl (congrFun (runOrQueue_errHup ran) f)
  | reported w g em _ _ =>
      rcases handleReport_errHup s w g em f with same | ⟨set, rfl⟩
      · exact .inl same
      · exact .inr ⟨set, .inl ⟨w, em, rfl⟩⟩
  | reportQueued w g x s₁ _ _ ran => exact .inl (congrFun (runOrQueue_errHup ran) f)
  | reportChosen w g x u s₁ _ _ ran => exact .inl (congrFun (runOrQueue_errHup ran) f)
  | user w u op _ _ _ effect =>
      rcases effect.errHup f with same | ⟨set, rfl⟩
      · exact .inl same
      · exact .inr ⟨set, .inr ⟨w, rfl⟩⟩
  | advanced w u g rest _ _ _ effect => exact .inl (effect.errHup f)
  | died w u _ _ _ effect =>
      cases effect with
      | settled _ => exact .inl rfl
      | announced _ => exact .inl rfl
      | exits s₁ _ added =>
          obtain ⟨_, rfl⟩ := addEventCr_ok added
          exact .inl rfl
  | _ => exact .inl rfl

private theorem State.Effect.lockedFd (effect : s.Effect a s') (inv : SystemInv s)
    (spares : a.SparesFd s f) : s'.fdLock f = s.fdLock f ∧
      ∀ e, s.el e = some (.fd f) → s.fdLock f = true → s'.el e = some (.fd f) := by
  have frame : FdFrame s s' → s'.fdLock f = s.fdLock f ∧
      ∀ e, s.el e = some (.fd f) → s.fdLock f = true → s'.el e = some (.fd f) :=
    fun frame => ⟨congrFun frame.lock f, fun e on locked => frame.keeps e f on locked⟩
  have immediate : ∀ {w : WorkerId} {e : EventId} {chosen : Option Tid} {s₁ : State},
      e ∈ s.events .immediate → RunOrQueue (s.served w none) w e chosen s₁ → FdFrame s s₁ := by
    intro w e chosen s₁ found ran
    obtain ⟨lock, masks, k, el, elsewhere⟩ := runOrQueue_fd ran
    have on := inv.lists.mem_events.mp found
    exact .update lock el (fun x _ => congrFun masks x) (by simp [on]) elsewhere
  have reported : ∀ {w : WorkerId} {g : FdId} {x : EventId} {chosen : Option Tid} {s₁ : State},
      g ≠ f → s.mode w = .report g x → s.life x = .live →
      RunOrQueue (s.served w (some g)) w x chosen s₁ →
      Function.update s₁.fdLock g false f = s.fdLock f ∧
        ∀ e, s.el e = some (.fd f) → s₁.el e = some (.fd f) := by
    intro w g x chosen s₁ other report live ran
    obtain ⟨lock, _, k, el, _⟩ := runOrQueue_fd ran
    refine ⟨by rw [Function.update_of_ne (Ne.symm other), lock]; rfl, fun e on => ?_⟩
    have different : e ≠ x := by
      -- the event of the report was made for a call that waits for another `tc_fd`
      rintro rfl
      obtain ⟨t, n, rfl, made⟩ := inv.report w g _ report
      have here : (s.view t).el (.auto t n) = some (.fd f) := by
        simpa [State.view, State.el, EventId.owner] using on
      have live : (s.view t).life (.auto t n) = .live := by
        simpa [State.view, EventId.owner] using live
      obtain ⟨p, member, event, call⟩ := made.frame live
      obtain ⟨q, member', event', call'⟩ := ((inv.thread t).madeFor_of_fd here).2.frame live
      obtain rfl := (inv.thread t).frame_unique member member' (event.trans event'.symm)
      exact other (Call.fd.inj (call.symm.trans call'))
    rw [State.el, el, Function.update_of_ne different]
    exact on
  cases effect with
  | searched w scan _ => exact frame (.same rfl rfl rfl)
  | queued w scan x s₁ _ found ran => exact frame (immediate found ran)
  | reaped w scan x u s₁ _ found _ ran =>
      have kept := immediate found ran
      exact frame ⟨kept.lock, kept.keeps, kept.masks⟩
  | chosen w scan x u s₁ immediateFd _ found _ ran =>
      have kept := immediate found ran
      exact frame ⟨kept.lock, kept.keeps, kept.masks⟩
  | reported w g em _ _ =>
      obtain ⟨moved, choice, handled⟩ :=
        handleReport_spec (fun f => inv.lists.lists.nodup (.fd f)) w g em
      obtain ⟨errHup, fdEpEvents, equal⟩ := handled.effect
      have other : f ≠ g := Ne.symm spares
      refine ⟨?_, fun e on _ => ?_⟩
      · rw [equal]
        cases choice <;> simp [keepReport, moveToImmediate, other]
      · have el : (s.handleReport w g em).el e = if e ∈ moved then some .immediate else s.el e := by
          rw [equal]
          exact (IntrusiveLists.movesTo_back EventList.immediate).foldl_el s.lists moved e
        have absent : e ∉ moved := by
          intro member
          have there := inv.lists.mem_events.mp (handled.movedFrom e member)
          simp [on, other] at there
        rw [el, if_neg absent, on]
  | reportQueued w g x s₁ report live ran =>
      have other : g ≠ f := fun same => spares x (same ▸ report)
      obtain ⟨lock, keeps⟩ := reported other report live ran
      exact ⟨lock, fun e on _ => keeps e on⟩
  | reportChosen w g x u s₁ report live ran =>
      have other : g ≠ f := fun same => spares x (same ▸ report)
      obtain ⟨lock, keeps⟩ := reported other report live ran
      exact ⟨lock, fun e on _ => keeps e on⟩
  | entered w u _ => exact frame (.same rfl rfl rfl)
  | left w u _ => exact frame (.same rfl rfl rfl)
  | freed w u _ => exact frame (.same rfl rfl rfl)
  | aio w q _ => exact frame (.wakeupAll inv.lists (.user q) rfl rfl rfl)
  | user w u op _ _ _ effect =>
      cases op with
      | waitFd n g mask priority ctl =>
          cases effect with
          | waitFdFailed _ _ _ _ _ s₁ _ refused =>
              cases refused with
              | errHup => exact frame (.same rfl rfl rfl)
              | failed _ free =>
                  refine frame (.fresh (x := .auto u n) (k := none) rfl ?_ (fun e other => ?_)
                    free (by simp))
                  · simp [endEvent, detachEvent, unlinkEvent, attachEvent, tcEventInit]
                  · simp [endEvent, detachEvent, unlinkEvent, attachEvent, tcEventInit, other]
          | waitFd _ _ _ _ _ s₁ _ added =>
              cases added with
              | armed _ free =>
                  refine ⟨rfl, fun e on _ => ?_⟩
                  have other : e ≠ .auto u n := by
                    rintro rfl
                    exact absurd (on.symm.trans free) (by simp)
                  simpa [State.el, pushFrame, attachEvent, tcEventInit, other] using on
      | _ => exact frame (effect.fdFrame inv rfl)
  | returned w value u g rest q _ _ _ _ => exact frame (.same rfl rfl rfl)
  | evaluated w value u g rest pc _ _ _ _ => exact frame (.same rfl rfl rfl)
  | advanced w u g rest _ on frames effect => exact frame (effect.fdFrame inv on frames)
  | died w u _ _ _ effect => exact frame (effect.fdFrame inv)

end Steps

/-! ## The report of an error -/

/-- Every waiter for `f` is woken once: the events `moved` go to `common.immediate`, and
`choice` is what worker `w` goes on to hand to `run_or_queue`. -/
structure WakesAllWaiters (s : State) (w : WorkerId) (f : FdId) (s' : State)
    (moved : List EventId) (choice : Option EventId) : Prop where
  all : (moved ++ choice.toList).Perm (s.events (.fd f))
  nodup : (moved ++ choice.toList).Nodup
  immediate : s'.events .immediate = s.events .immediate ++ moved
  left : s'.events (.fd f) = choice.toList
  some : s.events (.fd f) ≠ [] → choice ≠ none
  preferred : (∃ e ∈ s.events (.fd f), s.here w e = true) → ∃ e, choice = .some e ∧ s.here w e = true
  errHup : s'.errHup f = true
  handed : ∀ e, choice = .some e → s'.mode w = .report f e ∧ s'.fdLock f = true
  done : choice = none → s'.mode w = .sched ∧ s'.fdLock f = false

private theorem handleReport_wakesAll {s : State} {w : WorkerId} {f : FdId} {em : Mask}
    (lists : s.lists.WellFormed) (sched : s.mode w = .sched) (unlocked : s.fdLock f = false)
    (sees : s.errHup f = true ∨ em &&& (EPOLLERR ||| EPOLLHUP) ≠ 0) :
    ∃ moved choice, WakesAllWaiters s w f (s.handleReport w f em) moved choice := by
  have all := wakeupAllEvents_perm (s.here w) (s.events (.fd f))
  have some : s.events (.fd f) ≠ [] → (wakeupAllEvents (s.here w) (s.events (.fd f))).2 ≠ none :=
    fun waiting none => waiting (wakeupAllEvents_none none)
  have preferred := wakeupAllEvents_here (s.here w) (s.events (.fd f))
  unfold handleReport
  dsimp only
  rw [if_pos sees]
  generalize wakeupAllEvents (s.here w) (s.events (.fd f)) = result at *
  obtain ⟨moved, choice⟩ := result
  dsimp only at *
  have nodup := all.nodup_iff.mpr (lists.nodup (.fd f))
  have from_ : ∀ x ∈ moved, s.lists.el x = .some (.fd f) := fun x member =>
    (lists.mem_iff _ _).mp (all.mem_iff.mp (List.mem_append_left _ member))
  have moves := @IntrusiveLists.movesTo_back EventId _ _ _ EventList.immediate
  refine ⟨moved, choice, all, nodup, ?_, ?_, some, preferred, ?_, ?_, ?_⟩
  · exact IntrusiveLists.foldl_pushBack_elems nodup.of_append_left
      fun x member => by simp [from_ x member]
  · have valid := moves.foldl_wellFormed lists moved
    have rest : ((moved.foldl (fun lists e => (lists.remove e).pushBack e .immediate)
        s.lists).elems (.fd f)).Perm choice.toList := by
      refine (List.perm_ext_iff_of_nodup (valid.nodup _) nodup.of_append_right).mpr fun x => ?_
      rw [valid.mem_iff, moves.foldl_el]
      have spread : s.lists.el x = .some (.fd f) ↔ x ∈ moved ∨ x ∈ choice.toList := by
        rw [← lists.mem_iff, ← List.mem_append]
        exact all.mem_iff.symm
      have apart := List.disjoint_of_nodup_append nodup
      by_cases member : x ∈ moved
      · simp only [member, if_true]
        exact ⟨fun equal => (by cases equal), fun chosen => absurd chosen (apart member)⟩
      · simp [member, spread]
    cases choice with
    | none => exact rest.eq_nil
    | some e => exact rest.eq_singleton
  · simp [keepReport]
  · rintro e rfl
    simp [keepReport]
  · rintro rfl
    simp [keepReport, moveToImmediate, sched, unlocked]

/-! ## The invariant -/

structure DeadFdInv (s : State) (f : FdId) : Prop where
  lock : ∀ w e, s.mode w = .report f e → s.fdLock f = true
  unique : ∀ w w' e e', s.mode w = .report f e → s.mode w' = .report f e' → w = w'
  idle : s.errHup f = true → s.fdLock f = false → ∀ e, s.el e ≠ some (.fd f)
  /-- The waiter that is about to be run is the last one. -/
  last : ∀ w e, s.mode w = .report f e → s.errHup f = true →
    ∀ x, s.el x = some (.fd f) ↔ x = e

section Kept

variable {s s' : State} {a : Action} {f : FdId} {w : WorkerId}

private theorem DeadFdInv.spared (dead : DeadFdInv s f) (inv : SystemInv s)
    (done : s.act a = some (.ok s')) (spares : a.SparesFd s f) : DeadFdInv s' f := by
  have effect := act_ok done
  obtain ⟨lock, keeps⟩ := effect.lockedFd inv spares
  have modes : ∀ {w e}, s'.mode w = .report f e → s.mode w = .report f e := by
    intro w e report
    rcases effect.mode_report inv.lists report with before | ⟨⟨em, rfl⟩, _⟩
    · exact before
    · exact absurd rfl spares
  have old : s.errHup f = true → ∀ {e}, s'.el e = some (.fd f) → s.el e = some (.fd f) := by
    intro set e on
    rcases effect.arrives inv.lists on rfl with before | arrives
    · exact before
    · cases arrives with
      | waitFd w t n g mask priority ctl _ _ list =>
          obtain rfl := EventList.fd.inj list
          exact came_same on (act_waitFd_dead done set)
      | waitqWait _ _ _ _ _ _ list => cases list
      | threadWait _ _ _ _ _ _ _ _ list => cases list
      | prepared w t g rest _ _ _ queue _ list =>
          cases call : g.call <;> simp_all [Call.home, Call.isLeaf]
  refine ⟨fun w e report => ?_, fun w w' e e' first second => ?_, fun set unlocked e on => ?_,
    fun w e report set x => ?_⟩
  · rw [lock]
    exact dead.lock w e (modes report)
  · exact dead.unique w w' e e' (modes first) (modes second)
  · rw [lock] at unlocked
    rcases effect.errHup f with same | ⟨_, ⟨w, em, rfl⟩ | ⟨w, rfl⟩⟩
    · rw [same] at set
      exact dead.idle set unlocked e (old set on)
    · exact spares rfl
    · obtain ⟨_, empty, lists⟩ := act_unregisterFd done
      have member := inv.lists.mem_events.mpr (came_same on lists)
      simp [empty] at member
  · have before := modes report
    have locked := dead.lock w e before
    rcases effect.errHup f with same | ⟨_, ⟨w', em, rfl⟩ | ⟨w', rfl⟩⟩
    · rw [same] at set
      rw [← dead.last w e before set x]
      exact ⟨old set, fun on => keeps x on locked⟩
    · exact absurd rfl spares
    · simp [(act_unregisterFd done).1] at locked

theorem DeadFdInv.reported {em : Mask} (dead : DeadFdInv s f) (inv : SystemInv s)
    (sched : s.mode w = .sched) (unlocked : s.fdLock f = false) :
    DeadFdInv (s.handleReport w f em) f := by
  obtain ⟨moved, choice, handled⟩ :=
    handleReport_spec (fun f => inv.lists.lists.nodup (.fd f)) w f em
  obtain ⟨errHup, fdEpEvents, equal⟩ := handled.effect
  have nobody : ∀ {w' x}, s.mode w' ≠ .report f x := by
    intro w' x report
    simp [dead.lock w' x report] at unlocked
  have modes : ∀ {w' x}, (s.handleReport w f em).mode w' = .report f x →
      w' = w ∧ choice = some x := by
    intro w' x reports
    rw [equal] at reports
    cases found : choice with
    | none => exact absurd (by simpa [keepReport, moveToImmediate, found] using reports) nobody
    | some y =>
        by_cases same : w' = w
        · subst same
          exact ⟨rfl, by simpa [keepReport, moveToImmediate, found] using reports⟩
        · exact absurd (by simpa [keepReport, moveToImmediate, found, same] using reports) nobody
  have locked : (s.handleReport w f em).fdLock f = choice.isSome := by
    rw [equal]
    cases choice <;> simp [keepReport, moveToImmediate, unlocked]
  have lists : ListInv (s.handleReport w f em) :=
    (State.Effect.reported w f em sched unlocked).listInv inv.lists inv.thread
  have listed : (s.handleReport w f em).errHup f = true →
      (s.handleReport w f em).events (.fd f) = choice.toList := by
    intro set
    by_cases sees : s.errHup f = true ∨ em &&& (EPOLLERR ||| EPOLLHUP) ≠ 0
    · obtain ⟨moved', choice', woken⟩ := handleReport_wakesAll inv.lists.lists sched unlocked sees
      rw [woken.left]
      cases found : choice' with
      | none =>
          have free := (woken.done found).2
          rw [locked] at free
          cases choice with
          | none => rfl
          | some e => cases free
      | some e => rw [(modes (woken.handed e found).1).2]
    · have same : (s.handleReport w f em).errHup f = s.errHup f := by
        unfold handleReport
        dsimp only
        rw [if_neg sees]
        rfl
      exact absurd (.inl (same.symm.trans set)) sees
  refine ⟨fun w' e report => ?_, fun w' w'' e e' first second => ?_, fun set free e on => ?_,
    fun w' e report set x => ?_⟩
  · rw [locked, (modes report).2]
    rfl
  · exact (modes first).1.trans (modes second).1.symm
  · have member := lists.mem_events.mpr on
    rw [listed set] at member
    rw [locked] at free
    cases choice with
    | none => cases member
    | some e => cases free
  · rw [← lists.mem_events, listed set, (modes report).2]
    simp

theorem DeadFdInv.ran {e : EventId} {chosen : Option Tid} {s₁ : State} {mode : Mode}
    (dead : DeadFdInv s f) (report : s.mode w = .report f e)
    (ran : RunOrQueue (s.served w (some f)) w e chosen s₁) (other : ∀ f e, mode ≠ .report f e) :
    DeadFdInv { s₁ with
      fdLock := Function.update s₁.fdLock f false
      mode := Function.update s₁.mode w mode } f := by
  obtain ⟨_, _, k, el, elsewhere⟩ := runOrQueue_fd ran
  have nobody : ∀ {w' x}, Function.update s₁.mode w mode w' ≠ .report f x := by
    intro w' x reports
    rw [runOrQueue_mode ran] at reports
    have before : s.mode w' = .report f x := update_report reports other
    obtain rfl := dead.unique w' w x e before report
    rw [Function.update_self] at reports
    exact other f x reports
  refine ⟨fun w' x reports => absurd reports nobody, fun w' _ x _ reports => absurd reports nobody,
    fun set _ x on => ?_, fun w' x reports => absurd reports nobody⟩
  have before := dead.last w e report (by rwa [runOrQueue_errHup ran] at set)
  by_cases same : x = e
  · subst same
    exact elsewhere f (by simpa [State.el, el] using on)
  · exact same ((before x).mp (by simpa [State.el, el, same, served] using on))

theorem DeadFdInv.step (dead : DeadFdInv s f) (inv : SystemInv s) (stepped : s.step a = some s') :
    DeadFdInv s' f := by
  rcases step_act stepped with done | ⟨fault, _, rfl⟩
  · by_cases spares : a.SparesFd s f
    · exact dead.spared inv done spares
    · cases act_ok done with
      | reported w g em sched unlocked =>
          obtain rfl : g = f := by simpa [Action.SparesFd] using spares
          exact dead.reported inv sched unlocked
      | reportQueued w g x s₁ report _ ran =>
          obtain rfl : g = f := by simpa [Action.SparesFd, report] using spares
          exact dead.ran report ran (by simp)
      | reportChosen w g x u s₁ report _ ran =>
          obtain rfl : g = f := by simpa [Action.SparesFd, report] using spares
          exact dead.ran report ran (by simp)
      | _ => exact absurd trivial spares
  · exact ⟨dead.lock, dead.unique, dead.idle, dead.last⟩

/-- The event of the report of an error is handed to `run_or_queue`, which takes it off. -/
theorem DeadFdInv.hands {e : EventId} (dead : DeadFdInv s f) (inv : SystemInv s)
    (running : s.fault = none) (report : s.mode w = .report f e) (set : s.errHup f = true) :
    s.events (.fd f) = [e] ∧ ∃ chosen s₁ s', (s.served w (some f)).runOrQueue w e = .ok (chosen, s₁) ∧
      s.step (.runReported w) = some s' ∧ s'.lists = s₁.lists ∧ s'.events (.fd f) = [] ∧
      s'.fdLock f = false := by
  have last := dead.last w e report set
  have on : s.el e = some (.fd f) := (last e).mpr rfl
  have alone : s.events (.fd f) = [e] := by
    refine List.Perm.eq_singleton ((List.perm_ext_iff_of_nodup (inv.lists.lists.nodup _)
      (List.nodup_singleton e)).mpr fun x => ?_)
    rw [List.mem_singleton]
    exact inv.lists.mem_events.trans (last x)
  have live : s.life e = .live := inv.live_of_placed (by simp [on])
  obtain ⟨chosen, s₁, ran⟩ : ∃ chosen s₁,
      (s.served w (some f)).runOrQueue w e = .ok (chosen, s₁) := by
    cases ran : (s.served w (some f)).runOrQueue w e with
    | ok result => exact ⟨result.1, result.2, rfl⟩
    | error fault =>
        exfalso
        rcases runOrQueue_error ran (.fd f) on with equal | equal | ⟨exiting, _⟩
        · cases equal
        · cases equal
        · obtain ⟨t, n, rfl, _⟩ := inv.report w f e report
          have stays := ((inv.thread t).flagsAuto n).2
          exact stays (by simpa [State.view, EventId.owner, served] using exiting)
  obtain ⟨s', acted, lists, unlocked⟩ : ∃ s', s.act (.runReported w) = some (.ok s') ∧
      s'.lists = s₁.lists ∧ s'.fdLock f = false := by
    have ran' : ({ s with
        wokenByTcfd := Function.update s.wokenByTcfd w (some f) } : State).runOrQueue w e =
        .ok (chosen, s₁) := ran
    simp only [act, report, runReported, live, ran', ne_eq, not_true_eq_false, if_false]
    exact ⟨_, rfl, rfl, by simp⟩
  have stepped := step_of_act running acted
  refine ⟨alone, chosen, s₁, s', ran, stepped, lists, ?_, unlocked⟩
  refine List.eq_nil_iff_forall_not_mem.mpr fun x member => ?_
  have after := dead.step inv stepped
  have hup : s'.errHup f = true := by
    obtain ⟨_, effect | ⟨fault, _, rfl⟩⟩ := step_cases stepped
    · rcases effect.errHup f with same | ⟨set', _⟩
      · exact same.trans set
      · exact set'
    · exact set
  exact after.idle hup unlocked x ((inv.step stepped).lists.mem_events.mp member)

end Kept

/-- The initial state of workers that failed to register the `tc_fd`s of `failed`: the
initialiser has set their `err_hup`. -/
def State.registered (workers : Nat) (domainOf : WorkerId → DomainId) (failed : FdId → Bool) :
    State :=
  { State.initial workers domainOf with errHup := failed }

theorem SystemInv.registered (workers : Nat) (domainOf : WorkerId → DomainId)
    (failed : FdId → Bool) : SystemInv (.registered workers domainOf failed) := by
  have inv := SystemInv.initial workers domainOf
  exact ⟨⟨inv.thread, inv.mutex, inv.control, inv.results⟩, { inv.lists with }, inv.report⟩

theorem DeadFdInv.registered (workers : Nat) (domainOf : WorkerId → DomainId)
    (failed : FdId → Bool) (f : FdId) : DeadFdInv (.registered workers domainOf failed) f := by
  have fd := FdInv.initial workers domainOf
  refine ⟨fun w e report => (fd.locked w f e report).1, fun w w' e e' => fd.unique w w' f e e',
    fun _ _ e on => ?_, fun w e report => absurd (fd.locked w f e report).1 (by simp [initial])⟩
  simp [State.registered, State.initial, State.el, IntrusiveLists.empty] at on

private theorem errHup_later {s s' : State} {f : FdId} {ok : State → Action → Prop}
    (run : Transition.Run State.step ok s s') (set : s.errHup f = true) : s'.errHup f = true := by
  refine run.invariant (fun s => s.errHup f = true) set fun set _ stepped => ?_
  obtain ⟨_, effect | ⟨fault, _, rfl⟩⟩ := step_cases stepped
  · rcases effect.errHup f with same | ⟨set', _⟩
    · exact same.trans set
    · exact set'
  · exact set

/-- A dead `tc_fd` has no waiters while the lock of its list is free. The report of an
error wakes every waiter once, the one that is kept for `run_or_queue` is the only one left
until then, and later calls queue nobody. -/
theorem dead_fd_has_no_waiters (workers : Nat) (domainOf : WorkerId → DomainId)
    (failed : FdId → Bool) {s : State}
    (reached : Transition.Run State.step Transition.always (.registered workers domainOf failed) s)
    (f : FdId) :
    (s.errHup f = true → s.fdLock f = false → s.events (.fd f) = []) ∧
    (∀ w em, s.fault = none → s.mode w = .sched → s.fdLock f = false →
      s.errHup f = true ∨ em &&& (EPOLLERR ||| EPOLLHUP) ≠ 0 →
      ∃ s' moved choice, s.step (.report w f em) = some s' ∧ WakesAllWaiters s w f s' moved choice) ∧
    (∀ w e, s.fault = none → s.mode w = .report f e → s.errHup f = true →
      s.events (.fd f) = [e] ∧ ∃ chosen s₁ s',
        (s.served w (some f)).runOrQueue w e = .ok (chosen, s₁) ∧
        s.step (.runReported w) = some s' ∧ s'.lists = s₁.lists ∧ s'.events (.fd f) = [] ∧
        s'.fdLock f = false) ∧
    (s.errHup f = true → ∀ s', Transition.Run State.step Transition.always s s' →
      s'.errHup f = true ∧ ∀ t e mask flags ctl,
        s'.addEventFd t e f mask flags ctl = .ok (false, s')) := by
  have start := SystemInv.registered workers domainOf failed
  have inv := start.later reached
  have dead : DeadFdInv s f :=
    reached.invariant_of_reached (fun s => DeadFdInv s f) (.registered workers domainOf failed f)
      fun before dead _ stepped => dead.step (start.later before) stepped
  refine ⟨fun set unlocked => ?_, fun w em running sched unlocked sees => ?_,
    fun w e running report set => dead.hands inv running report set, fun set s' run => ?_⟩
  · exact List.eq_nil_iff_forall_not_mem.mpr fun e member =>
      dead.idle set unlocked e (inv.lists.mem_events.mp member)
  · obtain ⟨moved, choice, woken⟩ := handleReport_wakesAll inv.lists.lists sched unlocked sees
    exact ⟨s.handleReport w f em, moved, choice,
      step_of_act running (by simp [act, sched, unlocked]), woken⟩
  · have later := errHup_later run set
    exact ⟨later, fun t e mask flags ctl => addEventFd_dead later t e mask flags ctl⟩

/-- Two threads wait for the same `tc_fd` when the first worker sees `EPOLLHUP`. -/
def hangUp : List Action :=
  [.user 0 (.waitFd 0 7 EPOLLIN false true), .advance 0, .advance 0, .leave 0,
    .user 1 (.waitFd 0 7 EPOLLOUT false true), .advance 1, .advance 1, .leave 1,
    .report 0 7 EPOLLHUP, .runReported 0]

set_option maxRecDepth 10000 in
theorem dead_fd_has_no_waiters_hang_up : ∃ s,
    Transition.Run State.step Transition.always (.registered 2 (fun _ => 0) (fun _ => false)) s ∧
      s.errHup 7 = true ∧ s.fdLock 7 = false ∧ s.mode 0 = .enter 0 ∧
      s.events .immediate = [.auto 1 0] ∧ s.events (.fd 7) = [] := by
  obtain ⟨s, run, shown⟩ := Transition.exists_run State.step
    (.registered 2 (fun _ => 0) (fun _ => false)) hangUp
    (fun s => s.errHup 7 && !s.fdLock 7 && decide (s.mode 0 = .enter 0) &&
      decide (s.events .immediate = [.auto 1 0])) (by decide)
  simp only [Bool.and_eq_true, Bool.not_eq_true', decide_eq_true_eq] at shown
  obtain ⟨⟨⟨set, unlocked⟩, mode⟩, queued⟩ := shown
  exact ⟨s, run, set, unlocked, mode, queued,
    (dead_fd_has_no_waiters 2 (fun _ => 0) (fun _ => false) run 7).1 set unlocked⟩

end Libtcr
