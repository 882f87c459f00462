import Libtcr.Alerts
import Libtcr.CallSteps
import Libtcr.CoroutineInvariant

/-! What a step does to the workers and domains, and which steps put an event on
`common.immediate`: whom they notify. -/

set_option autoImplicit false

namespace Libtcr

open State

/-! ## Workers and domains -/

inductive DomainStep (s s' : State) : Action → Prop where
  | same (a : Action) (domain : s'.domain = s.domain) (thread : s'.threadDomain = s.threadDomain)
      (life : ∀ x, s'.life x = .live → s.life x = .live) : DomainStep s s' a
  | made (w : WorkerId) (t : Tid) (op : UserOp) (e : EventId) (on : s.mode w = .thread t)
      (owner : e.owner = t) (other : ∀ u, e ≠ .self u) (unused : s.life e = .unused)
      (domain : s'.domain = Function.update s.domain e (s.workerDomain w))
      (thread : s'.threadDomain = s.threadDomain)
      (life : ∀ x, s'.life x = .live → x = e ∨ s.life x = .live) : DomainStep s s' (.user w op)
  | created (w : WorkerId) (u : Tid) (d : DomainId) (nr : Int) (affine : Bool)
      (unused : s.status u = .unused) (status : s'.status u = .created)
      (domain : s'.domain = Function.update s.domain (.self u) d)
      (thread : s'.threadDomain = Function.update s.threadDomain u d)
      (life : ∀ x, s'.life x = .live → x = .self u ∨ s.life x = .live) :
      DomainStep s s' (.user w (.threadNew u d nr affine))

section Domains

variable {s s' : State} {w : WorkerId} {t : Tid} {e : EventId} {a : Action}

theorem DomainStep.unchanged (domain : s'.domain = s.domain) (thread : s'.threadDomain = s.threadDomain)
    (life : s'.life = s.life) : DomainStep s s' a :=
  .same a domain thread fun x live => by rwa [life] at live

private theorem live_of_init {life : EventId → Life} {x : EventId}
    (live : Function.update life e .live x = .live) : x = e ∨ life x = .live :=
  (Update.eq_cases live).imp And.left And.right

theorem runOrQueue_domains {chosen : Option Tid} (ran : RunOrQueue s w e chosen s') :
    s'.domain = s.domain ∧ s'.threadDomain = s.threadDomain ∧ s'.life = s.life ∧
      s'.workerDomain = s.workerDomain ∧ s'.immediateFd = s.immediateFd := by
  obtain ⟨_, _, _, _, _, _, _, rfl⟩ := ran.frame
  exact ⟨rfl, rfl, rfl, rfl, rfl⟩

private theorem tcWaitqWakeupOne_domains (s : State) (wq : Waitq) :
    (s.tcWaitqWakeupOne wq).1.domain = s.domain ∧
      (s.tcWaitqWakeupOne wq).1.threadDomain = s.threadDomain ∧
      (s.tcWaitqWakeupOne wq).1.life = s.life ∧
      (s.tcWaitqWakeupOne wq).1.workerDomain = s.workerDomain := by
  obtain ⟨_, _, _, frame⟩ := tcWaitqWakeupOne_frame s wq
  rw [frame]
  exact ⟨rfl, rfl, rfl, rfl⟩

private theorem finishWait_domains {rv : Bool} (finished : FinishWait s w t e rv s') :
    s'.domain = s.domain ∧ s'.threadDomain = s.threadDomain ∧ s'.life = s.life ∧
      s'.workerDomain = s.workerDomain := by
  obtain ⟨_, _, _, _, _, _, _, rfl⟩ := finished.frame
  exact ⟨rfl, rfl, rfl, rfl⟩

theorem State.UserEffect.domainStep {op : UserOp} (effect : UserEffect s w t op s')
    (on : s.mode w = .thread t) :
    DomainStep s s' (.user w op) ∧ s'.workerDomain = s.workerDomain := by
  have made : ∀ {n : Nat}, s.life (.auto t n) = .unused →
      s'.domain = Function.update s.domain (.auto t n) (s.workerDomain w) →
      s'.threadDomain = s.threadDomain →
      s'.life = Function.update s.life (.auto t n) .live ∨ s'.life (.auto t n) ≠ .live ∧
        (∀ x, x ≠ .auto t n → s'.life x = s.life x) → DomainStep s s' (.user w op) := by
    intro n unused domain thread life
    refine .made w t op (.auto t n) on rfl (by simp) unused domain thread fun x live => ?_
    rcases life with begins | ⟨ended, others⟩
    · rw [begins] at live
      exact live_of_init live
    · by_cases same : x = .auto t n
      · exact .inl same
      · exact .inr (others x same ▸ live)
  cases effect with
  | wakeupOne q =>
      obtain ⟨domain, thread, life, worker⟩ := tcWaitqWakeupOne_domains s (.user q)
      exact ⟨.unchanged domain thread life, worker⟩
  | subscribe g n _ unused subscribed =>
      obtain ⟨_, rfl⟩ := tcSignalSubscribe_ok subscribed
      exact ⟨.made w t _ (.sub t n) on rfl (by simp) unused rfl rfl fun x live => live_of_init live, rfl⟩
  | unsubscribe u n _ =>
      exact ⟨.same _ rfl rfl fun x live => (Update.old_of_ne live (by simp)).2, rfl⟩
  | unlock m _ =>
      obtain ⟨domain, thread, life, worker⟩ := tcWaitqWakeupOne_domains s (.mutex m)
      exact ⟨.unchanged domain thread life, worker⟩
  | threadNew u d nr affine unused =>
      exact ⟨.created w u d nr affine unused (by simp [tcThreadNew]) rfl rfl fun x live =>
        live_of_init live, rfl⟩
  | threadPost u s₁ _ added =>
      obtain ⟨_, rfl⟩ := addEventCr_ok added
      exact ⟨.unchanged rfl rfl rfl, rfl⟩
  | yield n s₁ unused added =>
      obtain ⟨_, rfl⟩ := addEventCr_ok added
      exact ⟨made unused rfl rfl (.inl rfl), rfl⟩
  | waitFdFailed n g mask priority ctl s₁ unused refused =>
      cases refused with
      | errHup =>
          refine ⟨made unused rfl rfl (.inr ⟨by simp [endEvent], fun x other => ?_⟩), rfl⟩
          simp [endEvent, tcEventInit, other]
      | failed _ _ =>
          refine ⟨made unused rfl rfl (.inr ⟨by simp [endEvent], fun x other => ?_⟩), rfl⟩
          simp [endEvent, tcEventInit, detachEvent, unlinkEvent, attachEvent, other]
  | waitFd n g mask priority ctl s₁ unused added =>
      cases added
      exact ⟨made unused rfl rfl (.inl rfl), rfl⟩
  | waitqWait n q s₁ unused prepared =>
      obtain ⟨_, rfl⟩ := tcWaitqPrepareToWait_ok prepared
      exact ⟨made unused rfl rfl (.inl rfl), rfl⟩
  | threadWait n u d id s₁ unused prepared =>
      obtain ⟨_, rfl⟩ := tcWaitqPrepareToWait_ok prepared
      exact ⟨made unused rfl rfl (.inl rfl), rfl⟩
  | threadNa n u d id unused =>
      refine ⟨made unused rfl rfl (.inr ⟨by simp [endEvent], fun x other => ?_⟩), rfl⟩
      simp [endEvent, tcEventInit, other]
  | waitEvent n q unused => exact ⟨made unused rfl rfl (.inl rfl), rfl⟩
  | waitEventLoop n q unused => exact ⟨made unused rfl rfl (.inl rfl), rfl⟩
  | lock n m unused _ => exact ⟨made unused rfl rfl (.inl rfl), rfl⟩
  | _ => exact ⟨.unchanged rfl rfl rfl, rfl⟩

section Returns

variable {s₁ : State} {f : Frame}

theorem DomainStep.returnCall (rv : Rv) (domain : s₁.domain = s.domain)
    (thread : s₁.threadDomain = s.threadDomain) (life : s₁.life = s.life) :
    DomainStep s (s₁.returnCall t f rv) a :=
  .same a domain thread fun x live => by
    rw [← life]
    have ended : Function.update s₁.life f.e .dead x = .live := live
    exact (Update.old_of_ne ended (by simp)).2

theorem DomainStep.returnIntr (cause : Option EventId) (domain : s₁.domain = s.domain)
    (thread : s₁.threadDomain = s.threadDomain) (life : s₁.life = s.life) :
    DomainStep s (s₁.returnIntr t f cause) a :=
  .same a domain thread fun x live => by
    rw [← life]
    have ended : Function.update s₁.life f.e .dead x = .live := live
    exact (Update.old_of_ne ended (by simp)).2

private theorem returnCall_workerDomain (rv : Rv) :
    (s₁.returnCall t f rv).workerDomain = s₁.workerDomain := rfl

private theorem returnIntr_workerDomain (cause : Option EventId) :
    (s₁.returnIntr t f cause).workerDomain = s₁.workerDomain := rfl

end Returns

theorem State.FrameEffect.domainStep {f : Frame} (effect : FrameEffect s w t f s') :
    DomainStep s s' (.advance w) ∧ s'.workerDomain = s.workerDomain := by
  cases effect with
  | scheduled _ _ scheduled => cases scheduled <;> exact ⟨.unchanged rfl rfl rfl, rfl⟩
  | yieldIntr _ _ _ _ _ => exact ⟨.returnIntr _ rfl rfl rfl, returnIntr_workerDomain _⟩
  | yieldDone _ _ _ => exact ⟨.returnCall _ rfl rfl rfl, returnCall_workerDomain _⟩
  | fdIntr fd _ _ _ _ _ => exact ⟨.returnIntr _ rfl rfl rfl, returnIntr_workerDomain _⟩
  | fdDone fd rv _ _ _ _ => exact ⟨.returnCall _ rfl rfl rfl, returnCall_workerDomain _⟩
  | interrupted s₁ _ _ finished =>
      obtain ⟨domain, thread, life, worker⟩ := finishWait_domains finished
      exact ⟨.returnIntr _ domain thread life, worker⟩
  | again s₁ _ _ finished =>
      obtain ⟨domain, thread, life, worker⟩ := finishWait_domains finished
      exact ⟨.unchanged domain thread life, worker⟩
  | woken s₁ _ _ _ finished =>
      obtain ⟨domain, thread, life, worker⟩ := finishWait_domains finished
      exact ⟨.returnCall _ domain thread life, worker⟩
  | prepared wq s₁ _ _ _ prepared =>
      obtain ⟨_, rfl⟩ := tcWaitqPrepareToWait_ok prepared
      exact ⟨.unchanged rfl rfl rfl, rfl⟩
  | held s₁ rv _ finished =>
      obtain ⟨domain, thread, life, worker⟩ := finishWait_domains finished
      exact ⟨.returnCall _ domain thread life, worker⟩
  | acquired m _ _ _ => exact ⟨.returnCall _ rfl rfl rfl, returnCall_workerDomain _⟩
  | owned m _ _ _ => exact ⟨.returnCall _ rfl rfl rfl, returnCall_workerDomain _⟩
  | _ => exact ⟨.unchanged rfl rfl rfl, rfl⟩

theorem State.Effect.domainStep (effect : s.Effect a s') (inv : ListInv s) :
    DomainStep s s' a ∧ s'.workerDomain = s.workerDomain := by
  cases effect with
  | queued w scan x s₁ _ _ ran =>
      obtain ⟨domain, thread, life, worker, _⟩ := runOrQueue_domains ran
      exact ⟨.unchanged domain thread life, worker⟩
  | reaped w scan x u s₁ _ _ _ ran =>
      obtain ⟨domain, thread, life, worker, _⟩ := runOrQueue_domains ran
      exact ⟨.unchanged domain thread life, worker⟩
  | chosen w scan x u s₁ immediateFd _ _ _ ran =>
      obtain ⟨domain, thread, life, worker, _⟩ := runOrQueue_domains ran
      exact ⟨.unchanged domain thread life, worker⟩
  | reported w g em _ _ =>
      obtain ⟨moved, choice, handled⟩ := handleReport_spec (fun f => inv.lists.nodup (.fd f)) w g em
      obtain ⟨errHup, fdEpEvents, equal⟩ := handled.effect
      rw [equal]
      exact ⟨.unchanged rfl rfl rfl, rfl⟩
  | reportQueued w g x s₁ _ _ ran =>
      obtain ⟨domain, thread, life, worker, _⟩ := runOrQueue_domains ran
      exact ⟨.unchanged domain thread life, worker⟩
  | reportChosen w g x u s₁ _ _ ran =>
      obtain ⟨domain, thread, life, worker, _⟩ := runOrQueue_domains ran
      exact ⟨.unchanged domain thread life, worker⟩
  | freed w u _ => exact ⟨.same _ rfl rfl fun x live => (Update.old_of_ne live (by simp)).2, rfl⟩
  | user w u op _ on _ effect => exact effect.domainStep on
  | returned w value u f rest k _ _ _ _ =>
      exact ⟨.returnCall _ rfl rfl rfl, returnCall_workerDomain _⟩
  | advanced w u f rest _ _ _ effect => exact effect.domainStep
  | died w u _ _ _ effect =>
      cases effect with
      | exits s₁ _ added =>
          obtain ⟨_, rfl⟩ := addEventCr_ok added
          exact ⟨.unchanged rfl rfl rfl, rfl⟩
      | _ => exact ⟨.unchanged rfl rfl rfl, rfl⟩
  | _ => exact ⟨.unchanged rfl rfl rfl, rfl⟩

theorem State.UserEffect.mode_other {op : UserOp} {v : WorkerId} (effect : UserEffect s w t op s')
    (other : w ≠ v) : s'.mode v = s.mode v := by
  cases effect with
  | wakeupOne q => exact congrFun (tcWaitqWakeupOne_mode s (.user q)) v
  | subscribe g n _ _ subscribed =>
      obtain ⟨_, rfl⟩ := tcSignalSubscribe_ok subscribed
      rfl
  | unlock m _ => exact congrFun (tcWaitqWakeupOne_mode s (.mutex m)) v
  | threadPost u s₁ _ added =>
      obtain ⟨_, rfl⟩ := addEventCr_ok added
      rfl
  | yield n s₁ _ added =>
      obtain ⟨_, rfl⟩ := addEventCr_ok added
      rfl
  | waitFdFailed n g mask priority ctl s₁ _ refused => cases refused <;> rfl
  | waitFd n g mask priority ctl s₁ _ added =>
      cases added
      rfl
  | waitqWait n q s₁ _ prepared =>
      obtain ⟨_, rfl⟩ := tcWaitqPrepareToWait_ok prepared
      rfl
  | threadWait n u d id s₁ _ prepared =>
      obtain ⟨_, rfl⟩ := tcWaitqPrepareToWait_ok prepared
      rfl
  | exitMain _ => exact Function.update_of_ne (Ne.symm other) _ _
  | _ => rfl

theorem State.FrameEffect.mode_other {f : Frame} {v : WorkerId} (effect : FrameEffect s w t f s')
    (other : w ≠ v) : s'.mode v = s.mode v := by
  cases effect with
  | scheduled _ _ scheduled =>
      cases scheduled with
      | slept _ => exact Function.update_of_ne (Ne.symm other) _ _
      | _ => rfl
  | interrupted s₁ _ _ finished => exact congrFun (finishWait_mode finished) v
  | again s₁ _ _ finished => exact congrFun (finishWait_mode finished) v
  | woken s₁ _ _ _ finished => exact congrFun (finishWait_mode finished) v
  | prepared wq s₁ _ _ _ prepared =>
      obtain ⟨_, rfl⟩ := tcWaitqPrepareToWait_ok prepared
      rfl
  | held s₁ rv _ finished => exact congrFun (finishWait_mode finished) v
  | _ => rfl

theorem State.Effect.mode_other {v : WorkerId} (effect : s.Effect a s') (inv : ListInv s)
    (other : a.worker ≠ v) : s'.mode v = s.mode v := by
  have away : ∀ {mode : WorkerId → Mode} {m : Mode}, Function.update mode a.worker m v = mode v :=
    Function.update_of_ne (Ne.symm other) _ _
  cases effect with
  | queued w scan x s₁ _ _ ran => exact congrFun (runOrQueue_mode ran) v
  | reaped w scan x u s₁ _ _ _ ran => exact away.trans (congrFun (runOrQueue_mode ran) v)
  | chosen w scan x u s₁ immediateFd _ _ _ ran => exact away.trans (congrFun (runOrQueue_mode ran) v)
  | reported w g em _ _ =>
      obtain ⟨moved, choice, handled⟩ := handleReport_spec (fun f => inv.lists.nodup (.fd f)) w g em
      obtain ⟨errHup, fdEpEvents, equal⟩ := handled.effect
      rw [equal]
      cases choice with
      | none => rfl
      | some e => exact away
  | reportQueued w g x s₁ _ _ ran => exact away.trans (congrFun (runOrQueue_mode ran) v)
  | reportChosen w g x u s₁ _ _ ran => exact away.trans (congrFun (runOrQueue_mode ran) v)
  | entered w u _ => exact away
  | left w u _ => exact away
  | freed w u _ => exact away
  | user w u op _ _ _ effect => exact effect.mode_other other
  | advanced w u f rest _ _ _ effect => exact effect.mode_other other
  | died w u _ _ _ effect =>
      cases effect with
      | exits s₁ _ added =>
          obtain ⟨_, rfl⟩ := addEventCr_ok added
          exact away
      | _ => rfl
  | _ => rfl

end Domains

/-! ## Which steps put an event on `common.immediate` -/

section Wakeups

variable {s : State}

/-- Every event that the loop of `tc_waitq_wakeup_all` moves has its domain in `alerted`, or its
domain has been notified. -/
theorem foldl_wakeupAllTurn_notifies (es : List EventId) (acc : WakeupAll) :
    (∀ d ∈ acc.alerted, d ∈ (es.foldl s.wakeupAllTurn acc).alerted) ∧
      (∀ d, acc.immediateFd d ≤ (es.foldl s.wakeupAllTurn acc).immediateFd d) ∧
      ∀ e ∈ es, s.domain e ∈ (es.foldl s.wakeupAllTurn acc).alerted ∨
        acc.immediateFd (s.domain e) < (es.foldl s.wakeupAllTurn acc).immediateFd (s.domain e) := by
  induction es generalizing acc with
  | nil => exact ⟨fun _ member => member, fun _ => le_rfl, fun _ member => nomatch member⟩
  | cons e es ih =>
      obtain ⟨alerted, grows, notified⟩ := ih (s.wakeupAllTurn acc e)
      have keeps : ∀ d ∈ acc.alerted, d ∈ (s.wakeupAllTurn acc e).alerted := by
        intro d member
        simp only [wakeupAllTurn]
        split <;> simp [member]
      have turn : ∀ d, acc.immediateFd d ≤ (s.wakeupAllTurn acc e).immediateFd d := by
        intro d
        simp only [wakeupAllTurn]
        split
        · by_cases same : d = s.domain e
          · simp [same]
          · simp [same]
        · exact le_rfl
      refine ⟨fun d member => alerted d (keeps d member),
        fun d => (turn d).trans (grows d), fun x member => ?_⟩
      rcases List.mem_cons.mp member with rfl | later
      · by_cases known : s.domain x ∈ acc.alerted
        · exact .inl (alerted _ (keeps _ known))
        · by_cases room : acc.alerted.length < 10
          · exact .inl (alerted _ (by simp [wakeupAllTurn, known, room]))
          · refine .inr (Nat.lt_of_lt_of_le ?_ (grows _))
            simp only [wakeupAllTurn, if_pos (show _ ∧ _ from ⟨known, room⟩), Function.update_self]
            exact Nat.lt_succ_self _
      · rcases notified x later with listed | written
        · exact .inl listed
        · exact .inr ((turn _).trans_lt written)

private theorem foldl_iwi (alerted : List DomainId) (fd : DomainId → Nat) (d : DomainId) :
    alerted.foldl (fun fd d => Function.update fd d (fd d + 1)) fd d = fd d + alerted.count d := by
  induction alerted generalizing fd with
  | nil => simp
  | cons x alerted ih =>
      rw [List.foldl_cons, ih, List.count_cons]
      by_cases same : d = x
      · subst same
        simp
        omega
      · simp [same, Ne.symm same]

theorem tcWaitqWakeupAll_immediateFd (wq : Waitq) (d : DomainId) :
    (s.tcWaitqWakeupAll wq).immediateFd d =
      (s.wakeupAllLoop wq).immediateFd d + (s.wakeupAllLoop wq).alerted.count d :=
  foldl_iwi _ _ d

/-- `tc_waitq_wakeup_all` notifies the domain of every event it moves, at its end or before. -/
theorem wakeupAllLoop_notifies {wq : Waitq} {e : EventId} (waits : e ∈ s.events (.waiters wq)) :
    s.domain e ∈ (s.wakeupAllLoop wq).alerted ∨
      s.immediateFd (s.domain e) + (s.wakeupAllLoop wq).alerted.count (s.domain e) <
        (s.tcWaitqWakeupAll wq).immediateFd (s.domain e) := by
  have notified := (foldl_wakeupAllTurn_notifies (s := s) (s.events (.waiters wq))
    ⟨s.lists, s.immediateCount, s.signalsSinceLastQuery, s.immediateFd, []⟩).2.2 e waits
  rcases notified with listed | written
  · exact .inl listed
  · refine .inr ?_
    rw [tcWaitqWakeupAll_immediateFd]
    exact Nat.add_lt_add_right written _

end Wakeups

/-- The steps that put event `e` on `common.immediate`, with whom they notify. -/
inductive Queues (s s' : State) (e : EventId) : Action → Prop where
  | owes (a : Action) (domain : s'.domain e = s.domain e) (owes : s.domain e ∈ s.owes a) :
      Queues s s' e a
  | notified (a : Action) (domain : s'.domain e = s.domain e)
      (written : s.immediateFd (s.domain e) + (s.owes a).count (s.domain e) <
        s'.immediateFd (s.domain e)) : Queues s s' e a
  | posted (w : WorkerId) (u : Tid) (event : e = .self u) (created : s.status u = .created) :
      Queues s s' e (.user w (.threadPost u))
  | exits (w : WorkerId) (t : Tid) (on : s.mode w = .thread t) (event : e = .self t)
      (announced : s.status t = .announced) : Queues s s' e (.die w)
  | yields (w : WorkerId) (t : Tid) (n : Nat) (on : s.mode w = .thread t) (event : e = .auto t n)
      (mode : s'.mode = s.mode)
      (frames : s'.frames t = ⟨.yield, e, .queued, s.eventStack t⟩ :: s.frames t)
      (domain : s'.domain e = s.workerDomain w) : Queues s s' e (.user w (.yield n))
  | reported (w : WorkerId) (f : FdId) (em : Mask) (sched : s.mode w = .sched)
      (moved : e ∈ (s.reportChoice w f em).1) (waits : e ∈ s.events (.fd f)) :
      Queues s s' e (.report w f em)

section Queued

variable {s s' : State} {w : WorkerId} {t : Tid} {e x : EventId} {a : Action}

private theorem came_wakeupAll_immediate {q : Waitq} (after : s'.el e = some .immediate)
    (lists : s'.lists = (s.tcWaitqWakeupAll q).lists)
    (immediateFd : s'.immediateFd = (s.tcWaitqWakeupAll q).immediateFd)
    (domain : s'.domain = s.domain) (owes : s.owes a = (s.wakeupAllLoop q).alerted) :
    s.el e = some .immediate ∨ Queues s s' e a := by
  have el := (IntrusiveLists.movesTo_front EventList.immediate).foldl_el s.lists
    (s.events (.waiters q)) e
  rw [State.el, lists, tcWaitqWakeupAll_lists, el] at after
  split at after
  · next waits =>
    rcases wakeupAllLoop_notifies waits with listed | written
    · exact .inr (.owes a (congrFun domain e) (owes ▸ listed))
    · exact .inr (.notified a (congrFun domain e) (by rwa [owes, immediateFd]))
  · exact .inl after

private theorem came_update_or {k : EventList} {l : Option EventList} (after : s'.el e = some k)
    (el : s'.lists.el = Function.update s.lists.el x l) : s.el e = some k ∨ e = x := by
  by_cases same : e = x
  · exact .inr same
  · rw [State.el, el, Function.update_of_ne same] at after
    exact .inl after

private theorem came_wakeupOne_immediate {q : Waitq} (after : s'.el e = some .immediate)
    (lists : s'.lists = (s.tcWaitqWakeupOne q).1.lists)
    (domain : s'.domain = (s.tcWaitqWakeupOne q).1.domain) (owes : s.owes a = s.wakeupOneOwes q) :
    s.el e = some .immediate ∨ Queues s s' e a := by
  cases queue : s.events (.waiters q) with
  | nil => exact .inl (came_same after (by rw [lists, tcWaitqWakeupOne_nil queue]))
  | cons y es =>
      have el : s'.lists.el = Function.update s.lists.el y (some .immediate) := by
        rw [lists, tcWaitqWakeupOne_cons queue]
        simp [iwiImmediate]
      rcases came_update_or after el with before | rfl
      · exact .inl before
      · refine .inr (.owes a ?_ ?_)
        · rw [domain, (tcWaitqWakeupOne_domains s q).1]
        · simp [owes, wakeupOneOwes, queue]

theorem came_runOrQueue_immediate {tcfd : Option FdId} {chosen : Option Tid} {s₁ : State}
    (after : s₁.el e = some .immediate) (ran : RunOrQueue (s.served w tcfd) w x chosen s₁) :
    s.el e = some .immediate ∧ e ≠ x := by
  have moved : ∀ {l : Option EventList}, s₁.lists.el = Function.update s.lists.el x l →
      l ≠ some .immediate → s.el e = some .immediate ∧ e ≠ x := by
    intro l el other
    refine ⟨came_update after el other, ?_⟩
    intro same
    rw [State.el, el, same, Function.update_self] at after
    exact other after
  cases ran with
  | exits _ _ => exact moved (l := none) rfl (by simp)
  | queued _ _ _ _ _ _ =>
      exact moved (l := some (.pending (s.tc x))) (by simp [relocateEvent, served]) (by simp)
  | signalled _ _ _ _ _ =>
      exact moved (l := some (.waiters (.signal (s.signal x)))) (by simp [relocateEvent, served])
        (by simp)
  | selected _ _ _ _ _ _ => exact moved (l := none) rfl (by simp)

private theorem came_finishWait_immediate {rv : Bool} {s₁ : State}
    (after : s'.el e = some .immediate) (finished : FinishWait s w t x rv s₁)
    (lists : s'.lists = s₁.lists) : s.el e = some .immediate := by
  cases finished with
  | expected _ _ => exact came_update after (by rw [lists]; rfl) (by simp)
  | requeued y _ _ _ _ =>
      have removed : (s.removeEventHoldingLocks x).el e = some .immediate := by
        refine came_update (x := y) (l := some (.pending t)) after ?_ (by simp)
        rw [lists]
        simp [attachEvent]
      exact came_update removed rfl (by simp)
  | interrupted y _ _ _ _ => exact came_update after (by rw [lists]; rfl) (by simp)

theorem State.UserEffect.queues {op : UserOp} (effect : UserEffect s w t op s')
    (on : s.mode w = .thread t) (after : s'.el e = some .immediate) :
    s.el e = some .immediate ∨ Queues s s' e (.user w op) := by
  cases effect with
  | wakeupAll q => exact came_wakeupAll_immediate (q := .user q) after rfl rfl rfl rfl
  | wakeupOne q => exact came_wakeupOne_immediate (q := .user q) after rfl rfl rfl
  | fire g => exact came_wakeupAll_immediate (q := .signal g) after rfl rfl rfl rfl
  | subscribe g n _ _ subscribed =>
      obtain ⟨_, rfl⟩ := tcSignalSubscribe_ok subscribed
      exact .inl (came_update after rfl (by simp))
  | unsubscribe u n _ => exact .inl (came_update after rfl (by simp))
  | unlock m _ => exact came_wakeupOne_immediate (q := .mutex m) after rfl rfl rfl
  | threadPost u s₁ created added =>
      obtain ⟨_, rfl⟩ := addEventCr_ok added
      rcases came_update_or (x := .self u) (l := some .immediate) after rfl with before | same
      · exact .inl before
      · exact .inr (.posted w u same created)
  | yield n s₁ _ added =>
      obtain ⟨_, rfl⟩ := addEventCr_ok added
      rcases came_update_or (x := .auto t n) (l := some .immediate) after rfl with before | rfl
      · exact .inl before
      · refine .inr (.yields w t n on rfl rfl ?_ ?_)
        · simp [pushFrame, attachEvent, tcEventInit]
        · simp [pushFrame, attachEvent, tcEventInit]
  | waitFdFailed n g mask priority ctl s₁ _ refused =>
      cases refused with
      | errHup => exact .inl (came_same after rfl)
      | failed _ _ =>
          refine .inl (came_update (x := .auto t n) (l := none) after ?_ (by simp))
          simp [endEvent, detachEvent, unlinkEvent, attachEvent, tcEventInit]
  | waitFd n g mask priority ctl s₁ _ added =>
      cases added
      exact .inl (came_update (x := .auto t n) (l := some (.fd g)) after rfl (by simp))
  | waitqWait n q s₁ _ prepared =>
      obtain ⟨_, rfl⟩ := tcWaitqPrepareToWait_ok prepared
      exact .inl (came_update (x := .auto t n) (l := some (.waiters (.user q))) after rfl (by simp))
  | threadWait n u d id s₁ _ prepared =>
      obtain ⟨_, rfl⟩ := tcWaitqPrepareToWait_ok prepared
      exact .inl (came_update (x := .auto t n) (l := some (.waiters (.exit u))) after rfl (by simp))
  | _ => exact .inl (came_same after rfl)

theorem State.FrameEffect.queues {f : Frame} (effect : FrameEffect s w t f s')
    (after : s'.el e = some .immediate) : s.el e = some .immediate := by
  cases effect with
  | scheduled _ _ scheduled =>
      cases scheduled with
      | slept _ => exact came_same after rfl
      | signalled x _ _ _ _ =>
          refine came_update (x := x) (l := some (.waiters (.signal (s.signal x)))) after ?_ (by simp)
          simp [setFrame, relocateEvent]
      | resumed x _ _ _ _ _ => exact came_update after rfl (by simp)
  | yieldIntr _ _ _ _ _ => exact came_update after rfl (by simp)
  | fdIntr _ _ _ _ _ _ => exact came_update after rfl (by simp)
  | interrupted s₁ _ _ finished => exact came_finishWait_immediate after finished rfl
  | again s₁ _ _ finished => exact came_finishWait_immediate after finished rfl
  | woken s₁ _ _ _ finished => exact came_finishWait_immediate after finished rfl
  | prepared wq s₁ _ _ _ prepared =>
      obtain ⟨_, rfl⟩ := tcWaitqPrepareToWait_ok prepared
      exact came_update (x := f.e) (l := some (.waiters wq)) after rfl (by simp)
  | held s₁ rv _ finished => exact came_finishWait_immediate after finished rfl
  | _ => exact came_same after rfl

/-- An event on `common.immediate` was there before, or the step has put it there. -/
theorem State.Effect.queues (effect : s.Effect a s') (inv : ListInv s)
    (after : s'.el e = some .immediate) : s.el e = some .immediate ∨ Queues s s' e a := by
  cases effect with
  | queued w scan x s₁ _ _ ran => exact .inl (came_runOrQueue_immediate after ran).1
  | reaped w scan x u s₁ _ _ _ ran =>
      exact .inl (came_runOrQueue_immediate (show s₁.el e = _ from after) ran).1
  | chosen w scan x u s₁ immediateFd _ _ _ ran =>
      exact .inl (came_runOrQueue_immediate (show s₁.el e = _ from after) ran).1
  | reported w g em sched _ =>
      have handled := handleReport_choice (fun f => inv.lists.nodup (.fd f)) w g em
      obtain ⟨errHup, fdEpEvents, equal⟩ := handled.effect
      have el : (s.handleReport w g em).el e =
          if e ∈ (s.reportChoice w g em).1 then some .immediate else s.lists.el e := by
        rw [equal]
        exact (IntrusiveLists.movesTo_back EventList.immediate).foldl_el s.lists _ e
      rw [el] at after
      split at after
      · next member => exact .inr (.reported w g em sched member (handled.movedFrom e member))
      · exact .inl after
  | reportQueued w g x s₁ _ _ ran =>
      exact .inl (came_runOrQueue_immediate (show s₁.el e = _ from after) ran).1
  | reportChosen w g x u s₁ _ _ ran =>
      exact .inl (came_runOrQueue_immediate (show s₁.el e = _ from after) ran).1
  | aio w q _ => exact came_wakeupAll_immediate (q := .user q) after rfl rfl rfl rfl
  | user w u op _ on _ effect => exact effect.queues on after
  | advanced w u f rest _ on frames effect => exact .inl (effect.queues after)
  | died w u _ on _ effect =>
      cases effect with
      | settled _ => exact .inl (came_same after rfl)
      | announced settled =>
          refine came_wakeupAll_immediate (q := .exit u) after rfl rfl rfl ?_
          simp [owes, on, settled]
      | exits s₁ announced added =>
          obtain ⟨_, rfl⟩ := addEventCr_ok added
          rcases came_update_or (x := .self u) (l := some .immediate) after rfl with before | same
          · exact .inl before
          · exact .inr (.exits w u on same announced)
  | _ => exact .inl (came_same after rfl)

end Queued

/-! ## What `_run_immediate` finds -/

section Search

variable {s s' : State} {w : WorkerId} {scan : Scan}

private theorem searchImmediate_served (s : State) (w : WorkerId) (scan : Scan) (tcfd : Option FdId)
    (es : List EventId) :
    (s.served w tcfd).searchImmediate w scan es = s.searchImmediate w scan es := by
  induction es with
  | nil => rfl
  | cons e es ih =>
      simp only [searchImmediate, ih]
      rfl

theorem searchImmediate_none {es : List EventId} (searched : s.searchImmediate w scan es = .ok none) :
    ∀ e ∈ es, s.wanted w scan e = false := by
  induction es with
  | nil => exact fun _ member => nomatch member
  | cons e es ih =>
      unfold searchImmediate at searched
      split at searched
      · cases searched
      · split at searched
        · cases searched
        · next unwanted =>
          exact List.forall_mem_cons.mpr ⟨by simpa using unwanted, ih searched⟩

theorem searchImmediate_some {es : List EventId} {x : EventId}
    (searched : s.searchImmediate w scan es = .ok (some x)) : s.domain x = s.workerDomain w := by
  induction es with
  | nil => cases searched
  | cons e es ih =>
      unfold searchImmediate at searched
      split at searched
      · cases searched
      · split at searched
        · next wanted =>
          cases searched
          simp only [State.wanted, Bool.and_eq_true, decide_eq_true_eq] at wanted
          exact wanted.1
        · exact ih searched

inductive RunImmediate (s : State) (w : WorkerId) (scan : Scan) : State → Prop where
  | nothing (searched : s.searchImmediate w scan (s.events .immediate) = .ok none) :
      RunImmediate s w scan (s.served w none)
  | queued (x : EventId) (s₁ : State)
      (searched : s.searchImmediate w scan (s.events .immediate) = .ok (some x))
      (ran : RunOrQueue (s.served w none) w x none s₁) : RunImmediate s w scan s₁
  | reaped (x : EventId) (t : Tid) (s₁ : State)
      (searched : s.searchImmediate w scan (s.events .immediate) = .ok (some x))
      (ran : RunOrQueue (s.served w none) w x (some t) s₁) :
      RunImmediate s w scan { s₁ with mode := Function.update s₁.mode w (.free t) }
  | chosen (x : EventId) (t : Tid) (s₁ : State)
      (searched : s.searchImmediate w scan (s.events .immediate) = .ok (some x))
      (ran : RunOrQueue (s.served w none) w x (some t) s₁) :
      RunImmediate s w scan { s₁ with
        immediateFd := if s₁.events .immediate = [] then s₁.immediateFd
          else Function.update s₁.immediateFd (s₁.workerDomain w)
            (s₁.immediateFd (s₁.workerDomain w) + 1)
        mode := Function.update s₁.mode w (.enter t) }

theorem runImmediate_cases (done : s.runImmediate w scan = .ok s') : RunImmediate s w scan s' := by
  unfold runImmediate at done
  dsimp only at done
  split at done
  · cases done
  · next searched =>
    cases done
    exact .nothing ((searchImmediate_served s w scan none _).symm.trans searched)
  · next x searched =>
    have found := (searchImmediate_served s w scan none _).symm.trans searched
    split at done
    · cases done
    · next s₁ ran =>
      cases done
      exact .queued x _ found (runOrQueue_ok ran)
    · next t s₁ ran =>
      split at done
      · cases done
        exact .reaped x t s₁ found (runOrQueue_ok ran)
      · cases done
        exact .chosen x t s₁ found (runOrQueue_ok ran)

end Search

end Libtcr
