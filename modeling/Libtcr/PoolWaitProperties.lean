import Libtcr.PoolProperties
import Libtcr.TimerList

/-! `tc_thread_pool_wait` and signals: it reports an interruption of the thread wait, but not one of
the call of `tc_sleep` that follows it. -/

set_option autoImplicit false

namespace Libtcr

open State

/-! ## `tc_sleep` -/

section Sleep

variable {s s' : TimerState} {w : WorkerId} {t : Tid}

private theorem TimerState.calls_step {a : Action} {after : State → TimerState}
    (running : s.sys.fault = none) (kept : ∀ sys, (after sys).sys = sys)
    (called : s.call a after = some s') : s.sys.step a = some s'.sys := by
  obtain ⟨sys, _, moved, rfl⟩ | ⟨fault, moved, rfl⟩ := State.call_step called running
  · rw [kept, moved]
  · exact moved

/-- `tc_sleep` does nothing to the library but the calls that `PoolState.allows` leaves to it. -/
theorem TimerState.nextStep_calls {m : MutexId} {f : FdId} {n : Nat} {now : Timespec} {ctl : Bool}
    (running : s.sys.fault = none) (stepped : s.nextStep m f w t n now ctl = some s') :
    s'.sys = s.sys ∨ (∃ op, op.ofSleep = true ∧ s.sys.step (.user w op) = some s'.sys) ∨
      ∃ value, s.sys.step (.condition w value) = some s'.sys := by
  have calls : ∀ {op : UserOp} {after : State → TimerState}, op.ofSleep = true →
      (∀ sys, (after sys).sys = sys) → s.call (.user w op) after = some s' →
      s'.sys = s.sys ∨ (∃ op, op.ofSleep = true ∧ s.sys.step (.user w op) = some s'.sys) ∨
        ∃ value, s.sys.step (.condition w value) = some s'.sys :=
    fun ofSleep kept done => .inr (.inl ⟨_, ofSleep, s.calls_step running kept done⟩)
  unfold TimerState.nextStep at stepped
  cases pc : s.pc t with
  | inserted =>
      simp only [pc] at stepped
      exact calls rfl (fun _ => rfl) stepped
  | trying e =>
      simp only [pc] at stepped
      exact calls rfl (fun _ => rfl) stepped
  | decided e haveLock value =>
      simp only [pc] at stepped
      exact .inr (.inr ⟨value, s.calls_step running (fun _ => rfl) stepped⟩)
  | polling =>
      simp only [pc] at stepped
      exact calls rfl (fun _ => rfl) stepped
  | marked ts two two2 =>
      simp only [pc] at stepped
      exact calls rfl (fun _ => rfl) stepped
  | quit haveLock rv =>
      cases haveLock with
      | true =>
          simp only [pc] at stepped
          exact calls rfl (fun _ => rfl) stepped
      | false =>
          simp only [pc] at stepped
          cases stepped
          exact .inl rfl
  | removed rv =>
      simp only [pc] at stepped
      split at stepped
      · exact calls rfl (fun _ => rfl) stepped
      · cases stepped
        exact .inl rfl
      · cases stepped
        exact .inl rfl
  | _ =>
      -- the steps on the list of timers
      simp only [pc] at stepped
      repeat' split at stepped
      all_goals cases stepped
      all_goals exact .inl rfl

end Sleep

/-! ## Threads in the function -/

/-- The thread is in no sleeping call, except for one whose condition it evaluates. -/
def Resting (s : State) (t : Tid) : Prop :=
  ∀ f rest, s.frames t = f :: rest → f.inCondition = true

/-- The thread is in `tc_thread_wait_ref` with the event `e`, or that call has returned. -/
def InJoin (s : State) (t : Tid) (e : EventId) : Prop :=
  (∃ f rest u, s.frames t = f :: rest ∧ f.e = e ∧ f.call = .thread u) ∨
    (∃ rv, s.result e = some rv) ∧ Resting s t

/-- No signal has interrupted the thread since it has called `tc_thread_pool_wait`. -/
def PoolState.Calm (s : PoolState) (t : Tid) : Prop :=
  ∀ n, s.sys.interrupts (.sub t n) = s.since t n

/-- The step is none of the application for thread `t`, or one of `tc_sleep`. -/
structure PoolState.Spares (s : PoolState) (t : Tid) (a : Action) : Prop where
  user : ∀ w op, a = .user w op → s.sys.mode w = .thread t →
    (s.pc t).sleeps = true ∧ op.ofSleep = true
  condition : ∀ w value, a = .condition w value → s.sys.mode w = .thread t → (s.pc t).sleeps = true

section Steps

variable {s s' : PoolState} {t : Tid} {a : Action} {e : EventId}

private theorem Resting.of_user {s : State} (code : s.inUserCode t = true) : Resting s t := by
  intro f rest frames
  simp only [inUserCode, frames, Bool.and_eq_true] at code
  exact code.2

private theorem PoolState.spares_act (allows : s.allows a = true) (inside : s.pc t ≠ .outside) :
    s.Spares t a := by
  constructor
  · rintro w op rfl on
    simp only [PoolState.allows, on, inside, decide_false, Bool.false_or, Bool.and_eq_true] at allows
    exact allows
  · rintro w value rfl on
    simp only [PoolState.allows, on, inside, decide_false, Bool.false_or] at allows
    exact allows

private theorem PoolState.spares_other {w : WorkerId} {u : Tid} {op : UserOp}
    (on : s.sys.mode w = .thread u) (other : u ≠ t) : s.Spares t (.user w op) := by
  constructor
  · rintro v op' ⟨⟩ same
    exact absurd (Mode.thread.inj (on.symm.trans same)) other
  · rintro v value ⟨⟩

private theorem Frame.of_inCondition {f : Frame} (condition : f.inCondition = true) :
    ∃ k, f.call = .cond k ∧ (f.pc = .test0 ∨ f.pc = .test) := by
  unfold Frame.inCondition at condition
  split at condition
  · next k call pc => exact ⟨k, call, .inl pc⟩
  · next k call pc => exact ⟨k, call, .inr pc⟩
  · cases condition

private theorem CondMove.not_condition {w : WorkerId} {pc next : Pc}
    (move : CondMove (.advance w) pc next) : ¬ (pc = .test0 ∨ pc = .test) := by
  cases move <;> simp

private theorem CondReturn.not_condition {w : WorkerId} {pc : Pc} {rv : Rv}
    (return_ : CondReturn (.advance w) pc rv) : ¬ (pc = .test0 ∨ pc = .test) := by
  cases return_ <;> simp

theorem Resting.kept (rests : Resting s.sys t) (spares : s.Spares t a) (awake : (s.pc t).sleeps = false)
    (step : CallStep s.sys t a s'.sys) : s'.sys.frames t = s.sys.frames t := by
  have decided : ∀ {w : WorkerId} {value : Bool}, s.sys.mode w = .thread t → a ≠ .condition w value := by
    intro w value on same
    have sleeps := spares.condition w value same on
    simp [awake] at sleeps
  cases step with
  | idle _ _ calls _ => exact calls.1
  | entered w f rest _ _ frames _ asleep _ _ =>
      obtain ⟨_, _, pc⟩ := Frame.of_inCondition (rests f rest frames)
      simp [asleep] at pc
  | user w op _ on _ _ =>
      have sleeps := (spares.user w op rfl on).1
      simp [awake] at sleeps
  | moved w f g rest _ _ on by_ frames _ _ _ cond _ _ =>
      obtain ⟨k, call, pc⟩ := Frame.of_inCondition (rests f rest frames)
      rcases by_ with rfl | ⟨value, same⟩
      · exact absurd pc (cond k call).not_condition
      · exact absurd same (decided on)
  | returned w f rest rv _ _ on by_ frames _ cond _ _ _ _ =>
      obtain ⟨k, call, pc⟩ := Frame.of_inCondition (rests f rest frames)
      rcases by_ with rfl | ⟨value, same⟩
      · exact absurd pc (cond k call).not_condition
      · exact absurd same (decided on)

theorem Resting.step (rests : Resting s.sys t) (inv : SystemInv s.sys) (spares : s.Spares t a)
    (awake : (s.pc t).sleeps = false) (stepped : s.sys.step a = some s'.sys) : Resting s'.sys t := by
  intro f rest frames
  rcases State.step_act stepped with done | ⟨fault, _, same⟩
  · rw [rests.kept spares awake (State.act_callStep inv done t)] at frames
    exact rests f rest frames
  · rw [same] at frames
    exact rests f rest frames

theorem InJoin.step {n : Nat} (join : InJoin s.sys t e) (inv : SystemInv s.sys) (spares : s.Spares t a)
    (awake : (s.pc t).sleeps = false) (auto : e = .auto t n) (stepped : s.sys.step a = some s'.sys) :
    InJoin s'.sys t e := by
  rcases join with ⟨f, rest, u, frames, event, call⟩ | ⟨⟨rv, result⟩, rests⟩
  · rcases State.step_act stepped with done | ⟨fault, _, same⟩
    · cases State.act_callStep inv done t with
      | idle _ _ calls _ => exact .inl ⟨f, rest, u, calls.1.trans frames, event, call⟩
      | entered w g rest' _ _ frames' after _ _ _ =>
          obtain ⟨rfl, rfl⟩ := List.cons.inj (frames'.symm.trans frames)
          exact .inl ⟨_, _, u, after, event, call⟩
      | user w op _ _ code _ => simp [inUserCode, frames, Frame.inCondition, call] at code
      | moved w g g' rest' _ _ _ _ frames' after event' call' _ _ _ =>
          obtain ⟨rfl, rfl⟩ := List.cons.inj (frames'.symm.trans frames)
          exact .inl ⟨g', _, u, after, event'.trans event, call'.trans call⟩
      | returned w g rest' rv _ _ _ _ frames' after _ _ result _ _ =>
          obtain ⟨rfl, rfl⟩ := List.cons.inj (frames'.symm.trans frames)
          refine .inr ⟨⟨rv, by rw [result, event, Function.update_self]⟩, fun h below lower => ?_⟩
          refine (inv.thread t).lower g rest' (by simp [State.view, frames]) h ?_
          simp [← after, lower]
    · rw [same]
      exact .inl ⟨f, rest, u, frames, event, call⟩
  · exact .inr ⟨⟨rv, inv.result_stays stepped auto result⟩, rests.step inv spares awake stepped⟩

private theorem PoolState.Spares.subscribes (spares : s.Spares t a) (n : Nat) :
    ¬ Subscribes s.sys a (.sub t n) := by
  rintro ⟨w, u, g, m, rfl, on, same⟩
  obtain ⟨rfl, rfl⟩ : t = u ∧ n = m := by simpa using same
  have ofSleep := (spares.user w _ rfl on).2
  simp [UserOp.ofSleep] at ofSleep

theorem PoolState.Calm.kept (calm : s.Calm t) (step : InterruptStep s.sys s'.sys a)
    (spares : s.Spares t a) (since : s'.since t = s.since t)
    (safe : ∀ w f rest n, a = .advance w → s.sys.mode w = .thread t → s.sys.frames t = f :: rest →
      f.pc = .woke → s'.sys.result f.e = some .intr → s.sys.wokenByEvent w ≠ some (.sub t n)) :
    s'.Calm t := by
  intro n
  rw [since, ← calm n]
  cases step with
  | calm _ interrupts _ => exact interrupts _ (spares.subscribes n)
  | interrupted w u f rest m on frames pc woken interrupts result =>
      rw [interrupts, Function.update_of_ne]
      intro same
      obtain ⟨rfl, rfl⟩ : t = u ∧ n = m := by simpa using same
      exact safe w f rest n rfl on frames pc (by simp [result]) woken

end Steps

/-! ## The invariant -/

/-- What holds of a thread in `tc_thread_pool_wait` that has not been interrupted. -/
def PoolPc.Quiet (s : PoolState) (t : Tid) : PoolPc → Prop
  | .looking _ _ | .joining _ _ _ => s.Calm t ∧ Resting s.sys t
  | .joined _ e _ => (∃ n, e = .auto t n) ∧ InJoin s.sys t e ∧
      (s.sys.result e ≠ some .intr → s.Calm t)
  | .sleeping _ _ => s.Calm t
  | .returns p .ok => s.Calm t ∧ Resting s.sys t ∧ s.list p = []
  | _ => True

structure QuietInv (s : PoolState) : Prop where
  pool : PoolInv s
  quiet : ∀ t, (s.pc t).Quiet s t

section Invariant

variable {nrOfWorkers : DomainId → Int} {s s' : PoolState} {t u : Tid} {a : Action} {pc : PoolPc}

theorem PoolPc.Quiet.kept (quiet : (s.pc t).Quiet s t) (pool : PoolInv s) (spares : s.Spares t a)
    (sleeps : s.sleepsOn (.act a) = true) (stepped : s.sys.step a = some s'.sys)
    (since : s'.since t = s.since t) (list : ∀ p, s.filled p = true → s.list p = [] → s'.list p = []) :
    (s.pc t).Quiet s' t := by
  have inv := pool.sys
  have interrupts := inv.interruptStep stepped
  have resting : (s.pc t).sleeps = false → s.Calm t ∧ Resting s.sys t →
      s'.Calm t ∧ Resting s'.sys t := by
    intro awake before
    obtain ⟨calm, rests⟩ := before
    refine ⟨calm.kept interrupts spares since ?_, rests.step inv spares awake stepped⟩
    intro w f rest n _ _ frames pc
    obtain ⟨_, _, condition⟩ := Frame.of_inCondition (rests f rest frames)
    simp [pc] at condition
  cases at_ : s.pc t with
  | looking p rv =>
      rw [at_] at quiet resting
      exact resting rfl quiet
  | joining p v rv =>
      rw [at_] at quiet resting
      exact resting rfl quiet
  | joined p e rv =>
      rw [at_] at quiet
      obtain ⟨⟨n, auto⟩, join, calm⟩ := quiet
      refine ⟨⟨n, auto⟩, join.step inv spares (by rw [at_]; rfl) auto stepped, fun notIntr => ?_⟩
      have before : s.sys.result e ≠ some .intr := by
        intro intr
        exact notIntr (inv.result_stays stepped auto intr)
      apply (calm before).kept interrupts spares since
      intro w f rest m _ _ frames pc intr
      -- the call that is interrupted is that of the join
      rcases join with ⟨g, rest', u, frames', event, _⟩ | ⟨_, rests⟩
      · obtain ⟨rfl, _⟩ := List.cons.inj (frames'.symm.trans frames)
        exact absurd (event ▸ intr) notIntr
      · obtain ⟨_, _, condition⟩ := Frame.of_inCondition (rests f rest frames)
        simp [pc] at condition
  | sleeping p rv =>
      rw [at_] at quiet
      apply PoolState.Calm.kept quiet interrupts spares since
      rintro w f rest n rfl on frames pc _ woken
      simp [PoolState.sleepsOn, PoolState.signalled, on, at_, PoolPc.sleeps, frames, woken, pc] at sleeps
  | returns p rv =>
      cases rv with
      | ok =>
          have filled : (PoolPc.returns p .ok).Fits s := at_ ▸ pool.fits t
          rw [at_] at quiet resting
          obtain ⟨calm, rests, empty⟩ := quiet
          obtain ⟨calm', rests'⟩ := resting rfl ⟨calm, rests⟩
          exact ⟨calm', rests', list p filled empty⟩
      | _ => trivial
  | _ => trivial

theorem PoolPc.Quiet.mono (quiet : pc.Quiet s t) (fits : pc.Fits s) (sys : s'.sys = s.sys)
    (since : s'.since t = s.since t)
    (list : ∀ p, s.filled p = true → s.list p = [] → s'.list p = []) : pc.Quiet s' t := by
  have calm : s.Calm t → s'.Calm t := by
    intro before n
    rw [sys, since]
    exact before n
  cases pc with
  | looking p rv => exact ⟨calm quiet.1, sys ▸ quiet.2⟩
  | joining p v rv => exact ⟨calm quiet.1, sys ▸ quiet.2⟩
  | joined p e rv => exact ⟨quiet.1, sys ▸ quiet.2.1, fun notIntr => calm (quiet.2.2 (sys ▸ notIntr))⟩
  | sleeping p rv => exact calm quiet
  | returns p rv =>
      cases rv with
      | ok => exact ⟨calm quiet.1, sys ▸ quiet.2.1, list p fits quiet.2.2⟩
      | _ => trivial
  | _ => trivial

theorem QuietInv.goes (inv : QuietInv s) (pool : PoolInv s') (sys : s'.sys = s.sys)
    (pcs : s'.pc = Function.update s.pc t pc) (since : ∀ v, v ≠ t → s'.since v = s.since v)
    (list : ∀ p, s.filled p = true → s.list p = [] → s'.list p = []) (quiet : pc.Quiet s' t) :
    QuietInv s' := by
  refine ⟨pool, ?_⟩
  rw [pcs]
  apply (Function.forall_update_iff s.pc fun v pc => pc.Quiet s' v).mpr
  exact ⟨quiet, fun v other => (inv.quiet v).mono (inv.pool.fits v) sys (since v other) list⟩

theorem QuietInv.calls {w : WorkerId} {op : UserOp} (inv : QuietInv s) (pool : PoolInv s')
    (on : s.sys.mode w = .thread t) (stepped : s.sys.step (.user w op) = some s'.sys)
    (pcs : s'.pc = Function.update s.pc t pc) (since : s'.since = s.since)
    (list : s'.list = s.list) (quiet : pc.Quiet s' t) : QuietInv s' := by
  refine ⟨pool, ?_⟩
  rw [pcs]
  apply (Function.forall_update_iff s.pc fun v pc => pc.Quiet s' v).mpr
  refine ⟨quiet, fun v other => ?_⟩
  exact (inv.quiet v).kept inv.pool (PoolState.spares_other on (Ne.symm other)) rfl stepped
    (congrFun since v) fun p _ empty => list ▸ empty

theorem QuietInv.creates {w : WorkerId} {d : DomainId} {nr : Int} {affine : Bool} {address : Nat}
    {maker : Maker} (inv : QuietInv s) (on : s.sys.mode w = .thread t)
    (new : s.tcThreadNew w u d nr affine address maker = some s') (pool : PoolInv (s'.setPc t pc))
    (quiet : ∀ {s : PoolState}, pc.Quiet s t) : QuietInv (s'.setPc t pc) := by
  obtain ⟨_, sys, stepped, rfl⟩ := PoolState.tcThreadNew_spec new
  exact inv.calls pool on stepped rfl rfl rfl quiet

private theorem PoolState.listAfter_nil {p : PoolId} (empty : s.list p = []) :
    s.listAfter a p = [] := by
  rw [List.eq_nil_iff_forall_not_mem] at empty ⊢
  exact fun u on => empty u (s.mem_listAfter on)

theorem QuietInv.step {a : PoolAction} (inv : QuietInv s) (sleeps : s.sleepsOn a = true)
    (step : PoolStep nrOfWorkers s a s') : QuietInv s' := by
  have pool := inv.pool.step step
  have quiet := inv.quiet
  cases step with
  | act a sys makes allows stepped =>
      refine ⟨pool, fun t => ?_⟩
      by_cases outside : s.pc t = .outside
      · rw [show ({ s with sys := sys, list := s.listAfter a } : PoolState).pc t = .outside from outside]
        trivial
      · exact (quiet t).kept inv.pool (PoolState.spares_act allows outside) sleeps stepped rfl
          fun p _ empty => s.listAfter_nil empty
  | newRef w t u d address s₁ on pc new => exact inv.creates on new pool trivial
  | poolNew w t p excess d on pc fresh =>
      refine inv.goes pool rfl rfl (fun _ _ => rfl) (fun q _ empty => ?_) trivial
      by_cases same : q = p <;> simp [same, empty]
  | made w t u address p i n d nr affine s₁ on pc domain new => exact inv.creates on new pool trivial
  | skipped w t address p i n pc =>
      exact inv.goes pool rfl rfl (fun _ _ => rfl) (fun _ _ empty => empty) trivial
  | linked w t u p i n pc =>
      have fits : (PoolPc.linking p i n u).Fits s := pc ▸ inv.pool.fits t
      refine inv.goes pool rfl rfl (fun _ _ => rfl) (fun q filled empty => ?_) trivial
      have other : q ≠ p := by
        rintro rfl
        have notYet := fits.1.2
        simp [filled] at notYet
      simpa [other] using empty
  | posted w t u pc sys on before stepped =>
      refine inv.calls pool on stepped rfl rfl rfl ?_
      rcases before with ⟨_, rfl⟩ | ⟨p, i, n, _, rfl⟩ <;> trivial
  | filled w t p i n pc =>
      exact inv.goes pool rfl rfl (fun _ _ => rfl) (fun _ _ empty => empty) trivial
  | poolWait w t p on code pc filled =>
      refine inv.goes pool rfl rfl (fun v other => ?_) (fun _ _ empty => empty) ⟨fun n => ?_, ?_⟩
      · exact Function.update_of_ne other _ _
      · simp [PoolState.setPc]
      · exact .of_user code
  | empty w t p rv pc empty =>
      have before : (PoolPc.looking p rv).Quiet s t := pc ▸ quiet t
      exact inv.goes pool rfl rfl (fun _ _ => rfl) (fun _ _ empty => empty)
        ⟨before.1, before.2, empty⟩
  | first w t v p rv rest pc first =>
      have before : (PoolPc.looking p rv).Quiet s t := pc ▸ quiet t
      exact inv.goes pool rfl rfl (fun _ _ => rfl) (fun _ _ empty => empty) before
  | join w n t v u p rv d sys on pc domain at_ stepped =>
      have before : (PoolPc.joining p v rv).Quiet s t := pc ▸ quiet t
      refine inv.calls pool on stepped rfl rfl rfl ⟨⟨n, rfl⟩, ?_, fun _ k => ?_⟩
      · rcases inv.pool.sys.threadWait_outcome on stepped with ⟨_, na, _, same⟩ | ⟨_, ⟨saved, frames⟩, _⟩
        · refine .inr ⟨⟨_, na⟩, fun f rest frames => ?_⟩
          exact before.2 f rest (same ▸ frames)
        · exact .inl ⟨_, _, u, frames, rfl, rfl⟩
      · refine Eq.trans ?_ (before.1 k)
        cases inv.pool.sys.interruptStep stepped with
        | calm _ interrupts _ =>
            apply interrupts
            rintro ⟨_, _, _, _, subscribes, _⟩
            cases subscribes
  | interrupted w t p e rv pc result =>
      exact inv.goes pool rfl rfl (fun _ _ => rfl) (fun _ _ empty => empty) trivial
  | goesOn w t p e rv r rv' pc result notIntr =>
      have before : (PoolPc.joined p e rv).Quiet s t := pc ▸ quiet t
      refine inv.goes pool rfl rfl (fun _ _ => rfl) (fun _ _ empty => empty) (before.2.2 ?_)
      simpa [result] using notIntr
  | slept w t p rv code pc =>
      have before : (PoolPc.sleeping p rv).Quiet s t := pc ▸ quiet t
      exact inv.goes pool rfl rfl (fun _ _ => rfl) (fun _ _ empty => empty) ⟨before, .of_user code⟩
  | wait w n t u v sys on pc made at_ stepped => exact inv.calls pool on stepped rfl rfl rfl trivial
  | waited w t u e rv pc result =>
      exact inv.goes pool rfl rfl (fun _ _ => rfl) (fun _ _ empty => empty) trivial
  | left w t pc => exact inv.goes pool rfl rfl (fun _ _ => rfl) (fun _ _ empty => empty) trivial

/-- In every run in which no sleeping call that `tc_sleep` makes for `tc_thread_pool_wait` is
interrupted, the latter returns `RV_OK` only if no signal has interrupted its thread since it was
called, and the list of the pool is empty. -/
theorem pool_wait_reports {workers : Nat} {domainOf : WorkerId → DomainId}
    (reached : PoolReachable nrOfWorkers PoolState.sleepsOn workers domainOf s) :
    ∀ t p, s.pc t = .returns p .ok →
      (∀ n, s.sys.interrupts (.sub t n) = s.since t n) ∧ s.list p = [] := by
  have initial : QuietInv (.initial workers domainOf) := ⟨.initial workers domainOf, fun _ => trivial⟩
  have inv : QuietInv s := Transition.Run.invariant reached QuietInv initial fun inv sleeps stepped =>
    inv.step sleeps (PoolState.step_cases stepped)
  intro t p pc
  have quiet : (PoolPc.returns p .ok).Quiet s t := pc ▸ inv.quiet t
  exact ⟨quiet.1, quiet.2.2⟩

set_option maxRecDepth 20000 in
/-- Main thread 1 waits for the pool, and its thread exits. -/
theorem pool_wait_reports_ok : ∃ s : PoolState,
    PoolReachable (fun _ => 2) PoolState.sleepsOn 2 (fun _ => 0) s ∧ s.pc 1 = .returns 0 .ok ∧
      s.enqueued = [(0, 2)] ∧ s.sys.interrupts (.sub 1 0) = s.since 1 0 := by
  obtain ⟨s, run, shown⟩ := Transition.exists_run
    (Transition.guarded (PoolState.step fun _ => 2) PoolState.sleepsOn) (.initial 2 fun _ => 0)
    [.act (.user 1 (.subscribe 0 0)), .poolNew 1 0 (-1) 0, .make 1 (some 2) 7, .link 1, .post 1,
      .fill 1, .poolWait 1 0, .look 1, .join 1 0, .act (.advance 1), .act (.leave 1),
      .act (.user 0 (.yield 0)), .act (.advance 0), .act (.advance 0), .act (.leave 0),
      .act (.runImmediate 0 .own), .act (.enter 0), .act (.user 0 .dieUnlink), .act (.die 0),
      .act (.die 0), .act (.die 0), .act (.leave 0), .act (.runImmediate 1 .own), .act (.enter 1),
      .act (.advance 1), .joined 1, .act (.user 1 (.yield 1)), .act (.advance 1), .act (.advance 1),
      .act (.leave 1), .act (.runImmediate 1 .own), .act (.enter 1), .act (.advance 1), .slept 1,
      .look 1]
    (fun s => s.pc 1 = .returns 0 .ok ∧ s.enqueued = [(0, 2)]) (by decide)
  have reached : PoolReachable (fun _ => 2) PoolState.sleepsOn 2 (fun _ => 0) s := run.of_guarded
  obtain ⟨pc, enqueued⟩ := of_decide_eq_true shown
  exact ⟨s, reached, pc, enqueued, (pool_wait_reports reached 1 0 pc).1 0⟩

set_option maxRecDepth 20000 in
/-- The signal is fired after the thread wait, and interrupts `tc_sched_yield` in `tc_sleep`. -/
theorem pool_wait_not_reports : ∃ s : PoolState,
    PoolReachable (fun _ => 2) (fun _ _ => true) 2 (fun _ => 0) s ∧ s.pc 1 = .returns 0 .ok ∧
      s.since 1 0 = 0 ∧ s.sys.interrupts (.sub 1 0) = 1 ∧ s.sys.result (.auto 1 1) = some .intr := by
  obtain ⟨s, run, shown⟩ := Transition.exists_run (PoolState.step fun _ => 2) (.initial 2 fun _ => 0)
    [.act (.user 1 (.subscribe 0 0)), .poolNew 1 0 (-1) 0, .make 1 (some 2) 7, .link 1, .post 1,
      .fill 1, .poolWait 1 0, .look 1, .join 1 0, .act (.advance 1), .act (.leave 1),
      .act (.user 0 (.yield 0)), .act (.advance 0), .act (.advance 0), .act (.leave 0),
      .act (.runImmediate 0 .own), .act (.enter 0), .act (.user 0 .dieUnlink), .act (.die 0),
      .act (.die 0), .act (.die 0), .act (.leave 0), .act (.runImmediate 0 .own), .act (.enter 0),
      .act (.advance 0), .act (.runImmediate 1 .own), .act (.enter 1), .act (.advance 1), .joined 1,
      .act (.user 0 (.fire 0)), .act (.user 1 (.yield 1)), .act (.advance 1), .act (.advance 1),
      .act (.leave 1), .act (.runImmediate 1 .own), .act (.enter 1), .act (.advance 1), .slept 1,
      .look 1]
    (fun s => s.pc 1 = .returns 0 .ok ∧ s.since 1 0 = 0 ∧ s.sys.interrupts (.sub 1 0) = 1 ∧
      s.sys.result (.auto 1 1) = some .intr) (by decide)
  exact ⟨s, run.mono fun _ _ _ => rfl, of_decide_eq_true shown⟩

end Invariant

end Libtcr
