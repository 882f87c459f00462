import Libtcr.AioResults
import Libtcr.WaitEvent

/-! `tc_aio_wait` and `handle_aio_event`: the thread stores `notify` before it tests the flag of
its slot, the worker sets the flag before it reads `notify`. No completion goes unnoticed. -/

set_option autoImplicit false

namespace Libtcr

open State

/-- A thread that rests on its queue for the request of slot `i` has found it pending, or
`handle_aio_event` has yet to wake the queue. -/
def AioAsleep (aioWq : Tid → Nat) (s : AioState) (u : Tid) : Prop :=
  ∀ ret i rv e, s.pc u = .waiting ret i rv e → s.notify u i = some (aioWq u) ∧
    ∀ f ∈ s.sys.frames u, f.e = e → f.call = .cond (aioWq u) ∧
      (f.pc.decided = true → s.sys.el e = some (.waiters (.user (aioWq u))) →
        s.flag u i = .pending ∨ ∃ w, s.handling w = some (u, i))

structure AioWakeInv (aioWq : Tid → Nat) (s : AioState) : Prop where
  sys : SystemInv s.sys
  asleep : ∀ u, AioAsleep aioWq s u

section Steps

variable {aioWq : Tid → Nat} {s s' : AioState} {a : Action} {w : WorkerId} {t u : Tid}

private theorem called_before {s s' : State} (inv : SystemInv s) (done : s.act a = some (.ok s'))
    (noCall : ∀ w op, a = .user w op → s.mode w ≠ .thread u) {f : Frame}
    (member : f ∈ s'.frames u) : ∃ g ∈ s.frames u, g.e = f.e ∧ g.call = f.call := by
  cases State.act_callStep inv done u with
  | idle _ _ calls _ => exact ⟨f, calls.1 ▸ member, rfl, rfl⟩
  | entered w g rest _ _ frames after _ _ _ =>
      rw [after] at member
      rcases List.mem_cons.mp member with rfl | below
      · exact ⟨g, frames ▸ .head _, rfl, rfl⟩
      · exact ⟨f, frames ▸ .tail _ below, rfl, rfl⟩
  | user w op _ on _ _ => exact absurd on (noCall w op rfl)
  | moved w g h rest _ _ _ _ frames after event call _ _ _ =>
      rw [after] at member
      rcases List.mem_cons.mp member with rfl | below
      · exact ⟨g, frames ▸ .head _, event.symm, call.symm⟩
      · exact ⟨f, frames ▸ .tail _ below, rfl, rfl⟩
  | returned w g rest rv _ _ _ _ frames after _ _ _ _ _ =>
      exact ⟨f, frames ▸ .tail _ (after ▸ member), rfl, rfl⟩

theorem AioAsleep.act (asleep : AioAsleep aioWq s u) (inv : SystemInv s.sys)
    (done : s.sys.act a = some (.ok s'.sys)) (pc : s'.pc u = s.pc u) (flag : s'.flag u = s.flag u)
    (notify : s'.notify u = s.notify u)
    (noCall : ∀ w op, a = .user w op → s.sys.mode w ≠ .thread u)
    (condition : ∀ ret i rv e w value f rest, s.pc u = .waiting ret i rv e →
      a = .condition w value → s.sys.mode w = .thread u → s.sys.frames u = f :: rest → f.e = e →
      value = decide (s.flag u i ≠ .pending))
    (handling : ∀ w i, s.handling w = some (u, i) → s'.handling w = some (u, i) ∨
      a.wakesAll = s.notify u i) : AioAsleep aioWq s' u := by
  intro ret i rv e waiting
  rw [pc] at waiting
  obtain ⟨notified, frames⟩ := asleep ret i rv e waiting
  refine ⟨by rw [notify, notified], fun f member event => ?_⟩
  obtain ⟨g, before, same, called⟩ := called_before inv done noCall member
  have call : f.call = .cond (aioWq u) := by
    rw [← called]
    exact (frames g before (same.trans event)).1
  refine ⟨call, fun decided rests => ?_⟩
  rw [flag]
  rcases decided_before inv done member call decided with
    ⟨g, old, same, _, was⟩ | ⟨w, g, rest, rfl, on, top, same, _, _⟩
  · rw [← event, ← same] at rests
    have rested := rested_before inv (act_ok done) old was rests
    rw [same, event] at rested
    rcases (frames g old (same.trans event)).2 was rested with pending | ⟨w, handled⟩
    · exact .inl pending
    · rcases handling w i handled with stays | wakes
      · exact .inr ⟨w, stays⟩
      · exact absurd rests (wakesAll_empties inv (act_ok done) (wakes.trans notified))
  · have tested := condition ret i rv e w false g rest waiting rfl on top (same.trans event)
    exact .inl (by simpa using tested)

theorem AioAsleep.same (asleep : AioAsleep aioWq s u) (frames : s'.sys.frames u = s.sys.frames u)
    (el : s'.sys.el = s.sys.el) (pc : s'.pc u = s.pc u) (flag : s'.flag u = s.flag u)
    (notify : s'.notify u = s.notify u)
    (handling : ∀ w i, s.handling w = some (u, i) → s.notify u i ≠ none →
      s'.handling w = some (u, i)) : AioAsleep aioWq s' u := by
  intro ret i rv e waiting
  rw [pc] at waiting
  obtain ⟨notified, known⟩ := asleep ret i rv e waiting
  rw [notify, frames, el, flag]
  refine ⟨notified, fun f member event => ?_⟩
  obtain ⟨call, decided⟩ := known f member event
  refine ⟨call, fun was rests => ?_⟩
  rcases decided was rests with pending | ⟨w, handled⟩
  · exact .inl pending
  · exact .inr ⟨w, handling w i handled (by simp [notified])⟩

theorem AioAsleep.elsewhere (away : ∀ ret i rv e, s.pc u ≠ .waiting ret i rv e) :
    AioAsleep aioWq s u := by
  intro ret i rv e waiting
  exact absurd waiting (away ret i rv e)

theorem AioWakeInv.fault (inv : AioWakeInv aioWq s) (fault : Fault) :
    AioWakeInv aioWq { s with sys := { s.sys with fault := some fault } } where
  sys := inv.sys.fault _
  asleep u := (inv.asleep u).same rfl rfl rfl rfl rfl fun _ _ handled _ => handled

private theorem waitReturns_sys {rv : Int} {ret : AioReturn} :
    (s.waitReturns t rv ret).sys = s.sys ∧
    (s.waitReturns t rv ret).handling = s.handling := by
  cases ret with
  | caller => exact ⟨rfl, rfl⟩
  | die => exact ⟨rfl, rfl⟩
  | get r =>
      simp only [AioState.waitReturns]
      split <;> exact ⟨rfl, rfl⟩
  | read size i =>
      simp only [AioState.waitReturns]
      split_ifs <;> exact ⟨rfl, rfl⟩
  | write => exact ⟨rfl, rfl⟩

private theorem waitReturns_awake {i : Nat} {rv rv' : Int} {ret ret' : AioReturn} {e : EventId} :
    (s.waitReturns t rv ret).pc t ≠ .waiting ret' i rv' e := by
  cases ret with
  | caller => simp [AioState.waitReturns, AioState.returns, AioState.setPc]
  | die => simp [AioState.waitReturns, AioState.setPc]
  | get r =>
      simp only [AioState.waitReturns]
      split <;> simp [AioState.returns, AioState.setPc]
  | read size j =>
      simp only [AioState.waitReturns]
      split_ifs <;> simp [AioState.returns, AioState.setPc]
  | write => simp [AioState.waitReturns, AioState.returns, AioState.setPc]

private theorem submitReturns_awake {i j : Nat} {rv rv' : Int} {r : AioRequest} {ret : AioReturn}
    {e : EventId} : (s.submitReturns t i rv r).pc t ≠ .waiting ret j rv' e := by
  cases r with
  | submitWrite _ => simp [AioState.submitReturns, AioState.returns, AioState.setPc]
  | submitSync _ => simp [AioState.submitReturns, AioState.returns, AioState.setPc]
  | read size =>
      simp only [AioState.submitReturns]
      split <;> simp [AioState.returns, AioState.setPc]
  | write =>
      simp only [AioState.submitReturns]
      split <;> simp [AioState.returns, AioState.setPc]

private theorem submitReturns_sys {i : Nat} {rv : Int} {r : AioRequest} :
    (s.submitReturns t i rv r).sys = s.sys ∧ (s.submitReturns t i rv r).handling = s.handling := by
  cases r with
  | submitWrite _ => exact ⟨rfl, rfl⟩
  | submitSync _ => exact ⟨rfl, rfl⟩
  | read size =>
      simp only [AioState.submitReturns]
      split <;> exact ⟨rfl, rfl⟩
  | write =>
      simp only [AioState.submitReturns]
      split <;> exact ⟨rfl, rfl⟩

private theorem nextStep_sys {n : Nat} {submitted : Int}
    (stepped : s.nextStep aioWq w t n submitted = some s') : s'.handling = s.handling ∧
      (s'.sys = s.sys ∨ (∃ op, s.sys.act (.user w op) = some (.ok s'.sys)) ∨
        ∃ fault, s'.sys = { s.sys with fault := some fault }) := by
  have called : ∀ {op} {after : State → AioState}, s.call (.user w op) after = some s' →
      (∀ sys, (after sys).sys = sys ∧ (after sys).handling = s.handling) →
      s'.handling = s.handling ∧ (s'.sys = s.sys ∨
        (∃ op, s.sys.act (.user w op) = some (.ok s'.sys)) ∨
          ∃ fault, s'.sys = { s.sys with fault := some fault }) := by
    intro op after called same
    obtain ⟨sys, done, rfl⟩ | ⟨fault, _, rfl⟩ := State.call_cases called
    · rw [(same sys).1]
      exact ⟨(same sys).2, .inr (.inl ⟨op, done⟩)⟩
    · exact ⟨rfl, .inr (.inr ⟨fault, rfl⟩)⟩
  cases pc : s.pc t with
  | outside => simp [AioState.nextStep, pc] at stepped
  | dying => simp [AioState.nextStep, pc] at stepped
  | scan r i =>
      simp only [AioState.nextStep, pc] at stepped
      split_ifs at stepped <;> cases stepped <;> exact ⟨rfl, .inl rfl⟩
  | prepare r i =>
      simp only [AioState.nextStep, pc, Option.some.injEq] at stepped
      subst stepped
      exact ⟨rfl, .inl rfl⟩
  | submit r i =>
      simp only [AioState.nextStep, pc] at stepped
      split at stepped
      · cases stepped
        rw [submitReturns_sys.1, submitReturns_sys.2]
        exact ⟨rfl, .inl rfl⟩
      · split at stepped
        · refine called stepped fun sys => ?_
          rw [submitReturns_sys.1, submitReturns_sys.2]
          exact ⟨rfl, rfl⟩
        · cases stepped
          rw [submitReturns_sys.1, submitReturns_sys.2]
          exact ⟨rfl, .inl rfl⟩
  | wait ret i rv =>
      simp only [AioState.nextStep, pc] at stepped
      split at stepped
      · split at stepped
        · cases stepped
          exact ⟨rfl, .inl rfl⟩
        · exact called stepped fun sys => ⟨rfl, rfl⟩
      · cases stepped
        rw [waitReturns_sys.1, waitReturns_sys.2]
        exact ⟨rfl, .inl rfl⟩
  | waiting ret i rv e =>
      simp only [AioState.nextStep, pc] at stepped
      split at stepped
      · cases stepped
      · cases stepped
        exact ⟨rfl, .inl rfl⟩
  | waited ret i rv result =>
      simp only [AioState.nextStep, pc] at stepped
      split at stepped <;> cases stepped <;> exact ⟨rfl, .inl rfl⟩
  | freeing ret i rv result =>
      simp only [AioState.nextStep, pc, Option.some.injEq] at stepped
      subst stepped
      exact ⟨rfl, .inl rfl⟩

private theorem waitEvent_frame {s s' : State} {n k : Nat}
    (done : s.act (.user w (.waitEvent n k)) = some (.ok s')) (on : s.mode w = .thread t) :
    s'.frames t = ⟨.cond k, .auto t n, .test0, s.eventStack t⟩ :: s.frames t := by
  cases act_ok done with
  | user _ u _ _ on' _ effect =>
      obtain rfl := Mode.thread.inj (on'.symm.trans on)
      cases effect with
      | waitEvent _ _ _ => simp [pushFrame, tcEventInit]

private theorem nextStep_waits {ret : AioReturn} {i n : Nat} {rv submitted : Int} {e : EventId}
    (stepped : s.nextStep aioWq w t n submitted = some s')
    (waiting : s'.pc t = .waiting ret i rv e) :
    e = .auto t n ∧ s'.notify t i = some (aioWq t) ∧
      s.sys.act (.user w (.waitEvent n (aioWq t))) = some (.ok s'.sys) := by
  cases pc : s.pc t with
  | outside => simp [AioState.nextStep, pc] at stepped
  | dying => simp [AioState.nextStep, pc] at stepped
  | scan r i =>
      simp only [AioState.nextStep, pc] at stepped
      split_ifs at stepped <;> cases stepped <;> simp [AioState.setPc] at waiting
  | prepare r i =>
      simp only [AioState.nextStep, pc, Option.some.injEq] at stepped
      subst stepped
      simp [AioState.setPc] at waiting
  | submit r i =>
      simp only [AioState.nextStep, pc] at stepped
      split at stepped
      · cases stepped
        exact absurd waiting submitReturns_awake
      · split at stepped
        · obtain ⟨sys, _, rfl⟩ | ⟨fault, _, rfl⟩ := State.call_cases stepped
          · exact absurd waiting submitReturns_awake
          · simp [pc] at waiting
        · cases stepped
          exact absurd waiting submitReturns_awake
  | wait ret' j rv' =>
      simp only [AioState.nextStep, pc] at stepped
      split at stepped
      · split at stepped
        · cases stepped
          simp [AioState.setPc] at waiting
        · obtain ⟨sys, done, rfl⟩ | ⟨fault, _, rfl⟩ := State.call_cases stepped
          · simp only [AioState.setPc, Function.update_self, AioPc.waiting.injEq] at waiting
            obtain ⟨_, rfl, _, rfl⟩ := waiting
            refine ⟨rfl, ?_, done⟩
            simp [AioState.setPc, AioState.setNotify]
          · simp [pc] at waiting
      · cases stepped
        exact absurd waiting waitReturns_awake
  | waiting ret' j rv' e' =>
      simp only [AioState.nextStep, pc] at stepped
      split at stepped
      · cases stepped
      · cases stepped
        simp [AioState.setPc] at waiting
  | waited ret' j rv' result =>
      simp only [AioState.nextStep, pc] at stepped
      split at stepped <;> cases stepped <;> simp [AioState.setPc] at waiting
  | freeing ret' j rv' result =>
      simp only [AioState.nextStep, pc, Option.some.injEq] at stepped
      subst stepped
      simp [AioState.setPc] at waiting

theorem AioWakeInv.next (inv : AioWakeInv aioWq s) {n : Nat} {submitted : Int}
    (on : s.sys.mode w = .thread t) (stepped : s.nextStep aioWq w t n submitted = some s') :
    AioWakeInv aioWq s' := by
  obtain ⟨handling, changes⟩ := nextStep_sys stepped
  have sys : SystemInv s'.sys := by
    rcases changes with same | ⟨op, done⟩ | ⟨fault, same⟩
    · exact same ▸ inv.sys
    · exact (act_ok done).systemInv inv.sys
    · exact same ▸ inv.sys.fault _
  refine ⟨sys, fun u => ?_⟩
  by_cases own : u = t
  · subst own
    intro ret i rv e waiting
    obtain ⟨rfl, notify, done⟩ := nextStep_waits stepped waiting
    refine ⟨notify, fun f member event => ?_⟩
    -- the new call has not tested its condition
    have new := waitEvent_frame done on
    have same : f = ⟨.cond (aioWq u), .auto u n, .test0, s.sys.eventStack u⟩ := by
      refine (sys.thread u).frame_unique ?_ ?_ event
      · simpa [State.view] using member
      · simp [State.view, new]
    exact ⟨by rw [same], by simp [same, Pc.decided]⟩
  · have view : s'.view u none (fun _ => []) = s.view u none fun _ => [] :=
      nextStep_other stepped own
    have pc : s'.pc u = s.pc u := congrArg AioView.pc view
    have flag : s'.flag u = s.flag u := congrArg AioView.flag view
    have notify : s'.notify u = s.notify u := congrArg AioView.notify view
    rcases changes with same | ⟨op, done⟩ | ⟨fault, same⟩
    · exact (inv.asleep u).same (by rw [same]) (by rw [same]) pc flag notify fun w' i handled _ =>
        handling ▸ handled
    · refine (inv.asleep u).act inv.sys done pc flag notify ?_ ?_ fun w' i handled =>
        .inl (handling ▸ handled)
      · intro w' op' same on'
        obtain ⟨rfl, _⟩ := Action.user.inj same
        exact own (Mode.thread.inj (on'.symm.trans on))
      · intro _ _ _ _ _ _ _ _ _ same
        cases same
    · exact (inv.asleep u).same (by rw [same]) (by rw [same]; rfl) pc flag notify
        fun w' i handled _ => handling ▸ handled

theorem AioWakeInv.begin (inv : AioWakeInv aioWq s) {op : AioOp} (on : s.sys.mode w = .thread t)
    (stepped : s.beginStep w t op = some s') : AioWakeInv aioWq s' := by
  have moved : ∀ {pc : AioPc}, (∀ ret i rv e, pc ≠ .waiting ret i rv e) →
      AioWakeInv aioWq (s.setPc t pc) := by
    intro pc awake
    refine ⟨inv.sys, fun u => ?_⟩
    by_cases own : u = t
    · subst own
      exact .elsewhere (by simpa [AioState.setPc] using awake)
    · exact (inv.asleep u).same rfl rfl (Function.update_of_ne own _ _) rfl rfl
        fun _ _ handled _ => handled
  cases op with
  | wait =>
      cases stepped
      exact moved (by simp)
  | request r =>
      cases stepped
      exact moved (by simp)
  | die =>
      simp only [AioState.beginStep] at stepped
      obtain ⟨sys, done, rfl⟩ | ⟨fault, _, rfl⟩ := State.call_cases stepped
      · refine ⟨(act_ok done).systemInv inv.sys, fun u => ?_⟩
        by_cases own : u = t
        · subst own
          exact .elsewhere (by simp [AioState.setPc])
        · refine (inv.asleep u).act inv.sys done (Function.update_of_ne own _ _) rfl rfl ?_ ?_
            fun _ _ handled => .inl handled
          · intro w' op' same on'
            obtain ⟨rfl, _⟩ := Action.user.inj same
            exact own (Mode.thread.inj (on'.symm.trans on))
          · intro _ _ _ _ _ _ _ _ _ same
            cases same
      · exact inv.fault fault

theorem AioWakeInv.system (inv : AioWakeInv aioWq s) {sys : State} (allowed : s.allows a = true)
    (done : s.sys.act a = some (.ok sys)) : AioWakeInv aioWq { s with sys := sys } where
  sys := (act_ok done).systemInv inv.sys
  asleep u := by
    by_cases awake : ∀ ret i rv e, s.pc u ≠ .waiting ret i rv e
    · exact .elsewhere awake
    · simp only [ne_eq, not_forall, not_not] at awake
      obtain ⟨ret, i, rv, e, pc⟩ := awake
      refine (inv.asleep u).act inv.sys done rfl rfl rfl ?_ ?_ fun _ _ handled => .inl handled
      · intro w op equal on
        simp [equal, AioState.allows, AioState.outside, on, pc] at allowed
      · intro ret' i' rv' e' w value f rest pc' equal on frames _
        simp only [equal, AioState.allows, on, pc', frames, Bool.and_eq_true,
          decide_eq_true_eq] at allowed
        exact allowed.2

theorem AioWakeInv.complete (inv : AioWakeInv aioWq s) {i : Nat} {res res2 : Int}
    (idle : s.handling w = none) : AioWakeInv aioWq (s.complete w t i res res2) := by
  unfold AioState.complete
  split
  · exact inv.fault _
  · refine ⟨inv.sys, fun u ret j rv e waiting => ?_⟩
    obtain ⟨notified, known⟩ := inv.asleep u ret j rv e waiting
    refine ⟨notified, fun f member event => ?_⟩
    obtain ⟨call, decided⟩ := known f member event
    refine ⟨call, fun was rests => ?_⟩
    by_cases same : u = t ∧ j = i
    · obtain ⟨rfl, rfl⟩ := same
      exact .inr ⟨w, by simp⟩
    · rcases decided was rests with pending | ⟨w', handled⟩
      · refine .inl ?_
        simpa [AioState.setOwned, setFlag_flag, same, AioState.setRes] using pending
      · have other : w' ≠ w := by
          intro equal
          rw [equal, idle] at handled
          cases handled
        exact .inr ⟨w', by simpa [other] using handled⟩

theorem AioWakeInv.notify (inv : AioWakeInv aioWq s) {i : Nat}
    (handled : s.handling w = some (t, i)) (stepped : s.step aioWq (.notify w) = some s') :
    AioWakeInv aioWq s' := by
  have others : ∀ {u : Tid} {w' : WorkerId} {j : Nat}, s.handling w' = some (u, j) →
      ¬ (u = t ∧ j = i) → Function.update s.handling w none w' = some (u, j) := by
    intro u w' j kept other
    have apart : w' ≠ w := by
      intro equal
      rw [equal, handled] at kept
      cases kept
      exact other ⟨rfl, rfl⟩
    rw [Function.update_of_ne apart]
    exact kept
  simp only [AioState.step, handled] at stepped
  split at stepped
  · split at stepped
    · cases stepped
      exact inv.fault _
    · split at stepped
      · next k notify =>
        obtain ⟨sys, done, rfl⟩ | ⟨fault, _, rfl⟩ := State.call_cases stepped
        · refine ⟨(act_ok done).systemInv inv.sys, fun u => ?_⟩
          refine (inv.asleep u).act inv.sys done rfl rfl rfl ?_ ?_ fun w' j kept => ?_
          · intro _ _ same
            cases same
          · intro _ _ _ _ _ _ _ _ _ same
            cases same
          · by_cases same : u = t ∧ j = i
            · obtain ⟨rfl, rfl⟩ := same
              exact .inr notify.symm
            · exact .inl (others kept same)
        · exact inv.fault fault
      · next notify =>
        cases stepped
        refine ⟨inv.sys, fun u => (inv.asleep u).same rfl rfl rfl rfl rfl fun w' j kept some => ?_⟩
        refine others kept ?_
        rintro ⟨rfl, rfl⟩
        exact some notify
  · cases stepped

theorem AioWakeInv.step (inv : AioWakeInv aioWq s) {l : AioAction}
    (stepped : s.step aioWq l = some s') : AioWakeInv aioWq s' := by
  cases l with
  | system a =>
      simp only [AioState.step] at stepped
      split at stepped
      · next allowed =>
        obtain ⟨sys, moved, rfl⟩ := Option.map_eq_some_iff.mp stepped
        rcases step_act moved with done | ⟨fault, _, rfl⟩
        · exact inv.system allowed done
        · exact inv.fault fault
      · cases stepped
  | begin w op =>
      simp only [AioState.step] at stepped
      split at stepped
      · next t on =>
        split at stepped
        · exact inv.begin on stepped
        · cases stepped
      · cases stepped
  | next w n submitted =>
      simp only [AioState.step] at stepped
      split at stepped
      · next t on =>
        split at stepped
        · exact inv.next on stepped
        · cases stepped
      · cases stepped
  | completed w t i res res2 =>
      simp only [AioState.step] at stepped
      split at stepped
      · next guard =>
        cases stepped
        exact inv.complete guard.2.2.1
      · cases stepped
  | notify w =>
      cases handled : s.handling w with
      | none => simp [AioState.step, handled] at stepped
      | some x => exact inv.notify handled stepped

theorem AioWakeInv.initial (workers : Nat) (domainOf : WorkerId → DomainId) :
    AioWakeInv aioWq (.initial workers domainOf) where
  sys := .initial workers domainOf
  asleep u := .elsewhere (by simp [AioState.initial])

end Steps

/-- A thread that sleeps in `tc_aio_wait` although its request is done is on its way to run, or
a worker in `handle_aio_event` is about to wake the queue of the thread. -/
theorem aio_completion_noticed {aioWq : Tid → Nat} {workers : Nat} {domainOf : WorkerId → DomainId}
    {s : AioState} (run : AioRun aioWq workers domainOf Transition.always s) {t : Tid}
    {ret : AioReturn} {i : Nat} {rv : Int} {f : Frame} (waits : s.pc t = .waiting ret i rv f.e)
    (member : f ∈ s.sys.frames t) (asleep : f.pc = .asleep) (done : s.flag t i ≠ .pending) :
    (s.sys.el f.e = some .immediate ∨ s.sys.el f.e = some (.pending t) ∨
        s.sys.running t = true) ∨
      ∃ w, s.handling w = some (t, i) ∧ s.notify t i = some (aioWq t) := by
  have inv : AioWakeInv aioWq s := run.invariant (AioWakeInv aioWq) (.initial workers domainOf)
    fun inv _ stepped => inv.step stepped
  obtain ⟨notify, known⟩ := inv.asleep t ret i rv f.e waits
  obtain ⟨call, decided⟩ := known f member rfl
  rcases inv.sys.asleep_cond member call asleep with rests | woken
  · rcases decided (by simp [asleep, Pc.decided]) rests with pending | ⟨w, handled⟩
    · exact absurd pending done
    · exact .inr ⟨w, handled, notify⟩
  · exact .inl woken

/-- The thread sleeps, and the worker has handled the completion of its read. -/
def aioHandled : List AioAction :=
  aioStarts ++ aioSubmits (.read 512) ++
    [.next 0 8 0, .system (.condition 0 false), .system (.advance 0), .system (.condition 0 false),
      .system (.advance 0), .system (.leave 0), .completed 0 1 0 512 0]

def sleepsHandled (s : AioState) : Bool :=
  decide (s.pc 1 = .waiting (.read 512 0) 0 0 (.auto 1 8) ∧
    s.sys.frames 1 = [⟨.cond 101, .auto 1 8, .asleep, none⟩] ∧ s.flag 1 0 ≠ .pending ∧
    s.sys.el (.auto 1 8) = some (.waiters (.user 101)) ∧ s.sys.running 1 = false)

set_option maxRecDepth 20000 in
theorem aio_completion_noticed_read :
    ∃ s, AioRun (fun t => 100 + t) 1 (fun _ => 0) Transition.always s ∧ sleepsHandled s = true ∧
      ∃ w, s.handling w = some (1, 0) ∧ s.notify 1 0 = some 101 := by
  obtain ⟨s, run, sleeps⟩ := Transition.exists_run (AioState.step fun t => 100 + t)
    (.initial 1 fun _ => 0) aioHandled sleepsHandled (by decide)
  have shown := sleeps
  simp only [sleepsHandled, decide_eq_true_eq] at shown
  obtain ⟨waits, frames, done, rests, stopped⟩ := shown
  have noticed := aio_completion_noticed run (f := ⟨.cond 101, .auto 1 8, .asleep, none⟩) waits
    (by simp [frames]) rfl done
  refine ⟨s, run, sleeps, ?_⟩
  simpa [rests, stopped] using noticed

end Libtcr
