import Libtcr.Aio
import Libtcr.ExitProperties

/-! The slots of a thread: none is recycled while the kernel owns it. -/

set_option autoImplicit false

namespace Libtcr

open State

/-- Slot `i` of thread `t` has been handed out by `_tc_aio_get_aio_data`, and is not yet
submitted. -/
def AioState.HandedOut (s : AioState) (t : Tid) (i : Nat) : Prop :=
  ∃ r, s.pc t = .prepare r i ∨ s.pc t = .submit r i

/-- A slot that the kernel owns is not marked as free, nor handed out, nor is its thread
freed. -/
def AioState.SlotsKept (s : AioState) : Prop :=
  ∀ t i, 0 < s.owned t i → s.flag t i ≠ .free ∧ ¬ s.HandedOut t i ∧ s.sys.status t ≠ .dead

/-- The request of a slot has been completed when `tc_aio_wait` frees the slot after an
interrupted wait. -/
def AioState.freesCompleted (s : AioState) : AioAction → Bool
  | .next w _ _ =>
    match s.sys.mode w with
    | .thread t =>
      match s.pc t with
      | .freeing _ i _ result => result = .ok || s.owned t i = 0
      | _ => true
    | _ => true
  | _ => true

/-- The same, and the request has been completed when `tc_die` leaves a slot out because of its
`notify`. -/
def AioState.awaits (s : AioState) : AioAction → Bool
  | .next w _ _ =>
    match s.sys.mode w with
    | .thread t =>
      match s.pc t with
      | .freeing _ i _ result => result = .ok || s.owned t i = 0
      | .wait .die i _ => s.notify t i = none || s.owned t i = 0
      | _ => true
    | _ => true
  | _ => true

/-! ## The wait of `tc_aio_wait` -/

/-- Thread `t` waits with event `e` until the flag of its slot is not 0, or has returned from
that wait. -/
def InAioWait (s : State) (t : Tid) (e : EventId) (flag : AioFlag) : Prop :=
  (∃ f rest k, s.frames t = f :: rest ∧ f.e = e ∧ f.call = .cond k ∧
      (f.pc = .holds → flag ≠ .pending)) ∨
    ∃ rv, s.result e = some rv ∧ (rv = .ok → flag ≠ .pending)

section Wait

variable {s s' : State} {a : Action} {t : Tid} {e : EventId} {n : Nat} {flag : AioFlag}

/-- The thread stays in its wait unless the condition is true or it is interrupted. -/
theorem InAioWait.act (wait : InAioWait s t e flag) (inv : SystemInv s) (auto : e = .auto t n)
    (running : s.fault = none) (done : s.act a = some (.ok s'))
    (noCall : ∀ w op, a = .user w op → s.mode w ≠ .thread t)
    (condition : ∀ w value f rest, a = .condition w value → s.mode w = .thread t →
      s.frames t = f :: rest → f.e = e → value = decide (flag ≠ .pending)) :
    InAioWait s' t e flag := by
  rcases wait with ⟨f, rest, k, frames, event, call, holds⟩ | ⟨rv, result, ok⟩
  · have tested : ∀ {w : WorkerId} {w' : WorkerId}, s.mode w = .thread t →
        a = .condition w' true → (a = .advance w ∨ ∃ value, a = .condition w value) →
        flag ≠ .pending := by
      intro w w' on equal by_
      subst equal
      obtain rfl : w' = w := by
        rcases by_ with other | ⟨value, other⟩
        · cases other
        · exact (Action.condition.inj other).1
      simpa using (condition w' true f rest rfl on frames event).symm
    cases act_callStep inv done t with
    | idle _ _ calls _ => exact .inl ⟨f, rest, k, calls.1.trans frames, event, call, holds⟩
    | entered w g rest' _ _ again after _ _ _ =>
        obtain ⟨rfl, rfl⟩ := List.cons.inj (frames.symm.trans again)
        exact .inl ⟨_, rest, k, after, event, call, by simp⟩
    | user w op _ on _ _ => exact absurd on (noCall w op rfl)
    | moved w g h rest' _ _ on by_ again after event' call' cond _ _ =>
        obtain ⟨rfl, rfl⟩ := List.cons.inj (frames.symm.trans again)
        refine .inl ⟨h, rest, k, after, event'.trans event, call'.trans call, fun held => ?_⟩
        have move := cond k call
        rw [held] at move
        generalize f.pc = p at move
        cases move with
        | isTrue w' => exact tested on rfl by_
    | returned w g rest' rv _ _ on by_ again after cond _ result _ _ =>
        obtain ⟨rfl, rfl⟩ := List.cons.inj (frames.symm.trans again)
        refine .inr ⟨rv, by simp [result, event], fun ok => ?_⟩
        have move := cond k call
        rw [ok] at move
        generalize before : f.pc = p at move
        cases move with
        | atOnce w' => exact tested on rfl by_
        | held w' => exact holds before
  · exact .inr ⟨rv, inv.result_stays (step_of_act running done) auto result, ok⟩

private theorem InAioWait.flag_done (wait : InAioWait s t e flag) : InAioWait s t e .done := by
  rcases wait with ⟨f, rest, k, frames, event, call, _⟩ | ⟨rv, result, _⟩
  · exact .inl ⟨f, rest, k, frames, event, call, by simp⟩
  · exact .inr ⟨rv, result, by simp⟩

theorem InAioWait.finished {rv : Rv} (wait : InAioWait s t e flag) (inv : SystemInv s)
    (result : s.result e = some rv) (ok : rv = .ok) : flag ≠ .pending := by
  rcases wait with ⟨f, rest, k, frames, event, _, _⟩ | ⟨rv', result', known⟩
  · have none := inv.result_none (t := t) (f := f) (by simp [frames])
    rw [event, result] at none
    cases none
  · obtain rfl := Option.some.inj (result.symm.trans result')
    exact known ok

end Wait

/-! ## `tc_die` -/

/-- `tc_die` has gone on after `tc_aio_wait`. -/
def Status.waited : Status → Bool
  | .settled | .announced | .exiting | .dead => true
  | _ => false

section Die

variable {s s' : State} {a : Action} {w : WorkerId} {t u : Tid}

theorem State.Effect.waits (effect : s.Effect a s') (inv : SystemInv s)
    (after : (s'.status t).waited = true) :
    (s.status t).waited = true ∨ ∃ w, a = .die w ∧ s.mode w = .thread t := by
  have own : (s'.status t).dying = true → (s.status t).waited = true ∨
      ∃ w, a = .die w ∧ s.mode w = .thread t := by
    intro dying
    rcases effect.dies inv dying with equal | ⟨w, on, ⟨_, unlinked⟩ | ⟨die, _⟩⟩
    · exact .inl (equal ▸ after)
    · simp [unlinked, Status.waited] at after
    · exact .inr ⟨w, die, on⟩
  cases effect.lifeStep inv (t := t) with
  | same status _ => exact .inl (status ▸ after)
  | made _ now => simp [now, Status.waited] at after
  | posted _ now _ => simp [now, Status.waited] at after
  | started _ now _ => simp [now, Status.waited] at after
  | unlinked _ now _ => simp [now, Status.waited] at after
  | settled _ now _ => exact own (by rw [now]; rfl)
  | announced _ now _ _ => exact own (by rw [now]; rfl)
  | exits _ now _ => exact own (by rw [now]; rfl)
  | freed before _ _ => exact .inl (by rw [before]; rfl)

end Die

/-! ## The invariant -/

def AioCall (s : AioState) (t : Tid) : Prop :=
  match s.pc t with
  | .waiting _ i _ e => (∃ n, e = .auto t n) ∧ InAioWait s.sys t e (s.flag t i)
  | .waited _ i _ result | .freeing _ i _ result => result = .ok → s.flag t i ≠ .pending
  | .prepare _ i => i < aioRequestsPerTcThread ∧ s.owned t i = 0
  | .submit _ i => i < aioRequestsPerTcThread ∧ s.owned t i = 0 ∧ s.flag t i = .pending
  | _ => True

def AioPc.passed : AioPc → Nat → Bool
  | .wait .die j _, i | .waiting .die j _ _, i | .waited .die j _ _, i | .freeing .die j _ _, i =>
    i < j
  | .dying, _ => true
  | _, _ => false

structure AioInv (s : AioState) : Prop where
  sys : SystemInv s.sys
  owned : ∀ t i, 0 < s.owned t i →
    s.owned t i = 1 ∧ s.flag t i = .pending ∧ i < aioRequestsPerTcThread
  call : ∀ t, AioCall s t
  dying : ∀ t, (s.sys.status t).waited = true → s.pc t = .dying

/-- The kernel owns no slot that `tc_die` has dealt with. -/
def AioState.Passed (s : AioState) : Prop :=
  ∀ t i, (s.pc t).passed i = true → s.owned t i = 0

private theorem AioInv.slotsKept {s : AioState} (inv : AioInv s) (passed : s.Passed) :
    s.SlotsKept := by
  intro t i owned
  refine ⟨?_, ?_, ?_⟩
  · simp [(inv.owned t i owned).2.1]
  · rintro ⟨r, prepare | submit⟩
    · have call := inv.call t
      simp only [AioCall, prepare] at call
      omega
    · have call := inv.call t
      simp only [AioCall, submit] at call
      omega
  · intro dead
    have dying := inv.dying t (by simp [dead, Status.waited])
    have none := passed t i (by simp [dying, AioPc.passed])
    omega

theorem AioInv.not_owned {s : AioState} (inv : AioInv s) {t : Tid} {i : Nat}
    (flag : s.flag t i ≠ .pending) : s.owned t i = 0 := by
  by_contra owned
  exact flag (inv.owned t i (Nat.pos_of_ne_zero owned)).2.1

section Steps

variable {s s' : AioState} {a : Action} {sys : State} {w : WorkerId} {t u : Tid} {i : Nat}

structure AioOwn (s s' : AioState) (t : Tid) : Prop where
  sys : SystemInv s'.sys
  pc : ∀ u, u ≠ t → s'.pc u = s.pc u
  flag : ∀ u, u ≠ t → s'.flag u = s.flag u
  owned : ∀ u, u ≠ t → s'.owned u = s.owned u
  waits : ∀ u n flag, u ≠ t → InAioWait s.sys u (.auto u n) flag →
    InAioWait s'.sys u (.auto u n) flag
  status : ∀ u, (s'.sys.status u).waited = true → (s.sys.status u).waited = true
  alive : s.pc t ≠ .dying

theorem AioOwn.inv (own : AioOwn s s' t) (inv : AioInv s) (call : AioCall s' t)
    (owned : ∀ i, 0 < s'.owned t i →
      s'.owned t i = 1 ∧ s'.flag t i = .pending ∧ i < aioRequestsPerTcThread) : AioInv s' where
  sys := own.sys
  owned u i positive := by
    by_cases same : u = t
    · subst same
      exact owned i positive
    · rw [own.owned u same] at positive ⊢
      rw [own.flag u same]
      exact inv.owned u i positive
  call u := by
    by_cases same : u = t
    · subst same
      exact call
    · have before := inv.call u
      unfold AioCall at *
      rw [own.pc u same, own.flag u same, own.owned u same]
      split at before
      · obtain ⟨⟨n, rfl⟩, wait⟩ := before
        exact ⟨⟨n, rfl⟩, own.waits u n _ same wait⟩
      all_goals exact before
  dying u after := by
    have before := inv.dying u (own.status u after)
    by_cases same : u = t
    · subst same
      exact absurd before own.alive
    · rw [own.pc u same, before]

theorem AioOwn.plain (inv : AioInv s) (same : s'.sys = s.sys) (alive : s.pc t ≠ .dying)
    (pc : ∀ u, u ≠ t → s'.pc u = s.pc u) (flag : ∀ u, u ≠ t → s'.flag u = s.flag u)
    (owned : ∀ u, u ≠ t → s'.owned u = s.owned u) : AioOwn s s' t where
  sys := same ▸ inv.sys
  pc := pc
  flag := flag
  owned := owned
  waits _ _ _ _ wait := same ▸ wait
  status _ after := same ▸ after
  alive := alive

theorem AioOwn.call {op : UserOp} (inv : AioInv s) (running : s.sys.fault = none)
    (on : s.sys.mode w = .thread t) (done : s.sys.act (.user w op) = some (.ok sys))
    (same : s'.sys = sys) (alive : s.pc t ≠ .dying) (pc : ∀ u, u ≠ t → s'.pc u = s.pc u)
    (flag : ∀ u, u ≠ t → s'.flag u = s.flag u) (owned : ∀ u, u ≠ t → s'.owned u = s.owned u) :
    AioOwn s s' t where
  sys := same ▸ (act_ok done).systemInv inv.sys
  pc := pc
  flag := flag
  owned := owned
  waits u n flag other wait := by
    rw [same]
    refine wait.act inv.sys rfl running done (fun w' op' equal on' => ?_) (fun _ _ _ _ equal => nomatch equal)
    obtain ⟨rfl, _⟩ := Action.user.inj equal
    exact other (Mode.thread.inj (on'.symm.trans on))
  status u after := by
    rw [same] at after
    rcases (act_ok done).waits inv.sys after with before | ⟨_, equal, _⟩
    · exact before
    · cases equal
  alive := alive

theorem AioInv.fault (inv : AioInv s) (fault : Fault) :
    AioInv { s with sys := { s.sys with fault := some fault } } where
  sys := inv.sys.fault _
  owned := inv.owned
  call := inv.call
  dying := inv.dying

theorem AioInv.moves (inv : AioInv s) (same : s'.sys = s.sys) (alive : s.pc t ≠ .dying)
    (pc : ∀ u, u ≠ t → s'.pc u = s.pc u) (flag : ∀ u, u ≠ t → s'.flag u = s.flag u)
    (slots : ∀ j, 0 < s.owned t j → s'.flag t j = s.flag t j) (owned : s'.owned = s.owned)
    (call : AioCall s' t) : AioInv s' := by
  have own : AioOwn s s' t := .plain inv same alive pc flag fun u _ => congrFun owned u
  refine own.inv inv call fun j positive => ?_
  rw [owned] at positive ⊢
  rw [slots j positive]
  exact inv.owned t j positive

theorem AioInv.setPc (inv : AioInv s) {pc : AioPc} (alive : s.pc t ≠ .dying)
    (call : AioCall (s.setPc t pc) t) : AioInv (s.setPc t pc) :=
  inv.moves rfl alive (fun _ other => Function.update_of_ne other _ _) (fun _ _ => rfl)
    (fun _ _ => rfl) rfl call

theorem AioInv.returns (inv : AioInv s) {rv : Int} (alive : s.pc t ≠ .dying) :
    AioInv (s.returns t rv) := by
  refine inv.moves rfl alive ?_ (fun _ _ => rfl) (fun _ _ => rfl) rfl ?_
  · exact fun u other => Function.update_of_ne other _ _
  · simp [AioCall, AioState.returns, AioState.setPc]

theorem AioInv.waitReturns (inv : AioInv s) {ret : AioReturn} {rv : Int} (alive : s.pc t ≠ .dying) :
    AioInv (s.waitReturns t rv ret) := by
  cases ret with
  | caller => exact inv.returns alive
  | die => exact inv.setPc alive (by simp [AioCall, AioState.setPc])
  | get r =>
      simp only [AioState.waitReturns]
      split
      · exact inv.returns alive
      · exact inv.setPc alive (by simp [AioCall, AioState.setPc])
  | read size i =>
      simp only [AioState.waitReturns]
      split_ifs <;> exact inv.returns alive
  | write => exact inv.returns alive

theorem AioInv.submitReturns (inv : AioInv s) {r : AioRequest} {rv : Int} (alive : s.pc t ≠ .dying) :
    AioInv (s.submitReturns t i rv r) := by
  have waits : ∀ {ret : AioReturn}, AioInv (s.setPc t (.wait ret 0 0)) :=
    inv.setPc alive (by simp [AioCall, AioState.setPc])
  cases r with
  | submitWrite _ => exact inv.returns alive
  | submitSync _ => exact inv.returns alive
  | read size =>
      simp only [AioState.submitReturns]
      split
      · exact inv.returns alive
      · exact waits
  | write =>
      simp only [AioState.submitReturns]
      split
      · exact inv.returns alive
      · exact waits

/-- Where the thread has been before does not matter to what follows the submission. -/
theorem AioState.submitReturns_setPc {r : AioRequest} {rv : Int} (pc : AioPc) :
    (s.setPc t pc).submitReturns t i rv r = s.submitReturns t i rv r := by
  cases r <;> simp [AioState.submitReturns, AioState.returns, AioState.setPc]

private theorem setFlag_other {flag : AioFlag} (other : u ≠ t) :
    (s.setFlag t i flag).flag u = s.flag u :=
  Function.update_of_ne other _ _

private theorem setFlag_owned {j : Nat} {flag : AioFlag} (free : s.owned t i = 0)
    (owned : 0 < s.owned t j) : (s.setFlag t i flag).flag t j = s.flag t j := by
  have other : j ≠ i := by
    rintro rfl
    omega
  simp [AioState.setFlag, other]

private theorem AioInv.submits (inv : AioInv s) {r : AioRequest} {submitted : Int} {n : Nat}
    {aioWq : Tid → Nat} (running : s.sys.fault = none) (on : s.sys.mode w = .thread t)
    (pc : s.pc t = .submit r i) (stepped : s.nextStep aioWq w t n submitted = some s') : AioInv s' := by
  have alive : s.pc t ≠ .dying := by simp [pc]
  have call := inv.call t
  simp only [AioCall, pc] at call
  obtain ⟨below, free, pending⟩ := call
  have apart : ∀ {s₁ : AioState}, s₁.pc = s.pc → ∀ u, u ≠ t →
      (s₁.setPc t .outside).pc u = s.pc u := by
    intro s₁ same u other
    exact (Function.update_of_ne other _ _).trans (congrFun same u)
  simp only [AioState.nextStep, pc] at stepped
  split at stepped
  · cases stepped
    have owned : AioInv ((s.setOwned t i (s.owned t i + 1)).setPc t .outside) := by
      have own : AioOwn s ((s.setOwned t i (s.owned t i + 1)).setPc t .outside) t :=
        .plain inv rfl alive (apart rfl) (fun _ _ => rfl) fun u other => Function.update_of_ne other _ _
      refine own.inv inv (by simp [AioCall, AioState.setPc]) fun j positive => ?_
      by_cases same : j = i
      · subst same
        simp [AioState.setOwned, AioState.setPc, free, pending, below]
      · simp only [AioState.setOwned, AioState.setPc, Function.update_self,
          Function.update_of_ne same] at positive ⊢
        exact inv.owned t j positive
    rw [← AioState.submitReturns_setPc .outside]
    exact owned.submitReturns (by simp [AioState.setPc])
  · split at stepped
    · next k _ =>
      obtain ⟨sys, done, rfl⟩ | ⟨fault, _, rfl⟩ := State.call_cases stepped
      · have refused : AioInv (({ s with sys := sys }.setFlag t i .done).setPc t .outside) := by
          have own : AioOwn s (({ s with sys := sys }.setFlag t i .done).setPc t .outside) t :=
            .call inv running on done rfl alive (apart rfl)
              (fun u other => setFlag_other (s := { s with sys := sys }) other) fun _ _ => rfl
          refine own.inv inv (by simp [AioCall, AioState.setPc]) fun j positive => ?_
          refine ⟨(inv.owned t j positive).1, ?_, (inv.owned t j positive).2.2⟩
          exact (setFlag_owned (s := { s with sys := sys }) free positive).trans (inv.owned t j positive).2.1
        rw [← AioState.submitReturns_setPc .outside]
        exact refused.submitReturns (by simp [AioState.setPc])
      · exact inv.fault fault
    · cases stepped
      have refused : AioInv ((s.setFlag t i .done).setPc t .outside) :=
        inv.moves rfl alive (apart rfl) (fun u other => setFlag_other (s := s) other)
          (fun j owned => setFlag_owned (s := s) free owned) rfl (by simp [AioCall, AioState.setPc])
      rw [← AioState.submitReturns_setPc .outside]
      exact refused.submitReturns (by simp [AioState.setPc])

private theorem AioInv.beginsWait (inv : AioInv s) {aioWq : Tid → Nat} {ret : AioReturn} {rv : Int}
    {n : Nat} (running : s.sys.fault = none) (on : s.sys.mode w = .thread t)
    (pc : s.pc t = .wait ret i rv)
    (done : s.sys.act (.user w (.waitEvent n (aioWq t))) = some (.ok sys)) :
    AioInv (({ s with sys := sys }.setNotify t i (some (aioWq t))).setPc t
      (.waiting ret i rv (.auto t n))) := by
  have own : AioOwn s (({ s with sys := sys }.setNotify t i (some (aioWq t))).setPc t
      (.waiting ret i rv (.auto t n))) t :=
    .call inv running on done rfl (by simp [pc]) (fun u other => Function.update_of_ne other _ _)
      (fun _ _ => rfl) fun _ _ => rfl
  refine own.inv inv ?_ (inv.owned t)
  simp only [AioCall, AioState.setPc, Function.update_self]
  refine ⟨⟨n, rfl⟩, ?_⟩
  cases act_ok done with
  | user _ u _ _ on' _ effect =>
      obtain rfl := Mode.thread.inj (on'.symm.trans on)
      cases effect with
      | waitEvent _ _ _ =>
          refine .inl ⟨⟨.cond (aioWq u), .auto u n, .test0, s.sys.eventStack u⟩, s.sys.frames u,
            aioWq u, ?_, rfl, rfl, by simp⟩
          simp [AioState.setNotify, pushFrame, tcEventInit]

theorem AioInv.freed (inv : AioInv s) {ret : AioReturn} {rv : Int} {result : Rv} {n : Nat}
    {submitted : Int} (on : s.sys.mode w = .thread t) (pc : s.pc t = .freeing ret i rv result)
    (allowed : s.freesCompleted (.next w n submitted) = true) : s.owned t i = 0 := by
  have call := inv.call t
  simp only [AioCall, pc] at call
  have done : result = .ok ∨ s.owned t i = 0 := by
    simpa [AioState.freesCompleted, on, pc] using allowed
  rcases done with ok | unowned
  · exact inv.not_owned (call ok)
  · exact unowned

theorem AioInv.nextStep (inv : AioInv s) {aioWq : Tid → Nat} {n : Nat} {submitted : Int}
    (running : s.sys.fault = none) (on : s.sys.mode w = .thread t)
    (allowed : s.freesCompleted (.next w n submitted) = true)
    (stepped : s.nextStep aioWq w t n submitted = some s') : AioInv s' := by
  have call := inv.call t
  cases pc : s.pc t with
  | outside => simp [AioState.nextStep, pc] at stepped
  | dying => simp [AioState.nextStep, pc] at stepped
  | scan r i =>
      have alive : s.pc t ≠ .dying := by simp [pc]
      simp only [AioState.nextStep, pc] at stepped
      split at stepped
      · next below =>
        split at stepped
        · next free =>
          cases stepped
          refine inv.setPc alive ?_
          have unowned := inv.not_owned (t := t) (i := i) (by simp [free])
          simpa [AioCall, AioState.setPc] using ⟨below, unowned⟩
        · cases stepped
          exact inv.setPc alive (by simp [AioCall, AioState.setPc])
      · cases stepped
        exact inv.setPc alive (by simp [AioCall, AioState.setPc])
  | prepare r i =>
      simp only [AioCall, pc] at call
      simp only [AioState.nextStep, pc, Option.some.injEq] at stepped
      subst stepped
      refine inv.moves rfl (by simp [pc]) (fun u other => Function.update_of_ne other _ _)
        (fun u other => setFlag_other (s := s) other) (fun j owned => setFlag_owned (s := s) call.2 owned)
        rfl ?_
      simp only [AioCall, AioState.setPc, Function.update_self]
      exact ⟨call.1, call.2, by simp [AioState.setRes, AioState.setNotify, AioState.setFlag]⟩
  | submit r i => exact inv.submits running on pc stepped
  | wait ret i rv =>
      simp only [AioState.nextStep, pc] at stepped
      split at stepped
      · split at stepped
        · cases stepped
          exact inv.setPc (by simp [pc]) (by simp [AioCall, AioState.setPc])
        · obtain ⟨sys, done, rfl⟩ | ⟨fault, _, rfl⟩ := State.call_cases stepped
          · exact inv.beginsWait running on pc done
          · exact inv.fault fault
      · cases stepped
        exact inv.waitReturns (by simp [pc])
  | waiting ret i rv e =>
      simp only [AioCall, pc] at call
      simp only [AioState.nextStep, pc] at stepped
      split at stepped
      · cases stepped
      · next result returned =>
        cases stepped
        refine inv.setPc (by simp [pc]) ?_
        simp only [AioCall, AioState.setPc, Function.update_self]
        exact fun ok => call.2.finished inv.sys returned ok
  | waited ret i rv result =>
      simp only [AioCall, pc] at call
      simp only [AioState.nextStep, pc] at stepped
      split at stepped
      · cases stepped
        exact inv.moves rfl (by simp [pc]) (fun u other => Function.update_of_ne other _ _)
          (fun _ _ => rfl) (fun _ _ => rfl) rfl (by simp [AioCall, AioState.setPc])
      · cases stepped
        refine inv.moves rfl (by simp [pc]) (fun u other => Function.update_of_ne other _ _)
          (fun _ _ => rfl) (fun _ _ => rfl) rfl ?_
        simp only [AioCall, AioState.setPc, Function.update_self]
        exact call
  | freeing ret i rv result =>
      simp only [AioState.nextStep, pc, Option.some.injEq] at stepped
      subst stepped
      have unowned : s.owned t i = 0 := inv.freed on pc allowed
      exact inv.moves rfl (by simp [pc]) (fun u other => Function.update_of_ne other _ _)
        (fun u other => setFlag_other (s := s) other) (fun j owned => setFlag_owned (s := s) unowned owned)
        rfl (by simp [AioCall, AioState.setPc])

theorem AioInv.beginStep (inv : AioInv s) {op : AioOp} (running : s.sys.fault = none)
    (on : s.sys.mode w = .thread t) (outside : s.pc t = .outside)
    (stepped : s.beginStep w t op = some s') : AioInv s' := by
  have alive : s.pc t ≠ .dying := by simp [outside]
  cases op with
  | wait =>
      cases stepped
      exact inv.setPc alive (by simp [AioCall, AioState.setPc])
  | request r =>
      cases stepped
      exact inv.setPc alive (by simp [AioCall, AioState.setPc])
  | die =>
      simp only [AioState.beginStep] at stepped
      obtain ⟨sys, done, rfl⟩ | ⟨fault, _, rfl⟩ := State.call_cases stepped
      · have own : AioOwn s ({ s with sys := sys }.setPc t (.wait .die 0 0)) t :=
          .call inv running on done rfl alive (fun u other => Function.update_of_ne other _ _)
            (fun _ _ => rfl) fun _ _ => rfl
        exact own.inv inv (by simp [AioCall, AioState.setPc]) (inv.owned t)
      · exact inv.fault fault

theorem AioInv.act (inv : AioInv s) (running : s.sys.fault = none) (allowed : s.allows a = true)
    (done : s.sys.act a = some (.ok sys)) : AioInv { s with sys := sys } where
  sys := (act_ok done).systemInv inv.sys
  owned := inv.owned
  call t := by
    have before := inv.call t
    unfold AioCall at *
    cases pc : s.pc t with
    | waiting ret i rv e =>
        simp only [pc] at before ⊢
        obtain ⟨⟨n, rfl⟩, wait⟩ := before
        refine ⟨⟨n, rfl⟩, wait.act inv.sys rfl running done ?_ ?_⟩
        · intro w op equal on
          simp [equal, AioState.allows, AioState.outside, on, pc] at allowed
        · intro w value f rest equal on frames _
          simp only [equal, AioState.allows, on, pc, frames, Bool.and_eq_true, decide_eq_true_eq] at allowed
          exact allowed.2
    | prepare r i =>
        simp only [pc] at before ⊢
        exact before
    | submit r i =>
        simp only [pc] at before ⊢
        exact before
    | waited ret i rv result =>
        simp only [pc] at before ⊢
        exact before
    | freeing ret i rv result =>
        simp only [pc] at before ⊢
        exact before
    | _ => trivial
  dying t after := by
    rcases (act_ok done).waits inv.sys after with before | ⟨w, rfl, on⟩
    · exact inv.dying t before
    · simpa [AioState.allows, on] using allowed

theorem AioInv.handling (inv : AioInv s) (handling : WorkerId → Option (Tid × Nat)) :
    AioInv { s with handling := handling } where
  sys := inv.sys
  owned := inv.owned
  call := inv.call
  dying := inv.dying

theorem setFlag_flag {flag : AioFlag} (u : Tid) (j : Nat) :
    (s.setFlag t i flag).flag u j = if u = t ∧ j = i then flag else s.flag u j := by
  simp only [AioState.setFlag, Function.update_apply]
  split_ifs <;> simp_all

private theorem setOwned_owned {owned : Nat} (u : Tid) (j : Nat) :
    (s.setOwned t i owned).owned u j = if u = t ∧ j = i then owned else s.owned u j := by
  simp only [AioState.setOwned, Function.update_apply]
  split_ifs <;> simp_all

private theorem AioInv.givenBack (inv : AioInv s) (positive : 0 < s.owned t i)
    (sys : s'.sys = s.sys) (pc : s'.pc = s.pc)
    (flag : ∀ u j, s'.flag u j = if u = t ∧ j = i then .done else s.flag u j)
    (owned : ∀ u j, s'.owned u j = if u = t ∧ j = i then s.owned t i - 1 else s.owned u j) :
    AioInv s' := by
  have before := inv.owned t i positive
  -- a thread that has the slot in its hands has not submitted it
  have elsewhere : ∀ {u j}, s.owned u j = 0 → ¬ (u = t ∧ j = i) := by
    rintro u j none ⟨rfl, rfl⟩
    omega
  have ended : ∀ {u j}, s.flag u j ≠ .pending → s'.flag u j ≠ .pending := by
    intro u j done
    rw [flag]
    split
    · simp
    · exact done
  constructor
  · rw [sys]
    exact inv.sys
  · intro u j after
    rw [owned] at after ⊢
    rw [flag]
    split at after
    · omega
    · next other =>
      rw [if_neg other, if_neg other]
      exact inv.owned u j after
  · intro u
    have call := inv.call u
    unfold AioCall at *
    rw [pc, sys]
    cases at_ : s.pc u with
    | waiting ret j rv e =>
        simp only [at_] at call ⊢
        refine ⟨call.1, ?_⟩
        rw [flag]
        split
        · exact call.2.flag_done
        · exact call.2
    | waited ret j rv result =>
        simp only [at_] at call ⊢
        exact fun ok => ended (call ok)
    | freeing ret j rv result =>
        simp only [at_] at call ⊢
        exact fun ok => ended (call ok)
    | prepare r j =>
        simp only [at_] at call ⊢
        rw [owned, if_neg (elsewhere call.2)]
        exact call
    | submit r j =>
        simp only [at_] at call ⊢
        rw [owned, flag, if_neg (elsewhere call.2.1), if_neg (elsewhere call.2.1)]
        exact call
    | _ => trivial
  · intro u after
    rw [sys] at after
    rw [pc]
    exact inv.dying u after

theorem AioInv.complete (inv : AioInv s) {res res2 : Int} (positive : 0 < s.owned t i) :
    AioInv (s.complete w t i res res2) := by
  unfold AioState.complete
  split
  · exact inv.fault _
  · have back : AioInv (((s.setRes t i res res2).setFlag t i .done).setOwned t i (s.owned t i - 1)) :=
      inv.givenBack positive rfl rfl (fun u j => setFlag_flag (s := s.setRes t i res res2) u j)
        fun u j => setOwned_owned (s := (s.setRes t i res res2).setFlag t i .done) u j
    exact back.handling _

theorem AioInv.step (inv : AioInv s) {aioWq : Tid → Nat} {l : AioAction}
    (allowed : s.freesCompleted l = true) (stepped : s.step aioWq l = some s') : AioInv s' := by
  cases l with
  | system a =>
      simp only [AioState.step] at stepped
      split at stepped
      · next may =>
        obtain ⟨sys, by_, rfl⟩ := Option.map_eq_some_iff.mp stepped
        rcases step_act by_ with done | ⟨fault, _, rfl⟩
        · exact inv.act (step_cases by_).1 may done
        · exact inv.fault fault
      · cases stepped
  | begin w op =>
      simp only [AioState.step] at stepped
      split at stepped
      · next t on =>
        split at stepped
        · next guard => exact inv.beginStep guard.1 on guard.2.2 stepped
        · cases stepped
      · cases stepped
  | next w n submitted =>
      simp only [AioState.step] at stepped
      split at stepped
      · next t on =>
        split at stepped
        · next guard => exact inv.nextStep guard.1 on allowed stepped
        · cases stepped
      · cases stepped
  | completed w t i res res2 =>
      simp only [AioState.step] at stepped
      split at stepped
      · next guard =>
        cases stepped
        exact inv.complete guard.2.2.2
      · cases stepped
  | notify w =>
      simp only [AioState.step] at stepped
      split at stepped
      · next t i _ =>
        split at stepped
        · next running =>
          split at stepped
          · cases stepped
            exact inv.fault _
          · split at stepped
            · next k _ =>
              obtain ⟨sys, done, rfl⟩ | ⟨fault, _, rfl⟩ := State.call_cases stepped
              · exact AioInv.act (a := .aio w k) (inv.handling (Function.update s.handling w none))
                  running (by simp [AioState.allows, Action.worker]) done
              · exact inv.fault fault
            · cases stepped
              exact inv.handling _
        · cases stepped
      · cases stepped

/-! ## The slots that `tc_die` has dealt with -/

private theorem AioState.freesCompleted_of_awaits {l : AioAction} (awaits : s.awaits l = true) :
    s.freesCompleted l = true := by
  cases l with
  | next w n submitted =>
      simp only [AioState.awaits] at awaits
      simp only [AioState.freesCompleted]
      split
      · next t on =>
        rw [on] at awaits
        split
        · next pc => simpa only [pc] using awaits
        · rfl
      · rfl
  | _ => rfl

namespace AioState.Passed

theorem of_thread (passed : s.Passed) (pc : ∀ u, u ≠ t → s'.pc u = s.pc u)
    (owned : ∀ u, u ≠ t → s'.owned u = s.owned u)
    (own : ∀ i, (s'.pc t).passed i = true → s'.owned t i = 0) : s'.Passed := by
  intro u i passes
  by_cases same : u = t
  · subst same
    exact own i passes
  · rw [pc u same] at passes
    rw [owned u same]
    exact passed u i passes

theorem setPc (passed : s.Passed) {pc : AioPc} (own : ∀ i, pc.passed i = true → s.owned t i = 0) :
    (s.setPc t pc).Passed := by
  refine passed.of_thread (t := t) (fun u other => Function.update_of_ne other _ _) (fun _ _ => rfl) ?_
  simpa [AioState.setPc] using own

theorem submitReturns (passed : s.Passed) {r : AioRequest} {rv : Int} :
    (s.submitReturns t i rv r).Passed := by
  have returns : (s.returns t rv).Passed := passed.setPc (by simp [AioPc.passed])
  cases r with
  | submitWrite _ => exact returns
  | submitSync _ => exact returns
  | read size =>
      simp only [AioState.submitReturns]
      split
      · exact returns
      · exact passed.setPc (by simp [AioPc.passed])
  | write =>
      simp only [AioState.submitReturns]
      split
      · exact returns
      · exact passed.setPc (by simp [AioPc.passed])

theorem waitReturns (passed : s.Passed) (inv : AioInv s) {ret : AioReturn} {rv : Int}
    (pc : s.pc t = .wait ret i rv) (all : aioRequestsPerTcThread ≤ i) :
    (s.waitReturns t rv ret).Passed := by
  have returns : ∀ {rv}, (s.returns t rv).Passed := passed.setPc (by simp [AioPc.passed])
  cases ret with
  | caller => exact returns
  | die =>
      refine passed.setPc fun j _ => ?_
      by_contra owned
      have below := (inv.owned t j (Nat.pos_of_ne_zero owned)).2.2
      exact owned (passed t j (by simp [pc, AioPc.passed]; omega))
  | get r =>
      simp only [AioState.waitReturns]
      split
      · exact returns
      · exact passed.setPc (by simp [AioPc.passed])
  | read size i =>
      simp only [AioState.waitReturns]
      split_ifs <;> exact returns
  | write => exact returns

theorem next (passed : s.Passed) {ret : AioReturn} {rv : Int}
    (before : ∀ j, j < i → ret = .die → (s.pc t).passed j = true)
    (settled : ret = .die → s.owned t i = 0) :
    ∀ j, (AioPc.wait ret (i + 1) rv).passed j = true → s.owned t j = 0 := by
  intro j passes
  cases ret with
  | die =>
      simp only [AioPc.passed, decide_eq_true_eq] at passes
      rcases Nat.lt_or_eq_of_le (Nat.le_of_lt_succ passes) with below | rfl
      · exact passed t j (before j below rfl)
      · exact settled rfl
  | _ => simp [AioPc.passed] at passes

/-- Where in its turn `tc_aio_wait` is does not matter. -/
private theorem turn (passed : s.Passed) {pc next : AioPc} (at_ : s.pc t = pc)
    (same : next.passed = pc.passed) (j : Nat) (passes : next.passed j = true) :
    s.owned t j = 0 := by
  rw [same, ← at_] at passes
  exact passed t j passes

theorem nextStep (passed : s.Passed) (inv : AioInv s) {aioWq : Tid → Nat} {n : Nat} {submitted : Int}
    (on : s.sys.mode w = .thread t) (allowed : s.awaits (.next w n submitted) = true)
    (stepped : s.nextStep aioWq w t n submitted = some s') : s'.Passed := by
  have other : ∀ {s₁ : AioState} {pc : AioPc} (u : Tid), u ≠ t → s₁.pc = s.pc →
      (s₁.setPc t pc).pc u = s.pc u := by
    intro s₁ pc u other same
    exact (Function.update_of_ne other _ _).trans (congrFun same u)
  cases pc : s.pc t with
  | outside => simp [AioState.nextStep, pc] at stepped
  | dying => simp [AioState.nextStep, pc] at stepped
  | scan r i =>
      simp only [AioState.nextStep, pc] at stepped
      split_ifs at stepped <;> cases stepped <;> exact passed.setPc (by simp [AioPc.passed])
  | prepare r i =>
      simp only [AioState.nextStep, pc, Option.some.injEq] at stepped
      subst stepped
      exact passed.of_thread (fun u apart => other u apart rfl) (fun _ _ => rfl)
        (by simp [AioState.setPc, AioPc.passed])
  | submit r i =>
      have flagged : ∀ sys, ({ s with sys := sys }.setFlag t i .done).Passed := fun _ => passed
      simp only [AioState.nextStep, pc] at stepped
      split at stepped
      · cases stepped
        have owned : (s.setOwned t i (s.owned t i + 1)).Passed :=
          passed.of_thread (t := t) (fun _ _ => rfl) (fun u apart => Function.update_of_ne apart _ _)
            (by simp [AioState.setOwned, pc, AioPc.passed])
        exact owned.submitReturns
      · split at stepped
        · obtain ⟨sys, _, rfl⟩ | ⟨fault, _, rfl⟩ := State.call_cases stepped
          · exact (flagged sys).submitReturns
          · exact passed
        · cases stepped
          exact (flagged s.sys).submitReturns
  | wait ret i rv =>
      simp only [AioState.nextStep, pc] at stepped
      split at stepped
      · split at stepped
        · next notify =>
          cases stepped
          refine passed.setPc (passed.next (fun j below die => ?_) fun die => ?_)
          · simp [pc, die, AioPc.passed, below]
          · subst die
            simpa [AioState.awaits, on, pc, notify] using allowed
        · obtain ⟨sys, _, rfl⟩ | ⟨fault, _, rfl⟩ := State.call_cases stepped
          · refine passed.of_thread (fun u apart => other u apart rfl) (fun _ _ => rfl) ?_
            simp only [AioState.setPc, Function.update_self]
            exact passed.turn pc (by cases ret <;> rfl)
          · exact passed
      · next all =>
        cases stepped
        exact passed.waitReturns inv pc (Nat.le_of_not_lt all)
  | waiting ret i rv e =>
      simp only [AioState.nextStep, pc] at stepped
      split at stepped
      · cases stepped
      · cases stepped
        exact passed.setPc (passed.turn pc (by cases ret <;> rfl))
  | waited ret i rv result =>
      simp only [AioState.nextStep, pc] at stepped
      split at stepped
      · next free =>
        cases stepped
        refine passed.of_thread (fun u apart => other u apart rfl) (fun _ _ => rfl) ?_
        simp only [AioState.setPc, Function.update_self]
        exact passed.next (fun j below die => by simp [pc, die, AioPc.passed, below])
          fun _ => inv.not_owned (by simp [free])
      · cases stepped
        refine passed.of_thread (fun u apart => other u apart rfl) (fun _ _ => rfl) ?_
        simp only [AioState.setPc, Function.update_self]
        exact passed.turn pc (by cases ret <;> rfl)
  | freeing ret i rv result =>
      simp only [AioState.nextStep, pc, Option.some.injEq] at stepped
      subst stepped
      refine passed.of_thread (fun u apart => other u apart rfl) (fun _ _ => rfl) ?_
      simp only [AioState.setPc, Function.update_self]
      exact passed.next (fun j below die => by simp [pc, die, AioPc.passed, below])
        fun _ => inv.freed on pc (freesCompleted_of_awaits allowed)

theorem beginStep (passed : s.Passed) {op : AioOp} (stepped : s.beginStep w t op = some s') :
    s'.Passed := by
  cases op with
  | wait =>
      cases stepped
      exact passed.setPc (by simp [AioPc.passed])
  | request r =>
      cases stepped
      exact passed.setPc (by simp [AioPc.passed])
  | die =>
      simp only [AioState.beginStep] at stepped
      obtain ⟨sys, _, rfl⟩ | ⟨fault, _, rfl⟩ := State.call_cases stepped
      · exact setPc (s := { s with sys := sys }) passed (by simp [AioPc.passed])
      · exact passed

theorem complete (passed : s.Passed) {res res2 : Int} : (s.complete w t i res res2).Passed := by
  unfold AioState.complete
  split
  · exact passed
  · intro u j passes
    have none : s.owned u j = 0 := passed u j passes
    refine (setOwned_owned (s := (s.setRes t i res res2).setFlag t i .done) u j).trans ?_
    split
    · next same =>
      obtain ⟨rfl, rfl⟩ := same
      simp [none]
    · exact none

theorem step (passed : s.Passed) (inv : AioInv s) {aioWq : Tid → Nat} {l : AioAction}
    (allowed : s.awaits l = true) (stepped : s.step aioWq l = some s') : s'.Passed := by
  cases l with
  | system a =>
      simp only [AioState.step] at stepped
      split at stepped
      · obtain ⟨sys, _, rfl⟩ := Option.map_eq_some_iff.mp stepped
        exact passed
      · cases stepped
  | begin w op =>
      simp only [AioState.step] at stepped
      split at stepped
      · split at stepped
        · exact passed.beginStep stepped
        · cases stepped
      · cases stepped
  | next w n submitted =>
      simp only [AioState.step] at stepped
      split at stepped
      · next t on =>
        split at stepped
        · exact passed.nextStep inv on allowed stepped
        · cases stepped
      · cases stepped
  | completed w t i res res2 =>
      simp only [AioState.step] at stepped
      split at stepped
      · cases stepped
        exact passed.complete
      · cases stepped
  | notify w =>
      simp only [AioState.step] at stepped
      split at stepped
      · split at stepped
        · split at stepped
          · cases stepped
            exact passed
          · split at stepped
            · obtain ⟨sys, _, rfl⟩ | ⟨fault, _, rfl⟩ := State.call_cases stepped <;> exact passed
            · cases stepped
              exact passed
        · cases stepped
      · cases stepped

theorem initial (workers : Nat) (domainOf : WorkerId → DomainId) :
    AioState.Passed (.initial workers domainOf) := by
  intro t i passes
  simp [AioState.initial, AioPc.passed] at passes

end AioState.Passed

end Steps

theorem AioInv.initial (workers : Nat) (domainOf : WorkerId → DomainId) :
    AioInv (.initial workers domainOf) where
  sys := .initial workers domainOf
  owned t i positive := by simp [AioState.initial] at positive
  call t := by simp [AioCall, AioState.initial]
  dying t after := by
    simp only [AioState.initial, State.initial] at after
    split at after <;> simp [Status.waited] at after

/-- In every run in which `tc_aio_wait` does not free a slot after an interrupted wait before its
request has been completed, and `tc_die` does not leave one out, no slot is recycled while
the kernel owns it. -/
theorem aio_slots_kept {aioWq : Tid → Nat} {workers : Nat} {domainOf : WorkerId → DomainId}
    {s : AioState} (run : AioRun aioWq workers domainOf (fun s l => s.awaits l = true) s) :
    s.SlotsKept := by
  obtain ⟨inv, passed⟩ := run.invariant (fun s => AioInv s ∧ s.Passed)
    ⟨.initial workers domainOf, .initial workers domainOf⟩ fun both allowed stepped =>
      ⟨both.1.step (AioState.freesCompleted_of_awaits allowed) stepped,
        both.2.step both.1 allowed stepped⟩
  exact inv.slotsKept passed

/-! ## Runs of one worker -/

def aioStarts : List AioAction :=
  [.system (.user 0 (.threadNew 1 0 0 false)), .system (.user 0 (.threadPost 1)),
    .system (.user 0 (.waitqWait 0 9)), .system (.advance 0), .system (.leave 0),
    .system (.runImmediate 0 .any), .system (.enter 0)]

def aioFrees (n : Nat) : List AioAction :=
  [.next 0 n 0, .system (.condition 0 true), .next 0 0 0, .next 0 0 0, .next 0 0 0]

def aioSubmits (r : AioRequest) : List AioAction :=
  .begin 0 (.request r) :: List.replicate 9 (.next 0 0 0) ++ (List.range 8).flatMap aioFrees ++
    [.next 0 0 0, .next 0 0 0, .next 0 0 0, .next 0 0 1]

set_option maxRecDepth 20000 in
/-- A slot is submitted, and kept. -/
theorem aio_slots_kept_submitted :
    ∃ s, AioRun (fun t => 100 + t) 1 (fun _ => 0) (fun s l => s.awaits l = true) s ∧
      s.owned 1 0 = 1 ∧ s.flag 1 0 = .pending ∧ s.SlotsKept := by
  obtain ⟨s, run, ended⟩ := Transition.exists_run
    (Transition.guarded (AioState.step fun t => 100 + t) AioState.awaits) (.initial 1 fun _ => 0)
    (aioStarts ++ aioSubmits (.submitWrite none)) (fun s => s.owned 1 0 = 1 && s.flag 1 0 = .pending)
    (by decide)
  simp only [Bool.and_eq_true, decide_eq_true_eq] at ended
  exact ⟨s, run.of_guarded, ended.1, ended.2, aio_slots_kept run.of_guarded⟩

def aioInterrupted : List AioAction :=
  aioStarts ++ .system (.user 0 (.subscribe 0 0)) :: aioSubmits (.submitWrite none) ++
    [.system (.user 0 (.fire 0)), .begin 0 .wait, .next 0 8 0, .system (.condition 0 false),
      .system (.advance 0), .system (.condition 0 false), .system (.advance 0),
      .system (.leave 0), .system (.runImmediate 0 .any), .system (.enter 0),
      .system (.advance 0), .next 0 0 0, .next 0 0 0, .next 0 0 0]

/-- The request has a `notify` of the application, and the thread returns from its function. -/
def aioDied : List AioAction :=
  aioStarts ++ aioSubmits (.submitWrite (some 7)) ++ [.begin 0 .die, .next 0 0 0] ++
    (List.range 7).flatMap (fun n =>
      [.next 0 (n + 8) 0, .system (.condition 0 true), .next 0 0 0, .next 0 0 0]) ++
    [.next 0 0 0, .system (.die 0), .system (.die 0), .system (.die 0), .system (.leave 0),
      .system (.runImmediate 0 .any), .system (.free 0)]

set_option maxRecDepth 20000 in
/-- A slot is marked as free, and a thread is freed, while the kernel owns the slot. -/
theorem aio_slots_not_kept :
    (∃ s, AioRun (fun t => 100 + t) 1 (fun _ => 0) Transition.always s ∧ s.owned 1 0 = 1 ∧
      s.flag 1 0 = .free ∧ ¬ s.SlotsKept) ∧
    ∃ s, AioRun (fun t => 100 + t) 1 (fun _ => 0) Transition.always s ∧ s.owned 1 0 = 1 ∧
      s.sys.status 1 = .dead ∧ ¬ s.SlotsKept := by
  constructor
  · obtain ⟨s, run, ended⟩ := Transition.exists_run (AioState.step fun t => 100 + t)
      (.initial 1 fun _ => 0) aioInterrupted (fun s => s.owned 1 0 = 1 && s.flag 1 0 = .free) (by decide)
    simp only [Bool.and_eq_true, decide_eq_true_eq] at ended
    refine ⟨s, run, ended.1, ended.2, fun kept => ?_⟩
    exact (kept 1 0 (by omega)).1 ended.2
  · obtain ⟨s, run, ended⟩ := Transition.exists_run (AioState.step fun t => 100 + t)
      (.initial 1 fun _ => 0) aioDied (fun s => s.owned 1 0 = 1 && s.sys.status 1 = .dead) (by decide)
    simp only [Bool.and_eq_true, decide_eq_true_eq] at ended
    refine ⟨s, run, ended.1, ended.2, fun kept => ?_⟩
    exact (kept 1 0 (by omega)).2.2 ended.2

end Libtcr
