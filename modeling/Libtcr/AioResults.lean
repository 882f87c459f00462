import Libtcr.AioProperties

/-! What `tc_aio_read` and `tc_aio_write` return: 0 only if the kernel has completed the request
of the call itself. -/

set_option autoImplicit false

namespace Libtcr

/-- A call that submits a request has returned `rv`. -/
structure AioAnswer where
  request : AioRequest
  rv : Option Int
  /-- The results that `handle_aio_event` has stored for the slot since the call has called
  `io_prep_*` for it. -/
  completions : List (Int × Int)
  owned : Nat
  deriving DecidableEq, Repr

structure AioHistory where
  aio : AioState
  -- history: the request of the call of a thread with its slot, the completions of a slot since
  -- its last `io_prep_*`, and the calls that have returned
  calls : Tid → Option (AioRequest × Option Nat)
  completions : Tid → Nat → List (Int × Int)
  answers : Tid → List AioAnswer

def AioOp.request? : AioOp → Option AioRequest
  | .request r => some r
  | .wait | .die => none

def fitsInt (x : Int) : Bool := -2 ^ 31 ≤ x && x < 2 ^ 31

/-- The kernel: `io_submit` gets one request and does not return 0 then, and no transfer has more
than 0x7ffff000 bytes. -/
def AioState.kernel (s : AioState) : AioAction → Bool
  | .next w _ submitted =>
    match s.sys.mode w with
    | .thread t =>
      match s.pc t with
      | .submit _ _ => submitted ≠ 0
      | _ => true
    | _ => true
  | .completed _ _ _ res res2 => fitsInt res && fitsInt res2
  | _ => true

namespace AioHistory

def setCompletions (s : AioHistory) (t : Tid) (i : Nat) (c : List (Int × Int)) : AioHistory :=
  { s with completions := Function.update s.completions t (Function.update (s.completions t) i c) }

def answer (s : AioHistory) (t : Tid) (aio : AioState) : AioHistory :=
  match s.calls t with
  | some (r, slot) => { s with
      answers := Function.update s.answers t
        (⟨r, aio.returned t, slot.elim [] (s.completions t), slot.elim 0 (aio.owned t)⟩ ::
          s.answers t) }
  | none => s

def records (s : AioHistory) (aio : AioState) : AioAction → AioHistory
  | .begin w op =>
    match s.aio.sys.mode w with
    | .thread t => { s with
        calls := Function.update s.calls t (op.request?.map fun r => (r, none)) }
    | _ => s
  | .next w _ _ =>
    match s.aio.sys.mode w with
    | .thread t =>
      match s.aio.pc t with
      | .prepare r i =>
        { s.setCompletions t i [] with calls := Function.update s.calls t (some (r, some i)) }
      | _ => if aio.pc t = .outside then s.answer t aio else s
    | _ => s
  | .completed _ t i res res2 => s.setCompletions t i ((res, res2) :: s.completions t i)
  | _ => s

def step (aioWq : Tid → Nat) (s : AioHistory) (l : AioAction) : Option AioHistory :=
  (s.aio.step aioWq l).map fun aio => { s.records aio l with aio := aio }

def initial (workers : Nat) (domainOf : WorkerId → DomainId) : AioHistory where
  aio := .initial workers domainOf
  calls _ := none
  completions _ _ := []
  answers _ := []

end AioHistory

/-! ## The calls -/

/-- The results with which `tc_aio_wait` goes on: as values of type `int` they are no errors. -/
def NoError (res res2 : Int) : Prop := (res < 0 → toInt res = 0) ∧ toInt res2 = 0

/-- The functions that wait for the completion of their request. -/
def AioRequest.waits : AioRequest → Bool
  | .read _ | .write => true
  | .submitWrite _ | .submitSync _ => false

/-- The request of the call is back from the kernel. It has been completed once and without an
error, and a read has got all the bytes. -/
def AioAnswer.Completed (x : AioAnswer) : Prop :=
  x.owned = 0 ∧ ∃ res, 0 ≤ res ∧ x.completions = [(res, 0)] ∧
    ∀ size, x.request = .read size → 0 < size ∧ res = size

private theorem toInt_of_fits {x : Int} (fits : fitsInt x = true) : toInt x = x := by
  simp only [fitsInt, Bool.and_eq_true, decide_eq_true_eq] at fits
  exact Int.bmod_eq_of_le (by omega) (by omega)

private theorem NoError.of_fits {res res2 : Int} (noError : NoError res res2)
    (fits : fitsInt res = true) (fits2 : fitsInt res2 = true) : 0 ≤ res ∧ res2 = 0 := by
  obtain ⟨first, second⟩ := noError
  rw [toInt_of_fits fits] at first
  rw [toInt_of_fits fits2] at second
  omega

private theorem AioState.resultOf_eq_zero {s : AioState} {t : Tid} {i : Nat} {rv : Int} :
    s.resultOf t i rv = 0 ↔ rv = 0 ∧ NoError (s.res t i) (s.res2 t i) := by
  have zero : toInt 0 = 0 := by decide
  unfold AioState.resultOf NoError
  by_cases failed : rv = 0
  · by_cases negative : s.res t i < 0
    · by_cases first : toInt (s.res t i) = 0 <;> by_cases second : s.res2 t i = 0 <;>
        simp [failed, negative, first, second, zero]
    · by_cases second : s.res2 t i = 0 <;> simp [failed, negative, second, zero]
  · simp [failed]

structure AioView where
  pc : AioPc
  flag : Nat → AioFlag
  notify : Nat → Option Nat
  res : Nat → Int
  res2 : Nat → Int
  owned : Nat → Nat
  call : Option (AioRequest × Option Nat)
  completions : Nat → List (Int × Int)

def AioState.view (s : AioState) (t : Tid) (call : Option (AioRequest × Option Nat))
    (completions : Nat → List (Int × Int)) : AioView :=
  ⟨s.pc t, s.flag t, s.notify t, s.res t, s.res2 t, s.owned t, call, completions⟩

def AioHistory.view (s : AioHistory) (t : Tid) : AioView :=
  s.aio.view t (s.calls t) (s.completions t)

def AioPc.before : AioPc → Nat → Bool
  | .wait _ j _, i => j ≤ i
  | .waiting _ j _ _, i | .waited _ j _ _, i | .freeing _ j _ _, i => j < i
  | _, _ => false

/-- `tc_aio_wait` has taken the results of slot `i`, and `rv` is 0. -/
def AioPc.clean : AioPc → Nat → Bool
  | .freeing _ j rv _, i => i ≤ j && rv = 0
  | .wait _ j rv, i | .waiting _ j rv _, i | .waited _ j rv _, i => i < j && rv = 0
  | _, _ => false

namespace AioView

/-- The call has submitted its request in slot `i`, and is in `tc_aio_wait`. -/
structure Submitted (v : AioView) (i : Nat) : Prop where
  below : i < aioRequestsPerTcThread
  completed : v.owned i = 0 → v.completions i = [(v.res i, v.res2 i)]
  pending : v.owned i ≠ 0 → v.completions i = []
  before : v.pc.before i = true → v.notify i = none ∧ v.flag i ≠ .free
  waiting : ∀ ret rv e, v.pc = .waiting ret i rv e → v.flag i ≠ .free
  waited : ∀ ret rv result, v.pc = .waited ret i rv result →
    v.flag i ≠ .free ∧ (rv = 0 → result = .ok)
  clean : v.pc.clean i = true → v.owned i = 0 ∧ NoError (v.res i) (v.res2 i)

def Calls (v : AioView) : AioReturn → Prop
  | .caller => v.call = none
  | .die => True
  | .get r => v.call = some (r, none)
  | .read size i => v.call = some (.read size, some i) ∧ v.Submitted i
  | .write => ∃ i, v.call = some (.write, some i) ∧ v.Submitted i

def Inv (v : AioView) : Prop :=
  match v.pc with
  | .outside | .dying => True
  | .scan r _ | .prepare r _ => v.call = some (r, none)
  | .submit r i => v.call = some (r, some i) ∧ v.completions i = [] ∧ v.notify i = r.notify
  | .wait ret _ _ | .waiting ret _ _ _ | .waited ret _ _ _ | .freeing ret _ _ _ => v.Calls ret

private theorem Inv.of_wait {v : AioView} {ret : AioReturn} {j : Nat} {rv : Int}
    (pc : v.pc = .wait ret j rv) (calls : v.Calls ret) : v.Inv := by
  simpa only [Inv, pc] using calls

theorem Calls.move {v v' : AioView} {ret : AioReturn} (calls : v.Calls ret)
    (same : v'.call = v.call) (moved : ∀ i, v.Submitted i → v'.Submitted i) : v'.Calls ret := by
  cases ret with
  | caller => exact same.trans calls
  | die => trivial
  | get r => exact same.trans calls
  | read size i => exact ⟨same.trans calls.1, moved i calls.2⟩
  | write =>
      obtain ⟨i, call, submitted⟩ := calls
      exact ⟨i, same.trans call, moved i submitted⟩

/-! ## `tc_aio_wait` for the request of the call -/

variable {v : AioView} {ret : AioReturn} {i j : Nat} {rv : Int}

theorem Submitted.skip (submitted : v.Submitted i) (pc : v.pc = .wait ret j rv)
    (notify : v.notify j ≠ none) : { v with pc := .wait ret (j + 1) rv }.Submitted i := by
  have before := submitted.before
  have clean := submitted.clean
  simp only [pc, AioPc.before, AioPc.clean, decide_eq_true_eq, Bool.and_eq_true] at before clean
  refine { submitted with before := ?_, waiting := by simp, waited := by simp, clean := ?_ }
  · intro above
    simp only [AioPc.before, decide_eq_true_eq] at above
    exact before (by omega)
  · intro passed
    simp only [AioPc.clean, decide_eq_true_eq, Bool.and_eq_true] at passed
    have other : i ≠ j := by
      intro same
      subst same
      exact notify (before le_rfl).1
    exact clean ⟨by omega, passed.2⟩

theorem Submitted.begins {e : EventId} {k : Nat} (submitted : v.Submitted i)
    (pc : v.pc = .wait ret j rv) :
    { v with
      pc := .waiting ret j rv e
      notify := Function.update v.notify j (some k) }.Submitted i := by
  have before := submitted.before
  have clean := submitted.clean
  simp only [pc, AioPc.before, AioPc.clean, decide_eq_true_eq, Bool.and_eq_true] at before clean
  refine { submitted with before := ?_, waiting := ?_, waited := by simp, clean := ?_ }
  · intro above
    simp only [AioPc.before, decide_eq_true_eq] at above
    have other : i ≠ j := by omega
    simp only [Function.update_of_ne other]
    exact before (by omega)
  · intro ret' rv' e' same
    obtain ⟨_, rfl, _⟩ := AioPc.waiting.inj same
    exact (before le_rfl).2
  · intro passed
    simp only [AioPc.clean, decide_eq_true_eq, Bool.and_eq_true] at passed
    exact clean passed

theorem Submitted.wakes {e : EventId} {result : Rv} (submitted : v.Submitted i)
    (pc : v.pc = .waiting ret j rv e) :
    { v with pc := .waited ret j (if result ≠ Rv.ok ∨ rv ≠ 0 then 1 else 0) result }.Submitted i := by
  have before := submitted.before
  have clean := submitted.clean
  simp only [pc, AioPc.before, AioPc.clean, decide_eq_true_eq, Bool.and_eq_true] at before clean
  have kept : (if result ≠ Rv.ok ∨ rv ≠ 0 then 1 else 0 : Int) = 0 → result = .ok ∧ rv = 0 := by
    intro zero
    split at zero
    · cases zero
    · next ok => simpa using ok
  refine { submitted with before := ?_, waiting := by simp, waited := ?_, clean := ?_ }
  · intro above
    simp only [AioPc.before, decide_eq_true_eq] at above
    exact before above
  · intro ret' rv' result' same
    obtain ⟨_, rfl, rfl, rfl⟩ := AioPc.waited.inj same
    exact ⟨submitted.waiting ret rv e pc, fun zero => (kept zero).1⟩
  · intro passed
    simp only [AioPc.clean, decide_eq_true_eq, Bool.and_eq_true] at passed
    exact clean ⟨passed.1, (kept passed.2).2⟩

theorem Submitted.passes {result : Rv} (submitted : v.Submitted i)
    (pc : v.pc = .waited ret j rv result) (free : v.flag j = .free) :
    { v with
      pc := .wait ret (j + 1) rv
      notify := Function.update v.notify j none }.Submitted i := by
  have before := submitted.before
  have clean := submitted.clean
  simp only [pc, AioPc.before, AioPc.clean, decide_eq_true_eq, Bool.and_eq_true] at before clean
  have other : i ≠ j := by
    intro same
    subst same
    exact (submitted.waited ret rv result pc).1 free
  refine { submitted with before := ?_, waiting := by simp, waited := by simp, clean := ?_ }
  · intro above
    simp only [AioPc.before, decide_eq_true_eq] at above
    simp only [Function.update_of_ne other]
    exact before (by omega)
  · intro passed
    simp only [AioPc.clean, decide_eq_true_eq, Bool.and_eq_true] at passed
    exact clean ⟨by omega, passed.2⟩

theorem Submitted.takes {result : Rv} {rv' : Int} (submitted : v.Submitted i)
    (pc : v.pc = .waited ret j rv result) (done : result = .ok → v.owned j = 0)
    (taken : rv' = 0 → rv = 0 ∧ NoError (v.res j) (v.res2 j)) :
    { v with
      pc := .freeing ret j rv' result
      notify := Function.update v.notify j none }.Submitted i := by
  have before := submitted.before
  have clean := submitted.clean
  simp only [pc, AioPc.before, AioPc.clean, decide_eq_true_eq, Bool.and_eq_true] at before clean
  refine { submitted with before := ?_, waiting := by simp, waited := by simp, clean := ?_ }
  · intro above
    simp only [AioPc.before, decide_eq_true_eq] at above
    have other : i ≠ j := by omega
    simp only [Function.update_of_ne other]
    exact before above
  · intro passed
    simp only [AioPc.clean, decide_eq_true_eq, Bool.and_eq_true] at passed
    obtain ⟨zero, noError⟩ := taken passed.2
    rcases Nat.lt_or_eq_of_le passed.1 with below | rfl
    · exact clean ⟨below, zero⟩
    · have ok := (submitted.waited ret rv result pc).2 zero
      exact ⟨done ok, noError⟩

theorem Submitted.frees {result : Rv} (submitted : v.Submitted i)
    (pc : v.pc = .freeing ret j rv result) :
    { v with
      pc := .wait ret (j + 1) rv
      flag := Function.update v.flag j .free }.Submitted i := by
  have before := submitted.before
  have clean := submitted.clean
  simp only [pc, AioPc.before, AioPc.clean, decide_eq_true_eq, Bool.and_eq_true] at before clean
  refine { submitted with before := ?_, waiting := by simp, waited := by simp, clean := ?_ }
  · intro above
    simp only [AioPc.before, decide_eq_true_eq] at above
    have other : i ≠ j := by omega
    simp only [Function.update_of_ne other]
    exact before (by omega)
  · intro passed
    simp only [AioPc.clean, decide_eq_true_eq, Bool.and_eq_true] at passed
    exact clean ⟨by omega, passed.2⟩

theorem Submitted.result (submitted : v.Submitted i) (clean : v.pc.clean i = true)
    (fits : ∀ c ∈ v.completions i, fitsInt c.1 = true ∧ fitsInt c.2 = true) :
    v.owned i = 0 ∧ 0 ≤ v.res i ∧ v.completions i = [(v.res i, 0)] ∧
      fitsInt (v.res i) = true := by
  obtain ⟨none, noError⟩ := submitted.clean clean
  have completed := submitted.completed none
  have known := fits (v.res i, v.res2 i) (by simp [completed])
  obtain ⟨positive, second⟩ := noError.of_fits known.1 known.2
  rw [second] at completed
  exact ⟨none, positive, completed, known.1⟩

def complete (v : AioView) (j : Nat) (res res2 : Int) : AioView :=
  { v with
    flag := Function.update v.flag j .done
    res := Function.update v.res j res
    res2 := Function.update v.res2 j res2
    owned := Function.update v.owned j (v.owned j - 1)
    completions := Function.update v.completions j ((res, res2) :: v.completions j) }

theorem Submitted.complete {res res2 : Int} (submitted : v.Submitted i) (owned : v.owned j = 1) :
    (v.complete j res res2).Submitted i := by
  have busy : ∀ {k}, v.flag k ≠ .free → Function.update v.flag j .done k ≠ .free := by
    intro k other
    by_cases same : k = j
    · simp [same]
    · rwa [Function.update_of_ne same]
  by_cases same : i = j
  · subst same
    have empty := submitted.pending (by omega)
    constructor
    case below => exact submitted.below
    case completed => simp [AioView.complete, empty]
    case pending => simp [AioView.complete, owned]
    case before => exact fun before => ⟨(submitted.before before).1, by simp [AioView.complete]⟩
    case waiting => simp [AioView.complete]
    case waited =>
      intro ret rv result pc
      exact ⟨by simp [AioView.complete], (submitted.waited ret rv result pc).2⟩
    case clean =>
      intro clean
      have none := (submitted.clean clean).1
      omega
  · constructor
    case below => exact submitted.below
    case completed => simpa [AioView.complete, same] using submitted.completed
    case pending => simpa [AioView.complete, same] using submitted.pending
    case before =>
      exact fun before => ⟨(submitted.before before).1, busy (submitted.before before).2⟩
    case waiting => exact fun ret rv e pc => busy (submitted.waiting ret rv e pc)
    case waited =>
      intro ret rv result pc
      obtain ⟨other, ok⟩ := submitted.waited ret rv result pc
      exact ⟨busy other, ok⟩
    case clean => simpa [AioView.complete, same] using submitted.clean

theorem Inv.complete {res res2 : Int} (inv : v.Inv) (owned : v.owned j = 1)
    (elsewhere : ∀ r, v.pc ≠ .submit r j) : (v.complete j res res2).Inv := by
  have moved : ∀ i, v.Submitted i → (v.complete j res res2).Submitted i :=
    fun i submitted => submitted.complete owned
  have same : (v.complete j res res2).pc = v.pc := rfl
  unfold Inv at *
  rw [same]
  cases pc : v.pc with
  | submit r i =>
      simp only [pc] at inv ⊢
      obtain ⟨called, empty, notify⟩ := inv
      refine ⟨called, ?_, notify⟩
      have other : i ≠ j := fun same => elsewhere r (same ▸ pc)
      simpa [AioView.complete, other] using empty
  | wait ret i rv =>
      simp only [pc] at inv ⊢
      exact inv.move rfl moved
  | waiting ret i rv e =>
      simp only [pc] at inv ⊢
      exact inv.move rfl moved
  | waited ret i rv result =>
      simp only [pc] at inv ⊢
      exact inv.move rfl moved
  | freeing ret i rv result =>
      simp only [pc] at inv ⊢
      exact inv.move rfl moved
  | scan r i =>
      simp only [pc] at inv ⊢
      exact inv
  | prepare r i =>
      simp only [pc] at inv ⊢
      exact inv
  | outside => trivial
  | dying => trivial

end AioView

/-! ## The steps of a thread -/

section Steps

variable {s s' : AioState} {w : WorkerId} {t u : Tid} {i n : Nat} {rv submitted : Int}
  {aioWq : Tid → Nat} {call : Option (AioRequest × Option Nat)}
  {completions : Nat → List (Int × Int)}

private theorem view_setPc_other {pc : AioPc} (other : u ≠ t) :
    (s.setPc t pc).view u call completions = s.view u call completions := by
  simp [AioState.view, AioState.setPc, other]

private theorem view_setFlag_other {flag : AioFlag} (other : u ≠ t) :
    (s.setFlag t i flag).view u call completions = s.view u call completions := by
  simp [AioState.view, AioState.setFlag, other]

private theorem view_setNotify_other {notify : Option Nat} (other : u ≠ t) :
    (s.setNotify t i notify).view u call completions = s.view u call completions := by
  simp [AioState.view, AioState.setNotify, other]

private theorem view_setRes_other {res res2 : Int} (other : u ≠ t) :
    (s.setRes t i res res2).view u call completions = s.view u call completions := by
  simp [AioState.view, AioState.setRes, other]

private theorem view_setOwned_other {owned : Nat} (other : u ≠ t) :
    (s.setOwned t i owned).view u call completions = s.view u call completions := by
  simp [AioState.view, AioState.setOwned, other]

private theorem view_returns_other (other : u ≠ t) :
    (s.returns t rv).view u call completions = s.view u call completions :=
  view_setPc_other (s := s) other

private theorem view_waitReturns_other {ret : AioReturn} (other : u ≠ t) :
    (s.waitReturns t rv ret).view u call completions = s.view u call completions := by
  cases ret with
  | caller => exact view_returns_other other
  | die => exact view_setPc_other other
  | get r =>
      simp only [AioState.waitReturns]
      split
      · exact view_returns_other other
      · exact view_setPc_other other
  | read size i =>
      simp only [AioState.waitReturns]
      split_ifs <;> exact view_returns_other other
  | write => exact view_returns_other other

private theorem view_submitReturns_other {r : AioRequest} (other : u ≠ t) :
    (s.submitReturns t i rv r).view u call completions = s.view u call completions := by
  cases r with
  | submitWrite _ => exact view_returns_other other
  | submitSync _ => exact view_returns_other other
  | read size =>
      simp only [AioState.submitReturns]
      split
      · exact view_returns_other other
      · exact view_setPc_other other
  | write =>
      simp only [AioState.submitReturns]
      split
      · exact view_returns_other other
      · exact view_setPc_other other

private theorem view_call {a : Action} {after : State → AioState}
    (called : s.call a after = some s')
    (same : ∀ sys, (after sys).view u call completions = s.view u call completions) :
    s'.view u call completions = s.view u call completions := by
  obtain ⟨sys, _, rfl⟩ | ⟨fault, _, rfl⟩ := State.call_cases called
  · exact same sys
  · rfl

/-- A step of thread `t` inside an aio function leaves the slots of the others alone. -/
theorem nextStep_other (stepped : s.nextStep aioWq w t n submitted = some s') (other : u ≠ t) :
    s'.view u call completions = s.view u call completions := by
  cases pc : s.pc t with
  | outside => simp [AioState.nextStep, pc] at stepped
  | dying => simp [AioState.nextStep, pc] at stepped
  | scan r i =>
      simp only [AioState.nextStep, pc] at stepped
      split_ifs at stepped <;> cases stepped <;> exact view_setPc_other other
  | prepare r i =>
      simp only [AioState.nextStep, pc, Option.some.injEq] at stepped
      subst stepped
      rw [view_setPc_other other, view_setRes_other other, view_setNotify_other other,
        view_setFlag_other other]
  | submit r i =>
      simp only [AioState.nextStep, pc] at stepped
      split at stepped
      · cases stepped
        rw [view_submitReturns_other other, view_setOwned_other other]
      · split at stepped
        · refine view_call stepped fun sys => ?_
          rw [view_submitReturns_other other, view_setFlag_other other]
          rfl
        · cases stepped
          rw [view_submitReturns_other other, view_setFlag_other other]
  | wait ret i rv =>
      simp only [AioState.nextStep, pc] at stepped
      split at stepped
      · split at stepped
        · cases stepped
          exact view_setPc_other other
        · refine view_call stepped fun sys => ?_
          rw [view_setPc_other other, view_setNotify_other other]
          rfl
      · cases stepped
        exact view_waitReturns_other other
  | waiting ret i rv e =>
      simp only [AioState.nextStep, pc] at stepped
      split at stepped
      · cases stepped
      · cases stepped
        exact view_setPc_other other
  | waited ret i rv result =>
      simp only [AioState.nextStep, pc] at stepped
      split at stepped <;> cases stepped <;>
        rw [view_setPc_other other, view_setNotify_other other]
  | freeing ret i rv result =>
      simp only [AioState.nextStep, pc, Option.some.injEq] at stepped
      subst stepped
      rw [view_setPc_other other, view_setFlag_other other]

private theorem view_returns : ((s.returns t rv).view t call completions).Inv := by
  simp [AioView.Inv, AioState.view, AioState.returns, AioState.setPc]

private theorem view_waitReturns {ret : AioReturn} (calls : (s.view t call completions).Calls ret) :
    ((s.waitReturns t rv ret).view t call completions).Inv := by
  cases ret with
  | caller => exact view_returns
  | die => simp [AioView.Inv, AioState.view, AioState.waitReturns, AioState.setPc]
  | get r =>
      simp only [AioState.waitReturns]
      split
      · exact view_returns
      · simpa [AioView.Inv, AioView.Calls, AioState.view, AioState.setPc] using calls
  | read size i =>
      simp only [AioState.waitReturns]
      split_ifs <;> exact view_returns
  | write => exact view_returns

private theorem submitted_new {ret : AioReturn} (inv : AioInv s) {r : AioRequest}
    (pc : s.pc t = .submit r i) (empty : completions i = []) (notify : s.notify t i = none) :
    (((s.setOwned t i (s.owned t i + 1)).setPc t (.wait ret 0 0)).view t call completions).Submitted
      i := by
  have at_ := inv.call t
  simp only [AioCall, pc] at at_
  obtain ⟨below, _, pending⟩ := at_
  constructor
  case below => exact below
  case completed => simp [AioState.view, AioState.setOwned, AioState.setPc]
  case pending => exact fun _ => empty
  case before => exact fun _ => ⟨notify, by simp [AioState.view, AioState.setOwned, AioState.setPc, pending]⟩
  case waiting => simp [AioState.view, AioState.setPc]
  case waited => simp [AioState.view, AioState.setPc]
  case clean => simp [AioState.view, AioState.setPc, AioPc.clean]

private theorem submit_view (inv : AioInv s) (view : (s.view t call completions).Inv)
    {r : AioRequest} (pc : s.pc t = .submit r i) (positive : submitted ≠ 0)
    (stepped : s.nextStep aioWq w t n submitted = some s') : (s'.view t call completions).Inv := by
  have own := view
  simp only [AioView.Inv, AioState.view, pc] at own
  obtain ⟨called, empty, notify⟩ := own
  have failed : -submitted ≠ 0 := by omega
  simp only [AioState.nextStep, pc] at stepped
  split at stepped
  · cases stepped
    cases r with
    | submitWrite _ => exact view_returns
    | submitSync _ => exact view_returns
    | read size =>
        exact .of_wait (Function.update_self ..) ⟨called, submitted_new inv pc empty notify⟩
    | write =>
        exact .of_wait (Function.update_self ..) ⟨i, called, submitted_new inv pc empty notify⟩
  · split at stepped
    · next k some =>
      obtain ⟨sys, _, rfl⟩ | ⟨fault, _, rfl⟩ := State.call_cases stepped
      · cases r with
        | submitWrite _ => exact view_returns
        | submitSync _ => exact view_returns
        | read size => cases notify.symm.trans some
        | write => cases notify.symm.trans some
      · exact view
    · cases stepped
      cases r with
      | submitWrite _ => exact view_returns
      | submitSync _ => exact view_returns
      | read size =>
          simp only [AioState.submitReturns, if_pos failed]
          exact view_returns
      | write =>
          simp only [AioState.submitReturns, if_pos failed]
          exact view_returns

private theorem prepare_view {r : AioRequest} (pc : s.pc t = .prepare r i)
    (stepped : s.nextStep aioWq w t n submitted = some s') :
    (s'.view t (some (r, some i)) (Function.update completions i [])).Inv := by
  simp only [AioState.nextStep, pc, Option.some.injEq] at stepped
  subst stepped
  simp [AioView.Inv, AioState.view, AioState.setPc, AioState.setRes, AioState.setNotify]

private theorem next_view (inv : AioInv s) (view : (s.view t call completions).Inv)
    (prepared : ∀ r i, s.pc t ≠ .prepare r i)
    (positive : ∀ r i, s.pc t = .submit r i → submitted ≠ 0)
    (stepped : s.nextStep aioWq w t n submitted = some s') : (s'.view t call completions).Inv := by
  have own := view
  cases pc : s.pc t with
  | outside => simp [AioState.nextStep, pc] at stepped
  | dying => simp [AioState.nextStep, pc] at stepped
  | prepare r i => exact absurd pc (prepared r i)
  | submit r i => exact submit_view inv view pc (positive r i pc) stepped
  | scan r i =>
      simp only [AioView.Inv, AioState.view, pc] at own
      simp only [AioState.nextStep, pc] at stepped
      split_ifs at stepped <;> cases stepped <;>
        simpa [AioView.Inv, AioView.Calls, AioState.view, AioState.setPc] using own
  | wait ret i rv =>
      simp only [AioView.Inv, AioState.view, pc] at own
      simp only [AioState.nextStep, pc] at stepped
      split at stepped
      · split at stepped
        · next notify =>
          cases stepped
          simp only [AioView.Inv, AioState.view, AioState.setPc, Function.update_self]
          exact own.move rfl fun j submitted => submitted.skip rfl notify
        · obtain ⟨sys, _, rfl⟩ | ⟨fault, _, rfl⟩ := State.call_cases stepped
          · simp only [AioView.Inv, AioState.view, AioState.setPc, AioState.setNotify,
              Function.update_self]
            exact own.move rfl fun j submitted => submitted.begins rfl
          · exact view
      · cases stepped
        refine view_waitReturns ?_
        simpa [AioState.view, pc] using own
  | waiting ret i rv e =>
      simp only [AioView.Inv, AioState.view, pc] at own
      simp only [AioState.nextStep, pc] at stepped
      split at stepped
      · cases stepped
      · cases stepped
        simp only [AioView.Inv, AioState.view, AioState.setPc, Function.update_self]
        exact own.move rfl fun j submitted => submitted.wakes rfl
  | waited ret i rv result =>
      have at_ := inv.call t
      simp only [AioCall, pc] at at_
      simp only [AioView.Inv, AioState.view, pc] at own
      simp only [AioState.nextStep, pc] at stepped
      split at stepped
      · next free =>
        cases stepped
        simp only [AioView.Inv, AioState.view, AioState.setPc, AioState.setNotify,
          Function.update_self]
        exact own.move rfl fun j submitted => submitted.passes rfl free
      · cases stepped
        simp only [AioView.Inv, AioState.view, AioState.setPc, AioState.setNotify,
          Function.update_self]
        exact own.move rfl fun j submitted => submitted.takes rfl (fun ok => inv.not_owned (at_ ok))
          AioState.resultOf_eq_zero.mp
  | freeing ret i rv result =>
      simp only [AioView.Inv, AioState.view, pc] at own
      simp only [AioState.nextStep, pc, Option.some.injEq] at stepped
      subst stepped
      simp only [AioView.Inv, AioState.view, AioState.setPc, AioState.setFlag, Function.update_self]
      exact own.move rfl fun j submitted => submitted.frees rfl

/-- A call that returns 0 after `tc_aio_wait` has the results of its own request. -/
theorem waitReturns_zero {r : AioRequest} {slot : Option Nat} {ret : AioReturn} {j : Nat}
    (view : (s.view t (some (r, slot)) completions).Inv) (waits : r.waits = true)
    (fits : ∀ i, ∀ c ∈ completions i, fitsInt c.1 = true ∧ fitsInt c.2 = true)
    (pc : s.pc t = .wait ret j rv) (all : aioRequestsPerTcThread ≤ j)
    (outside : (s.waitReturns t rv ret).pc t = .outside)
    (zero : (s.waitReturns t rv ret).returned t = some 0) :
    AioAnswer.Completed ⟨r, some 0, slot.elim [] completions, slot.elim 0 (s.owned t)⟩ := by
  have own : ∀ i, (s.view t (some (r, slot)) completions).Submitted i → rv = 0 →
      s.owned t i = 0 ∧ 0 ≤ s.res t i ∧ completions i = [(s.res t i, 0)] ∧
        fitsInt (s.res t i) = true := by
    intro i submitted zero
    have below := submitted.below
    refine submitted.result ?_ (fits i)
    simp only [AioState.view, pc, AioPc.clean, Bool.and_eq_true, decide_eq_true_eq]
    exact ⟨by omega, zero⟩
  have calls : (s.view t (some (r, slot)) completions).Calls ret := by
    simpa only [AioView.Inv, AioState.view, pc] using view
  cases ret with
  | caller => cases calls
  | die => simp [AioState.waitReturns, AioState.setPc] at outside
  | get r' =>
      obtain ⟨rfl, _⟩ := Prod.mk.inj (Option.some.inj calls)
      -- the function returns `RV_FAILED`
      simp only [AioState.waitReturns] at outside zero
      split at zero
      · cases r <;>
          simp [AioState.returns, AioRequest.unavailable, rvFailed, AioRequest.waits] at zero waits
      · next ok => simp [ok, AioState.setPc] at outside
  | read size i =>
      obtain ⟨called, submitted⟩ := calls
      obtain ⟨rfl, rfl⟩ := Prod.mk.inj (Option.some.inj called)
      simp only [AioState.waitReturns] at zero
      split_ifs at zero with failed whole some
      · simp [AioState.returns, failed] at zero
      · obtain ⟨back, positive, once, _⟩ := own i submitted (not_not.mp failed)
        refine ⟨back, s.res t i, positive, once, fun size' same => ?_⟩
        cases same
        exact ⟨by omega, whole.2⟩
      · obtain ⟨_, _, _, fits⟩ := own i submitted (not_not.mp failed)
        simp [AioState.returns, toInt_of_fits fits, some] at zero
      · simp [AioState.returns] at zero
  | write =>
      obtain ⟨i, called, submitted⟩ := calls
      obtain ⟨rfl, rfl⟩ := Prod.mk.inj (Option.some.inj called)
      have returned : rv = 0 := by simpa [AioState.waitReturns, AioState.returns] using zero
      obtain ⟨back, positive, once, _⟩ := own i submitted returned
      exact ⟨back, s.res t i, positive, once, by simp⟩

private theorem waitReturns_owned {ret : AioReturn} : (s.waitReturns t rv ret).owned = s.owned := by
  cases ret with
  | caller => rfl
  | die => rfl
  | get r =>
      simp only [AioState.waitReturns]
      split <;> rfl
  | read size i =>
      simp only [AioState.waitReturns]
      split_ifs <;> rfl
  | write => rfl

private theorem next_zero {r : AioRequest} {slot : Option Nat}
    (view : (s.view t (some (r, slot)) completions).Inv) (waits : r.waits = true)
    (fits : ∀ i, ∀ c ∈ completions i, fitsInt c.1 = true ∧ fitsInt c.2 = true)
    (positive : ∀ r i, s.pc t = .submit r i → submitted ≠ 0)
    (stepped : s.nextStep aioWq w t n submitted = some s') (outside : s'.pc t = .outside)
    (zero : s'.returned t = some 0) :
    AioAnswer.Completed ⟨r, some 0, slot.elim [] completions, slot.elim 0 (s'.owned t)⟩ := by
  cases pc : s.pc t with
  | outside => simp [AioState.nextStep, pc] at stepped
  | dying => simp [AioState.nextStep, pc] at stepped
  | scan r i =>
      simp only [AioState.nextStep, pc] at stepped
      split_ifs at stepped <;> cases stepped <;> simp [AioState.setPc] at outside
  | prepare r i =>
      simp only [AioState.nextStep, pc, Option.some.injEq] at stepped
      subst stepped
      simp [AioState.setPc] at outside
  | submit r' i =>
      have failed : -submitted ≠ 0 := by
        have some := positive r' i pc
        omega
      simp only [AioView.Inv, AioState.view, pc] at view
      obtain ⟨called, _, notify⟩ := view
      obtain ⟨rfl, _⟩ := Prod.mk.inj (Option.some.inj called)
      simp only [AioState.nextStep, pc] at stepped
      cases r with
      | submitWrite _ => cases waits
      | submitSync _ => cases waits
      | read size =>
          rw [notify] at stepped
          simp only [AioState.submitReturns, AioRequest.notify, if_pos failed] at stepped
          split at stepped
          · cases stepped
            simp [AioState.setPc] at outside
          · cases stepped
            simp [AioState.returns, failed] at zero
      | write =>
          rw [notify] at stepped
          simp only [AioState.submitReturns, AioRequest.notify, if_pos failed] at stepped
          split at stepped
          · cases stepped
            simp [AioState.setPc] at outside
          · cases stepped
            simp [AioState.returns, failed] at zero
  | wait ret j rv =>
      simp only [AioState.nextStep, pc] at stepped
      split at stepped
      · split at stepped
        · cases stepped
          simp [AioState.setPc] at outside
        · obtain ⟨sys, _, rfl⟩ | ⟨fault, _, rfl⟩ := State.call_cases stepped
          · simp [AioState.setPc] at outside
          · simp [pc] at outside
      · next all =>
        cases stepped
        rw [waitReturns_owned]
        exact waitReturns_zero view waits fits pc (Nat.le_of_not_lt all) outside zero
  | waiting ret i rv e =>
      simp only [AioState.nextStep, pc] at stepped
      split at stepped
      · cases stepped
      · cases stepped
        simp [AioState.setPc] at outside
  | waited ret i rv result =>
      simp only [AioState.nextStep, pc] at stepped
      split at stepped <;> cases stepped <;> simp [AioState.setPc] at outside
  | freeing ret i rv result =>
      simp only [AioState.nextStep, pc, Option.some.injEq] at stepped
      subst stepped
      simp [AioState.setPc] at outside

end Steps

structure HistoryInv (s : AioHistory) : Prop where
  aio : AioInv s.aio
  view : ∀ t, (s.view t).Inv
  fits : ∀ t i, ∀ c ∈ s.completions t i, fitsInt c.1 = true ∧ fitsInt c.2 = true
  answers : ∀ t, ∀ x ∈ s.answers t, x.request.waits = true → x.rv = some 0 → x.Completed

section History

variable {s s' : AioHistory} {aio : AioState} {aioWq : Tid → Nat} {w : WorkerId} {t : Tid}
  {n : Nat} {submitted : Int}

private theorem AioHistory.mem_setCompletions {c : Int × Int} {l : List (Int × Int)} {u : Tid}
    {i j : Nat} (member : c ∈ (s.setCompletions t i l).completions u j) :
    c ∈ l ∨ c ∈ s.completions u j := by
  by_cases same : u = t
  · subst same
    by_cases slot : j = i
    · subst slot
      simp only [AioHistory.setCompletions, Function.update_self] at member
      exact .inl member
    · simp only [AioHistory.setCompletions, Function.update_self,
        Function.update_of_ne slot] at member
      exact .inr member
  · simp only [AioHistory.setCompletions, Function.update_of_ne same] at member
    exact .inr member

theorem HistoryInv.keeps (inv : HistoryInv s) (after : AioInv aio)
    (same : ∀ t, aio.view t (s.calls t) (s.completions t) = s.view t) :
    HistoryInv { s with aio := aio } where
  aio := after
  view t := by
    rw [AioHistory.view, same]
    exact inv.view t
  fits := inv.fits
  answers := inv.answers

theorem HistoryInv.beginStep (inv : HistoryInv s) {op : AioOp} (after : AioInv aio)
    (outside : s.aio.pc t = .outside) (stepped : s.aio.beginStep w t op = some aio) :
    HistoryInv { s with
      calls := Function.update s.calls t (op.request?.map fun r => (r, none))
      aio := aio } where
  aio := after
  view u := by
    by_cases same : u = t
    · subst same
      cases op with
      | wait =>
          cases stepped
          simp [AioHistory.view, AioState.view, AioView.Inv, AioView.Calls, AioState.setPc,
            AioOp.request?]
      | request r =>
          cases stepped
          simp [AioHistory.view, AioState.view, AioView.Inv, AioState.setPc, AioOp.request?]
      | die =>
          simp only [AioState.beginStep] at stepped
          obtain ⟨sys, _, rfl⟩ | ⟨fault, _, rfl⟩ := State.call_cases stepped
          · simp [AioHistory.view, AioState.view, AioView.Inv, AioView.Calls, AioState.setPc]
          · simp [AioHistory.view, AioState.view, AioView.Inv, outside]
    · have other : aio.view u (s.calls u) (s.completions u) = s.view u := by
        cases op with
        | wait =>
            cases stepped
            exact view_setPc_other same
        | request r =>
            cases stepped
            exact view_setPc_other same
        | die => exact view_call stepped fun sys => view_setPc_other same
      simp only [AioHistory.view, Function.update_of_ne same, other]
      exact inv.view u
  fits := inv.fits
  answers := inv.answers

theorem HistoryInv.prepare (inv : HistoryInv s) {r : AioRequest} {i : Nat} (after : AioInv aio)
    (pc : s.aio.pc t = .prepare r i) (stepped : s.aio.nextStep aioWq w t n submitted = some aio) :
    HistoryInv { s.setCompletions t i [] with
      calls := Function.update s.calls t (some (r, some i))
      aio := aio } where
  aio := after
  view u := by
    by_cases same : u = t
    · subst same
      simp only [AioHistory.view, AioHistory.setCompletions, Function.update_self]
      exact prepare_view pc stepped
    · simp only [AioHistory.view, AioHistory.setCompletions, Function.update_of_ne same,
        nextStep_other stepped same]
      exact inv.view u
  fits u j c member := by
    rcases AioHistory.mem_setCompletions member with new | before
    · cases new
    · exact inv.fits u j c before
  answers := inv.answers

theorem HistoryInv.next (inv : HistoryInv s) (after : AioInv aio)
    (prepared : ∀ r i, s.aio.pc t ≠ .prepare r i)
    (positive : ∀ r i, s.aio.pc t = .submit r i → submitted ≠ 0)
    (stepped : s.aio.nextStep aioWq w t n submitted = some aio) :
    HistoryInv { s with aio := aio } where
  aio := after
  view u := by
    by_cases same : u = t
    · subst same
      exact next_view inv.aio (inv.view u) prepared positive stepped
    · simp only [AioHistory.view, nextStep_other stepped same]
      exact inv.view u
  fits := inv.fits
  answers := inv.answers

private theorem HistoryInv.answer (inv : HistoryInv s) (next : HistoryInv { s with aio := aio })
    (zero : ∀ r slot, s.calls t = some (r, slot) → r.waits = true → aio.returned t = some 0 →
      AioAnswer.Completed ⟨r, some 0, slot.elim [] (s.completions t), slot.elim 0 (aio.owned t)⟩) :
    HistoryInv { s.answer t aio with aio := aio } := by
  unfold AioHistory.answer
  split
  · next r slot called =>
    refine ⟨next.aio, next.view, next.fits, fun u x member waits returned => ?_⟩
    dsimp only at member
    by_cases same : u = t
    · subst same
      rw [Function.update_self, List.mem_cons] at member
      rcases member with rfl | before
      · dsimp only at returned
        rw [returned]
        exact zero r slot called waits returned
      · exact inv.answers u x before waits returned
    · rw [Function.update_of_ne same] at member
      exact inv.answers u x member waits returned
  · exact next

theorem HistoryInv.complete (inv : HistoryInv s) {i : Nat} {res res2 : Int}
    (after : AioInv (s.aio.complete w t i res res2)) (owned : 0 < s.aio.owned t i)
    (fits : fitsInt res = true ∧ fitsInt res2 = true) :
    HistoryInv { s.setCompletions t i ((res, res2) :: s.completions t i) with
      aio := s.aio.complete w t i res res2 } where
  aio := after
  view u := by
    by_cases alive : s.aio.sys.status t = .dead
    · -- the process ends; the thread has left `tc_aio_wait`
      by_cases same : u = t
      · subst same
        have dying := inv.aio.dying u (by simp [alive, Status.waited])
        simp [AioState.complete, alive, AioHistory.view, AioState.view, AioView.Inv, dying]
      · have view := inv.view u
        simpa [AioState.complete, alive, AioHistory.view, AioState.view, AioHistory.setCompletions,
          same] using view
    · by_cases same : u = t
      · subst same
        have view : ((s.view u).complete i res res2).Inv :=
          (inv.view u).complete (inv.aio.owned u i owned).1 fun r (pc : s.aio.pc u = _) => by
            have call := inv.aio.call u
            simp only [AioCall, pc] at call
            omega
        simpa [AioState.complete, alive, AioHistory.view, AioState.view, AioView.complete,
          AioState.setOwned, AioState.setFlag, AioState.setRes, AioHistory.setCompletions] using view
      · have view := inv.view u
        simpa [AioState.complete, alive, AioHistory.view, AioState.view, AioState.setOwned,
          AioState.setFlag, AioState.setRes, AioHistory.setCompletions, same] using view
  fits u j c member := by
    rcases AioHistory.mem_setCompletions member with new | before
    · rcases List.mem_cons.mp new with rfl | before
      · exact fits
      · exact inv.fits t i c before
    · exact inv.fits u j c before
  answers := inv.answers

theorem HistoryInv.step (inv : HistoryInv s) {l : AioAction} (completed : s.aio.freesCompleted l = true)
    (kernel : s.aio.kernel l = true) (stepped : s.step aioWq l = some s') : HistoryInv s' := by
  obtain ⟨aio, moved, rfl⟩ := Option.map_eq_some_iff.mp stepped
  have after : AioInv aio := inv.aio.step completed moved
  cases l with
  | system a =>
      simp only [AioState.step] at moved
      split at moved
      · obtain ⟨sys, _, rfl⟩ := Option.map_eq_some_iff.mp moved
        exact inv.keeps after fun t => rfl
      · cases moved
  | begin w op =>
      simp only [AioState.step] at moved
      split at moved
      · next t on =>
        split at moved
        · next guard =>
          simp only [AioHistory.records, on]
          exact inv.beginStep after guard.2.2 moved
        · cases moved
      · cases moved
  | next w n submitted =>
      simp only [AioState.step] at moved
      split at moved
      · next t on =>
        split at moved
        · have positive : ∀ r i, s.aio.pc t = .submit r i → submitted ≠ 0 := by
            intro r i pc
            simpa [AioState.kernel, on, pc] using kernel
          simp only [AioHistory.records, on]
          split
          · next r i pc => exact inv.prepare after pc moved
          · next prepared =>
            have next := inv.next after prepared positive moved
            split
            · next outside =>
              refine inv.answer next fun r slot called waits zero => ?_
              have view := inv.view t
              rw [AioHistory.view, called] at view
              exact next_zero view waits (inv.fits t) positive moved outside zero
            · exact next
        · cases moved
      · cases moved
  | completed w t i res res2 =>
      simp only [AioState.step] at moved
      split at moved
      · next guard =>
        cases moved
        exact inv.complete after guard.2.2.2 (by simpa [AioState.kernel] using kernel)
      · cases moved
  | notify w =>
      simp only [AioState.step] at moved
      split at moved
      · split at moved
        · split at moved
          · cases moved
            exact inv.keeps after fun t => rfl
          · split at moved
            · exact inv.keeps after fun t => view_call moved fun sys => rfl
            · cases moved
              exact inv.keeps after fun t => rfl
        · cases moved
      · cases moved

theorem HistoryInv.initial (workers : Nat) (domainOf : WorkerId → DomainId) :
    HistoryInv (.initial workers domainOf) where
  aio := .initial workers domainOf
  view t := by simp [AioHistory.view, AioState.view, AioView.Inv, AioHistory.initial, AioState.initial]
  fits t i c member := by simp [AioHistory.initial] at member
  answers t x member := by simp [AioHistory.initial] at member

end History

/-- In every run in which `tc_aio_wait` frees no slot of the kernel: a call of `tc_aio_read` or
`tc_aio_write` that has returned 0 has had its own request completed, without an error, and the
read all the bytes it asked for. -/
theorem aio_call_completed {aioWq : Tid → Nat} {workers : Nat} {domainOf : WorkerId → DomainId}
    {s : AioHistory} (run : Transition.Run (AioHistory.step aioWq)
      (fun s l => (s.aio.freesCompleted l && s.aio.kernel l) = true) (.initial workers domainOf) s)
    {t : Tid} {x : AioAnswer} (member : x ∈ s.answers t) (waits : x.request.waits = true)
    (zero : x.rv = some 0) : x.Completed := by
  have inv : HistoryInv s := run.invariant HistoryInv (.initial workers domainOf)
    fun inv allowed stepped => by
      obtain ⟨completed, kernel⟩ := Bool.and_eq_true_iff.mp allowed
      exact inv.step completed kernel stepped
  exact inv.answers t x member waits zero

/-- `tc_aio_wait` finds the slots 1 to 7 done, or free, and returns. -/
def aioPasses (n : Nat) : List AioAction :=
  (List.range 7).flatMap (fun k =>
    [.next 0 (n + k) 0, .system (.condition 0 true), .next 0 0 0, .next 0 0 0]) ++ [.next 0 0 0]

/-- The thread sleeps until a completion of 512 bytes for slot 0 comes. -/
def aioReads (n : Nat) : List AioAction :=
  [.next 0 n 0, .system (.condition 0 false), .system (.advance 0), .system (.condition 0 false),
    .system (.advance 0), .system (.leave 0), .completed 0 1 0 512 0, .notify 0,
    .system (.runImmediate 0 .any), .system (.enter 0), .system (.advance 0),
    .system (.advance 0), .system (.condition 0 true), .system (.advance 0), .next 0 0 0,
    .next 0 0 0, .next 0 0 0] ++ aioPasses (n + 1)

set_option maxRecDepth 20000 in
theorem aio_call_completed_read :
    ∃ s, Transition.Run (AioHistory.step fun t => 100 + t)
        (fun s l => (s.aio.freesCompleted l && s.aio.kernel l) = true) (.initial 1 fun _ => 0) s ∧
      s.answers 1 = [⟨.read 512, some 0, [(512, 0)], 0⟩] ∧
      AioAnswer.Completed ⟨.read 512, some 0, [(512, 0)], 0⟩ := by
  obtain ⟨s, run, answers⟩ := Transition.exists_run
    (Transition.guarded (AioHistory.step fun t => 100 + t) fun s l => s.aio.freesCompleted l && s.aio.kernel l)
    (.initial 1 fun _ => 0) (aioStarts ++ aioSubmits (.read 512) ++ aioReads 8)
    (fun s => s.answers 1 = [⟨.read 512, some 0, [(512, 0)], 0⟩]) (by decide)
  have only : s.answers 1 = [⟨.read 512, some 0, [(512, 0)], 0⟩] := by simpa using answers
  have member : ⟨.read 512, some 0, [(512, 0)], 0⟩ ∈ s.answers 1 := only ▸ List.mem_singleton_self _
  exact ⟨s, run.of_guarded, only, aio_call_completed run.of_guarded member rfl rfl⟩

set_option maxRecDepth 20000 in
/-- After a wait that a signal has interrupted, the completion of the write makes the next
`tc_aio_read` return 0, with its own request in the kernel. -/
theorem stale_completion_taken :
    ∃ s, Transition.Run (AioHistory.step fun t => 100 + t) (fun s l => s.aio.kernel l = true)
        (.initial 1 fun _ => 0) s ∧ ⟨.read 512, some 0, [(512, 0)], 1⟩ ∈ s.answers 1 := by
  obtain ⟨s, run, answered⟩ := Transition.exists_run
    (Transition.guarded (AioHistory.step fun t => 100 + t) fun s l => s.aio.kernel l)
    (.initial 1 fun _ => 0)
    (aioInterrupted ++ aioPasses 9 ++ [.begin 0 (.request (.read 512)), .next 0 0 0, .next 0 0 0,
      .next 0 0 1] ++ aioReads 16)
    (fun s => (⟨.read 512, some 0, [(512, 0)], 1⟩ : AioAnswer) ∈ s.answers 1) (by decide)
  exact ⟨s, run.of_guarded, by simpa using answered⟩

end Libtcr
