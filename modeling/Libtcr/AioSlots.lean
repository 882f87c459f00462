import Libtcr.AioProperties

/-! `_tc_aio_get_aio_data` on the slots of one thread when the kernel owns none of them: a slot
whose flag is 0 then stays so, and `tc_aio_wait` would sleep for ever on it. No signal comes. -/

set_option autoImplicit false

namespace Libtcr

/-- The slots `tc->aio` of a thread. -/
structure AioSlots where
  flag : Nat → AioFlag
  notify : Nat → Option Nat
  res : Nat → Int
  res2 : Nat → Int

def AioState.slots (s : AioState) (t : Tid) : AioSlots :=
  ⟨s.flag t, s.notify t, s.res t, s.res2 t⟩

namespace AioSlots

def setFree (a : AioSlots) (i : Nat) : AioSlots := { a with flag := Function.update a.flag i .free }

def resultOf (a : AioSlots) (i : Nat) (rv : Int) : Int :=
  let rv := if a.res i < 0 ∧ rv = 0 then toInt (a.res i) else rv
  if a.res2 i ≠ 0 ∧ rv = 0 then toInt (a.res2 i) else rv

/-- One turn of the loop of `tc_aio_wait`, with `rv` from the turns before; `none` if the call of
`tc_waitq_wait_event` sleeps. -/
def waitTurn (a : AioSlots) (i : Nat) (rv : Int) : Option (AioSlots × Int) :=
  if a.notify i ≠ none then some (a, rv)
  else
    match a.flag i with
    | .pending => none
    | .free => some (a, if rv ≠ 0 then 1 else 0)
    | .done => some (a.setFree i, a.resultOf i (if rv ≠ 0 then 1 else 0))

/-- The loop of `tc_aio_wait` with `n` turns left. -/
def waitFrom (a : AioSlots) (rv : Int) : Nat → Option (AioSlots × Int)
  | 0 => some (a, rv)
  | n + 1 =>
    match a.waitTurn (aioRequestsPerTcThread - (n + 1)) rv with
    | none => none
    | some (a', rv') => a'.waitFrom rv' n

def tcAioWait (a : AioSlots) : Option (AioSlots × Int) := a.waitFrom 0 aioRequestsPerTcThread

/-- `_tc_aio_get_aio_data` with at most `fuel` turns of its outer loop: the slot, or the value of
`tc_aio_wait` that it returns. -/
def tcAioGetAioData (a : AioSlots) : Nat → Option (Except Int (Nat × AioSlots))
  | 0 => none
  | fuel + 1 =>
    match (List.range aioRequestsPerTcThread).find? fun i => a.flag i = .free with
    | some i => some (.ok (i, a))
    | none =>
      match a.tcAioWait with
      | none => none
      | some (a', rv) => if rv ≠ 0 then some (.error rv) else a'.tcAioGetAioData fuel

def GetsSlot (a : AioSlots) : Prop :=
  ∃ fuel i a', a.tcAioGetAioData fuel = some (.ok (i, a')) ∧ i < aioRequestsPerTcThread ∧
    a'.flag i = .free

def Clean (a : AioSlots) (i : Nat) : Prop := a.flag i = .done ∧ a.resultOf i 0 = 0

def Reclaimable (a : AioSlots) : Prop :=
  (∃ i < aioRequestsPerTcThread, a.flag i = .free) ∨
    (∃ i < aioRequestsPerTcThread, a.notify i = none) ∧
      ∀ i < aioRequestsPerTcThread, a.notify i = none → a.Clean i

/-! ## `tc_aio_wait` -/

variable {a a' : AioSlots} {i n : Nat} {rv : Int}

private theorem resultOf_error (failed : rv ≠ 0) : a.resultOf i rv = rv := by
  simp [resultOf, failed]

private theorem waitTurn_some {out : AioSlots × Int} (turned : a.waitTurn i rv = some out) :
    a.notify i ≠ none ∧ out = (a, rv) ∨
      a.notify i = none ∧ a.flag i = .free ∧ out = (a, if rv ≠ 0 then 1 else 0) ∨
      a.notify i = none ∧ a.flag i = .done ∧
        out = (a.setFree i, a.resultOf i (if rv ≠ 0 then 1 else 0)) := by
  unfold waitTurn at turned
  split at turned
  · next skipped => exact .inl ⟨skipped, (Option.some.inj turned).symm⟩
  · next waits =>
    have none : a.notify i = none := not_not.mp waits
    split at turned
    · cases turned
    · next free => exact .inr (.inl ⟨none, free, (Option.some.inj turned).symm⟩)
    · next done => exact .inr (.inr ⟨none, done, (Option.some.inj turned).symm⟩)

private theorem waitTurn_error {out : AioSlots × Int} (turned : a.waitTurn i rv = some out)
    (failed : rv ≠ 0) : out.2 ≠ 0 := by
  rcases waitTurn_some turned with ⟨_, rfl⟩ | ⟨_, _, rfl⟩ | ⟨_, _, rfl⟩
  · exact failed
  · simp [failed]
  · rw [if_pos failed, resultOf_error one_ne_zero]
    exact one_ne_zero

private theorem waitFrom_error {out : AioSlots × Int} (waited : a.waitFrom rv n = some out)
    (failed : rv ≠ 0) : out.2 ≠ 0 := by
  induction n generalizing a rv with
  | zero =>
      cases waited
      exact failed
  | succ n ih =>
      unfold waitFrom at waited
      split at waited
      · cases waited
      · next a₁ rv₁ turned => exact ih waited (waitTurn_error turned failed)

private theorem waitFrom_notified (notified : ∀ i < aioRequestsPerTcThread, a.notify i ≠ none)
    (left : n ≤ aioRequestsPerTcThread) : a.waitFrom rv n = some (a, rv) := by
  induction n with
  | zero => rfl
  | succ n ih =>
      have inside : aioRequestsPerTcThread - (n + 1) < aioRequestsPerTcThread := by omega
      have turned : a.waitTurn (aioRequestsPerTcThread - (n + 1)) rv = some (a, rv) :=
        if_pos (notified _ inside)
      simp only [waitFrom, turned]
      exact ih (by omega)

private theorem setFree_flag (a : AioSlots) (i j : Nat) :
    (a.setFree i).flag j = if j = i then .free else a.flag j := by
  simp [setFree, Function.update_apply]

private theorem waitFrom_clean (left : n ≤ aioRequestsPerTcThread)
    (clean : ∀ i, aioRequestsPerTcThread - n ≤ i → i < aioRequestsPerTcThread →
      a.notify i = none → a.Clean i) :
    ∃ a', a.waitFrom 0 n = some (a', 0) ∧ ∀ j, a'.flag j =
      if aioRequestsPerTcThread - n ≤ j ∧ j < aioRequestsPerTcThread ∧ a.notify j = none then .free
      else a.flag j := by
  induction n generalizing a with
  | zero => exact ⟨a, rfl, fun j => by rw [if_neg]; omega⟩
  | succ n ih =>
      generalize index : aioRequestsPerTcThread - (n + 1) = i
      have inside : i < aioRequestsPerTcThread := by omega
      have next : aioRequestsPerTcThread - n = i + 1 := by omega
      rw [next] at ih
      rw [index] at clean
      unfold waitFrom
      rw [index]
      by_cases waits : a.notify i = none
      · obtain ⟨done, result⟩ := clean i le_rfl inside waits
        have turned : a.waitTurn i 0 = some (a.setFree i, 0) := by
          simp [waitTurn, waits, done, result]
        have others : ∀ j, i + 1 ≤ j → j < aioRequestsPerTcThread → (a.setFree i).notify j = none →
            (a.setFree i).Clean j := by
          intro j above below unnotified
          obtain ⟨done, result⟩ := clean j (by omega) below unnotified
          exact ⟨by rw [setFree_flag, if_neg (by omega)]; exact done, result⟩
        obtain ⟨a', waited, flags⟩ := ih (by omega) others
        refine ⟨a', by simp only [turned, waited], fun j => ?_⟩
        rw [flags, setFree_flag]
        by_cases same : j = i
        · subst same
          simp [inside, waits]
        · have order : i + 1 ≤ j ↔ i ≤ j := by omega
          simp only [order, if_neg same]
          rfl
      · have turned : a.waitTurn i 0 = some (a, 0) := if_pos waits
        obtain ⟨a', waited, flags⟩ := ih (by omega) fun j above => clean j (by omega)
        refine ⟨a', by simp only [turned, waited], fun j => ?_⟩
        rw [flags]
        by_cases same : j = i
        · subst same
          simp [waits]
        · have order : i + 1 ≤ j ↔ i ≤ j := by omega
          simp only [order]

private theorem clean_of_waitFrom (left : n ≤ aioRequestsPerTcThread)
    (busy : ∀ i < aioRequestsPerTcThread, aioRequestsPerTcThread - n ≤ i → a.flag i ≠ .free)
    (waited : a.waitFrom 0 n = some (a', 0)) :
    ∀ i, aioRequestsPerTcThread - n ≤ i → i < aioRequestsPerTcThread → a.notify i = none →
      a.Clean i := by
  induction n generalizing a with
  | zero => intro i above below; omega
  | succ n ih =>
      generalize index : aioRequestsPerTcThread - (n + 1) = k at *
      have inside : k < aioRequestsPerTcThread := by omega
      have next : aioRequestsPerTcThread - n = k + 1 := by omega
      rw [next] at ih
      unfold waitFrom at waited
      rw [index] at waited
      intro i above below unnotified
      split at waited
      · cases waited
      · next a₁ rv₁ turned =>
        rcases waitTurn_some turned with ⟨skipped, equal⟩ | ⟨_, free, _⟩ | ⟨_, done, equal⟩
        · cases equal
          have later : k + 1 ≤ i := by
            have apart : i ≠ k := fun same => skipped (same ▸ unnotified)
            omega
          exact ih (by omega) (fun j below above => busy j below (by omega)) waited i later below
            unnotified
        · exact absurd free (busy k inside le_rfl)
        · cases equal
          have result : a.resultOf k 0 = 0 := by
            by_contra failed
            exact waitFrom_error waited (by simpa using failed) rfl
          by_cases same : i = k
          · subst same
            exact ⟨done, result⟩
          · simp only [ne_eq, not_true_eq_false, ↓reduceIte, result] at waited
            have clean := ih (a := a.setFree k) (by omega)
              (fun j below above => by
                rw [setFree_flag, if_neg (by omega)]
                exact busy j below (by omega)) waited i (by omega) below unnotified
            exact ⟨by simpa [setFree_flag, same] using clean.1, clean.2⟩

/-! ## `_tc_aio_get_aio_data` -/

private theorem find_free {i : Nat}
    (found : (List.range aioRequestsPerTcThread).find? (fun i => a.flag i = .free) = some i) :
    i < aioRequestsPerTcThread ∧ a.flag i = .free :=
  ⟨List.mem_range.mp (List.mem_of_find?_eq_some found), by simpa using List.find?_some found⟩

private theorem find_none
    (found : (List.range aioRequestsPerTcThread).find? (fun i => a.flag i = .free) = none) :
    ∀ i < aioRequestsPerTcThread, a.flag i ≠ .free := by
  intro i below
  simpa using List.find?_eq_none.mp found i (List.mem_range.mpr below)

private theorem getsSlot_of_free {i : Nat} (below : i < aioRequestsPerTcThread)
    (free : a.flag i = .free) :
    ∃ j, a.tcAioGetAioData 1 = some (.ok (j, a)) ∧ j < aioRequestsPerTcThread ∧ a.flag j = .free := by
  cases found : (List.range aioRequestsPerTcThread).find? fun i => a.flag i = .free with
  | none => exact absurd free (find_none found i below)
  | some j => exact ⟨j, by simp [tcAioGetAioData, found], find_free found⟩

private theorem gets_cases {fuel : Nat} {out : Nat × AioSlots}
    (returned : a.tcAioGetAioData (fuel + 1) = some (.ok out)) :
    (∃ i < aioRequestsPerTcThread, a.flag i = .free) ∨
      (∀ i < aioRequestsPerTcThread, a.flag i ≠ .free) ∧
        ∃ a₁, a.tcAioWait = some (a₁, 0) ∧ a₁.tcAioGetAioData fuel = some (.ok out) := by
  unfold tcAioGetAioData at returned
  split at returned
  · next i found => exact .inl ⟨i, find_free found⟩
  · next found =>
    split at returned
    · cases returned
    · next a₁ rv waited =>
      split at returned
      · cases returned
      · next ok =>
        obtain rfl : rv = 0 := not_not.mp ok
        exact .inr ⟨find_none found, a₁, waited, returned⟩

private theorem reclaimable_of_gets {fuel : Nat} {out : Nat × AioSlots}
    (returned : a.tcAioGetAioData fuel = some (.ok out)) : a.Reclaimable := by
  induction fuel generalizing a with
  | zero => cases returned
  | succ fuel ih =>
      rcases gets_cases returned with free | ⟨busy, a₁, waited, rest⟩
      · exact .inl free
      · by_cases reclaims : ∃ i < aioRequestsPerTcThread, a.notify i = none
        · have clean := clean_of_waitFrom le_rfl (fun i below _ => busy i below) waited
          exact .inr ⟨reclaims, fun i below => clean i (by omega) below⟩
        · -- nothing has changed, and the loop goes on as before
          have notified : ∀ i < aioRequestsPerTcThread, a.notify i ≠ none :=
            fun i below none => reclaims ⟨i, below, none⟩
          have same : a.waitFrom 0 aioRequestsPerTcThread = some (a, 0) :=
            waitFrom_notified notified le_rfl
          obtain rfl : a = a₁ := congrArg Prod.fst (Option.some.inj (same.symm.trans waited))
          exact ih rest

private theorem getsSlot_turn : a.GetsSlot ↔ (∃ i < aioRequestsPerTcThread, a.flag i = .free) ∨
    ∃ a', a.tcAioWait = some (a', 0) ∧ a'.GetsSlot := by
  constructor
  · rintro ⟨fuel, i, a', returned, known⟩
    cases fuel with
    | zero => cases returned
    | succ fuel =>
        rcases gets_cases returned with free | ⟨_, a₁, waited, rest⟩
        · exact .inl free
        · exact .inr ⟨a₁, waited, fuel, i, a', rest, known⟩
  · rintro (⟨i, below, free⟩ | ⟨a₁, waited, fuel, i, a', returned, known⟩)
    · obtain ⟨j, returned⟩ := getsSlot_of_free below free
      exact ⟨1, j, a, returned⟩
    · cases found : (List.range aioRequestsPerTcThread).find? fun i => a.flag i = .free with
      | some j => exact ⟨1, j, a, by simp [tcAioGetAioData, found], find_free found⟩
      | none =>
          refine ⟨fuel + 1, i, a', ?_, known⟩
          unfold tcAioGetAioData
          simp only [found, waited, ne_eq, not_true_eq_false, ↓reduceIte, returned]

end AioSlots

/-- `_tc_aio_get_aio_data` terminates with a free slot if and only if there is one, or some slot
has no `notify` and all of these are done without an error. -/
theorem aio_gets_slot_iff (a : AioSlots) : a.GetsSlot ↔ a.Reclaimable := by
  constructor
  · rintro ⟨fuel, i, a', returned, _⟩
    exact AioSlots.reclaimable_of_gets returned
  · rintro (free | ⟨⟨i, below, unnotified⟩, clean⟩)
    · exact AioSlots.getsSlot_turn.mpr (.inl free)
    · -- The second turn finds the slot.
      obtain ⟨a', waited, flags⟩ := AioSlots.waitFrom_clean (a := a) le_rfl
        (fun i _ below => clean i below)
      have free : a'.flag i = .free := by
        rw [flags, if_pos ⟨by omega, below, unnotified⟩]
      have gets : a'.GetsSlot := AioSlots.getsSlot_turn.mpr (.inl ⟨i, below, free⟩)
      exact AioSlots.getsSlot_turn.mpr (.inr ⟨a', waited, gets⟩)

/-! ## The steps of the thread -/

namespace AioSlots

variable {a : AioSlots}

/-- The rest of `tc_aio_wait` from slot `i` on returns 0, and the function then gets a slot. -/
def GetsAfter (a : AioSlots) (i : Nat) (rv : Int) : Prop :=
  ∃ a', a.waitFrom rv (aioRequestsPerTcThread - i) = some (a', 0) ∧ a'.GetsSlot

def restored (a : AioSlots) (i : Nat) : AioSlots :=
  { a with notify := Function.update a.notify i none }

private theorem getsAfter_turn {i : Nat} {rv : Int} (below : i < aioRequestsPerTcThread) :
    a.GetsAfter i rv ↔ ∃ out, a.waitTurn i rv = some out ∧ out.1.GetsAfter (i + 1) out.2 := by
  obtain ⟨n, count⟩ : ∃ n, aioRequestsPerTcThread - i = n + 1 :=
    ⟨aioRequestsPerTcThread - i - 1, by omega⟩
  have index : aioRequestsPerTcThread - (n + 1) = i := by omega
  have next : aioRequestsPerTcThread - (i + 1) = n := by omega
  have first : a.waitFrom rv (n + 1) =
      match a.waitTurn (aioRequestsPerTcThread - (n + 1)) rv with
      | none => none
      | some (a', rv') => a'.waitFrom rv' n := rfl
  unfold GetsAfter
  rw [count, next, first, index]
  cases a.waitTurn i rv with
  | none => simp
  | some out => simp

private theorem getsAfter_end {rv : Int} :
    a.GetsAfter aioRequestsPerTcThread rv ↔ rv = 0 ∧ a.GetsSlot := by
  simp [GetsAfter, waitFrom]

end AioSlots

namespace AioState

def GetsFrom (s : AioState) (t : Tid) : Prop :=
  match s.pc t with
  | .scan _ j => (∃ i, j ≤ i ∧ i < aioRequestsPerTcThread ∧ s.flag t i = .free) ∨
      (s.slots t).GetsAfter 0 0
  | .wait (.get _) i rv => (s.slots t).GetsAfter i rv
  | .waiting (.get _) i rv _ => ((s.slots t).restored i).GetsAfter i rv
  | .waited (.get _) i rv _ =>
    if s.flag t i = .free then ((s.slots t).restored i).GetsAfter (i + 1) rv
    else (((s.slots t).restored i).setFree i).GetsAfter (i + 1) (s.resultOf t i rv)
  | .freeing (.get _) i rv _ => ((s.slots t).setFree i).GetsAfter (i + 1) rv
  | .prepare _ i => s.flag t i = .free
  | _ => False

variable {aioWq : Tid → Nat} {s s' : AioState} {w : WorkerId} {t : Tid} {n : Nat} {submitted : Int}

/-- The thread is in `_tc_aio_get_aio_data`, and a call of `tc_waitq_wait_event` in it has
returned `RV_OK`. -/
def gets (s : AioState) (t : Tid) : Bool :=
  match s.pc t with
  | .scan _ _ | .freeing (.get _) _ _ _ | .waited (.get _) _ _ _ => true
  | .wait (.get _) i _ => i ≤ aioRequestsPerTcThread
  | .waiting (.get _) i _ e =>
    i < aioRequestsPerTcThread && s.sys.result e = some .ok && s.flag t i ≠ .pending
  | _ => false

private theorem getsFrom_scan {r : AioRequest} {j : Nat} (pc : s.pc t = .scan r j)
    (stepped : s.nextStep aioWq w t n submitted = some s') : s'.GetsFrom t ↔ s.GetsFrom t := by
  simp only [nextStep, pc] at stepped
  split at stepped
  · next below =>
    split at stepped
    · next free =>
      cases stepped
      simp only [GetsFrom, setPc, Function.update_self, pc]
      exact iff_of_true free (.inl ⟨j, le_rfl, below, free⟩)
    · next busy =>
      cases stepped
      simp only [GetsFrom, setPc, Function.update_self, pc]
      refine or_congr_left ⟨?_, ?_⟩
      · rintro ⟨i, above, known⟩
        exact ⟨i, by omega, known⟩
      · rintro ⟨i, above, below, free⟩
        have apart : i ≠ j := fun same => busy (same ▸ free)
        exact ⟨i, by omega, below, free⟩
  · next last =>
    cases stepped
    simp only [GetsFrom, setPc, Function.update_self, pc]
    refine (or_iff_right ?_).symm
    rintro ⟨i, above, below, _⟩
    omega

private theorem getsFrom_wait {r : AioRequest} {i : Nat} {rv : Int}
    (pc : s.pc t = .wait (.get r) i rv) (bound : i ≤ aioRequestsPerTcThread)
    (stepped : s.nextStep aioWq w t n submitted = some s') (running : s'.sys.fault = none) :
    s'.GetsFrom t ↔ s.GetsFrom t := by
  simp only [nextStep, pc] at stepped
  split at stepped
  · next below =>
    split at stepped
    · next skipped =>
      cases stepped
      have turned : (s.slots t).waitTurn i rv = some (s.slots t, rv) := if_pos skipped
      simp only [GetsFrom, setPc, Function.update_self, pc]
      rw [AioSlots.getsAfter_turn below]
      simp only [turned, Option.some.injEq, exists_eq_left']
      rfl
    · next waits =>
      obtain ⟨sys, done, rfl⟩ | ⟨fault, _, rfl⟩ := State.call_cases stepped
      · have none : s.notify t i = none := not_not.mp waits
        have same : (({ s with sys := sys }.setNotify t i (some (aioWq t))).slots t).restored i =
            s.slots t := by
          simp [AioSlots.restored, slots, setNotify, ← none]
        simp only [GetsFrom, setPc, Function.update_self, pc]
        rw [← same]
        rfl
      · cases running
  · next last =>
    cases stepped
    obtain rfl : i = aioRequestsPerTcThread := by omega
    have before : s.GetsFrom t ↔ rv = 0 ∧ (s.slots t).GetsSlot := by
      simp only [GetsFrom, pc]
      exact AioSlots.getsAfter_end
    rw [before]
    unfold waitReturns
    by_cases ok : rv = 0
    · simp only [ok, ne_eq, not_true_eq_false, ↓reduceIte, true_and]
      rw [AioSlots.getsSlot_turn]
      simp [GetsFrom, setPc, AioSlots.GetsAfter, AioSlots.tcAioWait, slots]
    · simp [ok, GetsFrom, returns, setPc]

private theorem getsFrom_waiting {r : AioRequest} {i : Nat} {rv : Int} {e : EventId}
    (pc : s.pc t = .waiting (.get r) i rv e) (below : i < aioRequestsPerTcThread)
    (result : s.sys.result e = some .ok) (ended : s.flag t i ≠ .pending)
    (stepped : s.nextStep aioWq w t n submitted = some s') : s'.GetsFrom t ↔ s.GetsFrom t := by
  simp only [nextStep, pc, result] at stepped
  cases stepped
  have unnotified : ((s.slots t).restored i).notify i = none := Function.update_self _ _ _
  have flag : ((s.slots t).restored i).flag i = s.flag t i := rfl
  simp only [GetsFrom, setPc, Function.update_self, pc, ne_eq, not_true_eq_false, false_or]
  rw [AioSlots.getsAfter_turn below]
  cases now : s.flag t i with
  | pending => exact absurd now ended
  | free =>
      have turned : ((s.slots t).restored i).waitTurn i rv =
          some ((s.slots t).restored i, if rv ≠ 0 then 1 else 0) := by
        simp [AioSlots.waitTurn, unnotified, flag, now]
      simp only [turned, Option.some.injEq, exists_eq_left', reduceIte]
      rfl
  | done =>
      have turned : ((s.slots t).restored i).waitTurn i rv = some
          (((s.slots t).restored i).setFree i, s.resultOf t i (if rv ≠ 0 then 1 else 0)) := by
        simp [AioSlots.waitTurn, now, AioSlots.resultOf, resultOf, slots, AioSlots.restored]
      simp only [turned, Option.some.injEq, exists_eq_left', reduceCtorEq, reduceIte]
      rfl

/-- Every step of the thread goes as the function on its slots says. -/
theorem getsFrom_next (inside : s.gets t = true)
    (stepped : s.nextStep aioWq w t n submitted = some s') (running : s'.sys.fault = none) :
    s'.GetsFrom t ↔ s.GetsFrom t := by
  unfold gets at inside
  split at inside
  · next r j pc => exact getsFrom_scan pc stepped
  · next r i rv result pc =>
    simp only [nextStep, pc] at stepped
    cases stepped
    simp only [GetsFrom, setPc, Function.update_self, pc]
    simp [AioSlots.setFree, slots, setFlag]
  · next r i rv result pc =>
    simp only [nextStep, pc] at stepped
    split at stepped
    · next free =>
      cases stepped
      simp only [GetsFrom, setPc, Function.update_self, pc, if_pos free]
      simp [AioSlots.restored, slots, setNotify]
    · next busy =>
      cases stepped
      simp only [GetsFrom, setPc, Function.update_self, pc, if_neg busy]
      simp [AioSlots.restored, AioSlots.setFree, slots, setNotify]
  · next r i rv pc => exact getsFrom_wait pc (of_decide_eq_true inside) stepped running
  · next r i rv e pc =>
    simp only [Bool.and_eq_true, decide_eq_true_eq] at inside
    exact getsFrom_waiting pc inside.1.1 inside.1.2 inside.2 stepped
  · cases inside

end AioState

/-! ## Eight requests with a `notify` -/

/-- Worker 0 executes the new thread 2, and worker 1 has nothing to do. -/
def aioTwoWorkers : List AioAction :=
  [.system (.user 1 (.waitqWait 0 9)), .system (.advance 1), .system (.leave 1),
    .system (.user 0 (.threadNew 2 0 0 false)), .system (.user 0 (.threadPost 2)),
    .system (.user 0 (.waitqWait 0 9)), .system (.advance 0), .system (.leave 0),
    .system (.runImmediate 0 .any), .system (.enter 0)]

/-- `tc_aio_submit_write_notify` with slot `i`, which is the first free one, and its completion. -/
def aioNotified (i : Nat) : List AioAction :=
  .begin 0 (.request (.submitWrite (some 7))) :: List.replicate (i + 2) (.next 0 0 0) ++
    [.next 0 0 1, .completed 1 2 i 512 0, .notify 1]

/-- A thread waits for its new slots, and then submits eight requests. -/
def aioEight : List AioAction :=
  aioTwoWorkers ++ .begin 0 .wait :: (List.range 8).flatMap aioFrees ++ [.next 0 0 0] ++
    (List.range 8).flatMap aioNotified ++ [.begin 0 (.request (.submitWrite (some 7)))]

set_option maxRecDepth 100000 in
/-- All requests have been completed, and the ninth call looks for a free slot for ever. -/
theorem aio_gets_no_slot : ∃ s, AioRun (fun t => 100 + t) 2 (fun _ => 0) Transition.always s ∧
    s.pc 2 = .scan (.submitWrite (some 7)) 0 ∧
    (∀ i < 8, s.owned 2 i = 0 ∧ s.flag 2 i = .done ∧ s.notify 2 i = some 7) ∧
    ¬ (s.slots 2).GetsSlot := by
  obtain ⟨s, run, ended⟩ := Transition.exists_run (AioState.step fun t => 100 + t)
    (.initial 2 fun _ => 0) aioEight
    (fun s => s.pc 2 = .scan (.submitWrite (some 7)) 0 && (List.range 8).all fun i =>
      s.owned 2 i = 0 ∧ s.flag 2 i = .done ∧ s.notify 2 i = some 7) (by decide)
  simp only [Bool.and_eq_true, decide_eq_true_eq, List.all_eq_true, List.mem_range] at ended
  obtain ⟨pc, slots⟩ := ended
  refine ⟨s, run, pc, slots, ?_⟩
  rintro ⟨fuel, i, a', returned, _⟩
  rcases AioSlots.reclaimable_of_gets returned with ⟨i, below, free⟩ | ⟨⟨i, below, unnotified⟩, _⟩
  · have flag : s.flag 2 i = .free := free
    simp [(slots i below).2.1] at flag
  · have notify : s.notify 2 i = none := unnotified
    simp [(slots i below).2.2] at notify

end Libtcr
