import Libtcr.Lib.Update
import Libtcr.Spinlock
import Mathlib.Data.BitVec

/-! Who holds a spinlock, and what its word and its counter of spinners say about that. -/

set_option autoImplicit false

namespace Libtcr

def SpinlockPc.Fits (tid : BitVec 32) (holds : Bool) : SpinlockPc → Prop
  | .found _ currentOwner => markerTid currentOwner = tid → holds = true
  | .leaves | .deadlock => holds = true
  | .assertFailed => False
  | _ => True

structure SpinlockInv {Pthread : Type} (owner : Pthread → BitVec 64) (s : Spinlock Pthread) : Prop where
  word : ∀ p, s.holds p = true → s.lock = owner p
  held : s.lock ≠ 0 → ∃ p, s.holds p = true
  spinners : s.spinners = BitVec.ofNat 32 {p | (s.pc p).spinning = true}.ncard
  fits : ∀ p, (s.pc p).Fits (markerTid (owner p)) (s.holds p)

private theorem markerTid_signExtend (returned : BitVec 32) :
    markerTid (returned.signExtend 64) = returned := by
  apply BitVec.eq_of_getLsbD_eq
  intro i inside
  rw [markerTid, BitVec.getLsbD_setWidth, BitVec.getLsbD_signExtend]
  simp [inside, show i < 64 by omega]

private theorem signExtend_eq_zero_iff (returned : BitVec 32) :
    returned.signExtend 64 = 0 ↔ returned = 0 := by
  constructor
  · intro zero
    rw [← markerTid_signExtend returned, zero]
    rfl
  · rintro rfl
    rfl

private theorem spinTrylockPlain_eq (word owner : BitVec 64) :
    spinTrylockPlain word owner = (markerTid word, if word = 0 then owner else word) := rfl

section Invariant

variable {Pthread : Type} {owner : Pthread → BitVec 64} {s s' : Spinlock Pthread} {p q : Pthread}

private theorem SpinlockInv.tid_eq_zero_iff (inv : SpinlockInv owner s)
    (nonzero : ∀ p, markerTid (owner p) ≠ 0) : markerTid s.lock = 0 ↔ s.lock = 0 := by
  constructor
  · intro zero
    by_contra taken
    obtain ⟨p, holds⟩ := inv.held taken
    rw [inv.word p holds] at zero
    exact nonzero p zero
  · intro free
    rw [free]
    rfl

private theorem SpinlockInv.lock_ne_zero (inv : SpinlockInv owner s)
    (nonzero : ∀ p, markerTid (owner p) ≠ 0) (holds : s.holds p = true) : s.lock ≠ 0 := by
  intro free
  apply nonzero p
  rw [← inv.word p holds, free]
  rfl

private theorem SpinlockInv.free_iff (inv : SpinlockInv owner s)
    (nonzero : ∀ p, markerTid (owner p) ≠ 0) : s.lock = 0 ↔ ∀ p, s.holds p = false := by
  constructor
  · intro free p
    cases holds : s.holds p with
    | false => rfl
    | true => exact absurd free (inv.lock_ne_zero nonzero holds)
  · intro nobody
    by_contra taken
    obtain ⟨p, holds⟩ := inv.held taken
    rw [nobody p] at holds
    cases holds

private theorem SpinlockInv.acquires_iff (inv : SpinlockInv owner s)
    (nonzero : ∀ p, markerTid (owner p) ≠ 0) :
    (spinTrylockPlain s.lock (owner p)).1 = 0 ↔
      s.lock = 0 ∧ (spinTrylockPlain s.lock (owner p)).2 = owner p := by
  have returned := inv.tid_eq_zero_iff nonzero
  rw [spinTrylockPlain_eq]
  constructor
  · intro zero
    have free := returned.mp zero
    exact ⟨free, if_pos free⟩
  · exact fun acquired => returned.mpr acquired.1

private theorem SpinlockInv.refused_iff (inv : SpinlockInv owner s)
    (nonzero : ∀ p, markerTid (owner p) ≠ 0) :
    (spinTrylockPlain s.lock (owner p)).1 ≠ 0 ↔
      s.lock ≠ 0 ∧ (spinTrylockPlain s.lock (owner p)).2 = s.lock := by
  have returned := inv.tid_eq_zero_iff nonzero
  rw [spinTrylockPlain_eq]
  constructor
  · intro tid
    have taken := mt returned.mpr tid
    exact ⟨taken, if_neg taken⟩
  · exact fun refused => mt returned.mp refused.1

theorem SpinlockInv.exclusive (inv : SpinlockInv owner s)
    (distinct : Function.Injective fun p => markerTid (owner p)) (holds : s.holds p = true)
    (also : s.holds q = true) : p = q :=
  distinct (congrArg markerTid ((inv.word p holds).symm.trans (inv.word q also)))

private theorem SpinlockInv.holds_of_tid (inv : SpinlockInv owner s)
    (distinct : Function.Injective fun p => markerTid (owner p))
    (taken : s.lock ≠ 0) (own : markerTid s.lock = markerTid (owner p)) : s.holds p = true := by
  obtain ⟨q, holds⟩ := inv.held taken
  rw [inv.word q holds] at own
  rwa [← distinct own]

variable [DecidableEq Pthread]

private theorem SpinlockInv.spinners_update [Finite Pthread] (inv : SpinlockInv owner s)
    {pc : SpinlockPc} {spinners : BitVec 32}
    (counted : spinners + BitVec.ofNat 32 (s.pc p).spinning.toNat =
      s.spinners + BitVec.ofNat 32 pc.spinning.toNat) :
    spinners = BitVec.ofNat 32 {q | (Function.update s.pc p pc q).spinning = true}.ncard := by
  have count := Update.ncard_update SpinlockPc.spinning s.pc p pc
  have words := congrArg (BitVec.ofNat 32) count
  rw [BitVec.ofNat_add, BitVec.ofNat_add, ← inv.spinners, ← counted] at words
  exact ((BitVec.add_left_inj _).mp words).symm

theorem SpinlockInv.goto [Finite Pthread] (inv : SpinlockInv owner s) {pc : SpinlockPc}
    {spinners : BitVec 32} (counted : spinners + BitVec.ofNat 32 (s.pc p).spinning.toNat =
      s.spinners + BitVec.ofNat 32 pc.spinning.toNat)
    (fits : pc.Fits (markerTid (owner p)) (s.holds p)) :
    SpinlockInv owner ({ s with spinners := spinners }.goto p pc) where
  word := inv.word
  held := inv.held
  spinners := inv.spinners_update counted
  fits q := by
    rcases eq_or_ne q p with rfl | other
    · simpa [Spinlock.goto] using fits
    · simpa [Spinlock.goto, other] using inv.fits q

theorem SpinlockInv.goes [Finite Pthread] (inv : SpinlockInv owner s) {pc : SpinlockPc}
    (same : pc.spinning = (s.pc p).spinning) (fits : pc.Fits (markerTid (owner p)) (s.holds p)) :
    SpinlockInv owner (s.goto p pc) :=
  inv.goto (by rw [same]) fits

theorem SpinlockInv.joins [Finite Pthread] (inv : SpinlockInv owner s) {pc : SpinlockPc}
    (before : (s.pc p).spinning = false) (after : pc.spinning = true)
    (fits : pc.Fits (markerTid (owner p)) (s.holds p)) :
    SpinlockInv owner ({ s with spinners := s.spinners + 1 }.goto p pc) := by
  apply inv.goto _ fits
  rw [before, after]
  exact BitVec.add_zero _

private theorem SpinlockInv.parts [Finite Pthread] (inv : SpinlockInv owner s) {pc : SpinlockPc}
    (before : (s.pc p).spinning = true) (after : pc.spinning = false)
    (fits : pc.Fits (markerTid (owner p)) (s.holds p)) :
    SpinlockInv owner ({ s with spinners := s.spinners - 1 }.goto p pc) := by
  apply inv.goto _ fits
  rw [before, after]
  exact (BitVec.sub_add_cancel _ _).trans (BitVec.add_zero _).symm

theorem Spinlock.trylock_taken (next : BitVec 32 → SpinlockPc) (tid : markerTid s.lock ≠ 0) :
    s.trylock owner p next = s.goto p (next (markerTid s.lock)) := by
  have taken : s.lock ≠ 0 := by
    intro free
    rw [free] at tid
    exact tid rfl
  simp only [Spinlock.trylock, spinTrylockPlain_eq, Spinlock.goto, if_neg taken, if_neg tid]

private theorem SpinlockInv.trylock_cases (inv : SpinlockInv owner s)
    (nonzero : ∀ p, markerTid (owner p) ≠ 0) (next : BitVec 32 → SpinlockPc) :
    (s.lock = 0 ∧ s.trylock owner p next = { s with
        lock := owner p
        pc := Function.update s.pc p (next 0)
        holds := Function.update s.holds p true }) ∨
      (s.lock ≠ 0 ∧ markerTid s.lock ≠ 0 ∧
        s.trylock owner p next = s.goto p (next (markerTid s.lock))) := by
  have returned := inv.tid_eq_zero_iff nonzero
  rcases eq_or_ne s.lock 0 with free | taken
  · refine .inl ⟨free, ?_⟩
    simp [Spinlock.trylock, spinTrylockPlain_eq, free, markerTid]
  · have tid : markerTid s.lock ≠ 0 := mt returned.mp taken
    exact .inr ⟨taken, tid, Spinlock.trylock_taken next tid⟩

theorem SpinlockInv.trylock [Finite Pthread] (inv : SpinlockInv owner s)
    (nonzero : ∀ p, markerTid (owner p) ≠ 0) {next : BitVec 32 → SpinlockPc}
    (stays : ∀ returned, (next returned).spinning = (s.pc p).spinning)
    (got : (next 0).Fits (markerTid (owner p)) true)
    (failed : s.lock ≠ 0 → markerTid s.lock ≠ 0 →
      (next (markerTid s.lock)).Fits (markerTid (owner p)) (s.holds p)) :
    SpinlockInv owner (s.trylock owner p next) := by
  rcases inv.trylock_cases nonzero next with ⟨free, tried⟩ | ⟨taken, tid, tried⟩
  · rw [tried]
    have nobody := (inv.free_iff nonzero).mp free
    constructor
    case word =>
      intro q holds
      rcases Update.eq_cases holds with ⟨rfl, _⟩ | ⟨_, before⟩
      · rfl
      · rw [nobody q] at before
        cases before
    case held => exact fun _ => ⟨p, Function.update_self p true s.holds⟩
    case spinners => exact inv.spinners_update (by rw [stays])
    case fits =>
      intro q
      rcases eq_or_ne q p with rfl | other
      · simpa using got
      · simpa [other] using inv.fits q
  · rw [tried]
    exact inv.goes (stays _) (failed taken tid)

theorem SpinlockInv.unlock (inv : SpinlockInv owner s)
    (distinct : Function.Injective fun p => markerTid (owner p)) (at_ : s.pc p = .outside)
    (holds : s.holds p = true) :
    SpinlockInv owner { s with lock := 0, holds := Function.update s.holds p false } where
  word q still := by
    obtain ⟨other, before⟩ := Update.old_of_ne still (by simp)
    exact absurd (inv.exclusive distinct before holds) other
  held taken := absurd rfl taken
  spinners := inv.spinners
  fits q := by
    rcases eq_or_ne q p with rfl | other
    · rw [at_]
      trivial
    · simpa [other] using inv.fits q

theorem SpinlockInv.spin [Finite Pthread] (inv : SpinlockInv owner s)
    (distinct : Function.Injective fun p => markerTid (owner p))
    (nonzero : ∀ p, markerTid (owner p) ≠ 0) (stepped : s.spin owner p = some s') :
    SpinlockInv owner s' := by
  have fits := inv.fits p
  unfold Spinlock.spin at stepped
  split at stepped
  case h_1 at_ =>
    cases stepped
    apply inv.trylock nonzero
    · intro returned
      rw [at_]
      split <;> rfl
    · trivial
    · intro _ tid
      rw [if_neg tid]
      trivial
  case h_2 at_ =>
    have marked : owner p ≠ 0 := by
      intro zero
      apply nonzero p
      rw [zero]
      rfl
    cases stepped
    rw [if_neg marked]
    exact inv.joins (by rw [at_]; rfl) rfl trivial
  case h_3 spins at_ =>
    cases stepped
    split
    · exact inv.goes (by rw [at_]; rfl) trivial
    · next taken => exact inv.goes (by rw [at_]; rfl) (inv.holds_of_tid distinct taken)
  case h_4 spins at_ =>
    cases stepped
    apply inv.trylock nonzero
    · intro returned
      rw [at_]
      split <;> rfl
    · rfl
    · intro taken tid
      rw [if_neg (mt (signExtend_eq_zero_iff _).mp tid)]
      intro own
      rw [markerTid_signExtend] at own
      exact inv.holds_of_tid distinct taken own
  case h_5 spins currentOwner at_ =>
    rw [at_] at fits
    split at stepped
    · next own =>
      cases stepped
      exact inv.goes (by rw [at_]; rfl) (fits own)
    · split at stepped
      · cases stepped
        exact inv.parts (by rw [at_]; rfl) rfl trivial
      · cases stepped
        exact inv.goes (by rw [at_]; rfl) trivial
  case h_6 at_ =>
    cases stepped
    exact inv.joins (by rw [at_]; rfl) rfl trivial
  case h_7 at_ =>
    cases stepped
    exact inv.parts (by rw [at_]; rfl) rfl trivial
  all_goals cases stepped

theorem SpinlockInv.step [Finite Pthread] {a : SpinlockAction Pthread} (inv : SpinlockInv owner s)
    (distinct : Function.Injective fun p => markerTid (owner p))
    (nonzero : ∀ p, markerTid (owner p) ≠ 0) (stepped : s.step owner a = some s') :
    SpinlockInv owner s' := by
  cases a with
  | lock p =>
      simp only [Spinlock.step] at stepped
      split at stepped
      · next at_ =>
        cases stepped
        apply inv.trylock nonzero
        · intro returned
          rw [at_]
          split <;> rfl
        · trivial
        · intro _ tid
          rw [if_pos tid]
          trivial
      · cases stepped
  | trylock p =>
      simp only [Spinlock.step] at stepped
      split at stepped
      · next at_ =>
        cases stepped
        apply inv.trylock nonzero
        · intro returned
          rw [at_]
        · trivial
        · intro _ _
          trivial
      · cases stepped
  | unlock p =>
      simp only [Spinlock.step] at stepped
      split at stepped
      · next allowed =>
        cases stepped
        exact inv.unlock distinct allowed.1 allowed.2
      · cases stepped
  | spin p => exact inv.spin distinct nonzero stepped

omit [DecidableEq Pthread] in
theorem SpinlockInv.initial : SpinlockInv owner (.initial : Spinlock Pthread) where
  word _ holds := nomatch holds
  held taken := absurd rfl taken
  spinners := by simp [Spinlock.initial, SpinlockPc.spinning]
  fits _ := trivial

theorem SpinlockInv.run (distinct : Function.Injective fun p => markerTid (owner p))
    (nonzero : ∀ p, markerTid (owner p) ≠ 0) (reached : SpinlockReachable owner s) :
    SpinlockInv owner s := by
  have finite : Finite Pthread := .of_injective _ (BitVec.toFin_injective.comp distinct)
  exact Transition.Run.invariant reached (SpinlockInv owner) .initial
    fun inv _ stepped => inv.step distinct nonzero stepped

end Invariant

/-! ## The lock that the spinlock implements -/

inductive LockAction (Pthread : Type) where
  | take (p : Pthread)
  | release (p : Pthread)
  deriving DecidableEq, Repr

/-- A lock with at most one holder. -/
def lockStep {Pthread : Type} [DecidableEq Pthread] (holder : Option Pthread) :
    LockAction Pthread → Option (Option Pthread)
  | .take p => if holder = none then some (some p) else none
  | .release p => if holder = some p then some none else none

section Refinement

variable {Pthread : Type} [DecidableEq Pthread] {owner : Pthread → BitVec 64} {s s' : Spinlock Pthread}
  {p : Pthread}

def Spinlock.Passes (s s' : Spinlock Pthread) : Prop :=
  s'.holds = s.holds ∨ ∃ p, (s.lock = 0 ∧ s'.holds = Function.update s.holds p true) ∨
    (s.holds p = true ∧ s'.holds = Function.update s.holds p false)

private theorem SpinlockInv.trylock_passes (inv : SpinlockInv owner s)
    (nonzero : ∀ p, markerTid (owner p) ≠ 0) (next : BitVec 32 → SpinlockPc) :
    s.Passes (s.trylock owner p next) := by
  rcases inv.trylock_cases nonzero next with ⟨free, tried⟩ | ⟨_, _, tried⟩
  · rw [tried]
    exact .inr ⟨p, .inl ⟨free, rfl⟩⟩
  · rw [tried]
    exact .inl rfl

private theorem SpinlockInv.step_passes {a : SpinlockAction Pthread} (inv : SpinlockInv owner s)
    (nonzero : ∀ p, markerTid (owner p) ≠ 0) (stepped : s.step owner a = some s') : s.Passes s' := by
  cases a with
  | lock p =>
      simp only [Spinlock.step] at stepped
      split at stepped
      · cases stepped
        exact inv.trylock_passes nonzero _
      · cases stepped
  | trylock p =>
      simp only [Spinlock.step] at stepped
      split at stepped
      · cases stepped
        exact inv.trylock_passes nonzero _
      · cases stepped
  | unlock p =>
      simp only [Spinlock.step] at stepped
      split at stepped
      · next allowed =>
        cases stepped
        exact .inr ⟨p, .inr ⟨allowed.2, rfl⟩⟩
      · cases stepped
  | spin p =>
      simp only [Spinlock.step, Spinlock.spin] at stepped
      split at stepped
      case h_1 | h_4 =>
        cases stepped
        exact inv.trylock_passes nonzero _
      case h_5 =>
        split at stepped
        · cases stepped
          exact .inl rfl
        · split at stepped <;> cases stepped <;> exact .inl rfl
      case h_2 | h_3 | h_6 | h_7 =>
        cases stepped
        exact .inl rfl
      all_goals cases stepped

def Spinlock.Implements (s : Spinlock Pthread) : Prop :=
  ∃ holder, Transition.Run lockStep Transition.always none holder ∧
    ∀ p, s.holds p = true ↔ holder = some p

theorem Spinlock.Implements.step {a : SpinlockAction Pthread} (implements : s.Implements)
    (inv : SpinlockInv owner s) (nonzero : ∀ p, markerTid (owner p) ≠ 0)
    (stepped : s.step owner a = some s') : s'.Implements := by
  obtain ⟨holder, run, holds⟩ := implements
  rcases inv.step_passes nonzero stepped with same | ⟨p, ⟨free, taken⟩ | ⟨held, released⟩⟩
  · exact ⟨holder, run, same ▸ holds⟩
  · have nobody : holder = none := by
      by_contra someone
      obtain ⟨q, is⟩ := Option.ne_none_iff_exists'.mp someone
      exact inv.lock_ne_zero nonzero ((holds q).mpr is) free
    have takes : lockStep holder (.take p) = some (some p) := by rw [lockStep, if_pos nobody]
    refine ⟨some p, .next run trivial takes, fun q => ?_⟩
    rw [taken]
    rcases eq_or_ne q p with rfl | other
    · simp
    · simp [other, holds q, nobody, Ne.symm other]
  · have is := (holds p).mp held
    have releases : lockStep holder (.release p) = some none := by rw [lockStep, if_pos is]
    refine ⟨none, .next run trivial releases, fun q => ?_⟩
    rw [released]
    rcases eq_or_ne q p with rfl | other
    · simp
    · simp [other, holds q, is, Ne.symm other]

/-- The pthreads of any run take and release the lock as they could if it had one holder. -/
theorem spinlock_refines (distinct : Function.Injective fun p => markerTid (owner p))
    (nonzero : ∀ p, markerTid (owner p) ≠ 0) (reached : SpinlockReachable owner s) :
    s.Implements := by
  apply Transition.Run.invariant_of_reached reached Spinlock.Implements
  · exact ⟨none, .refl, fun p => by simp [Spinlock.initial]⟩
  · intro before after a run implements _ stepped
    exact implements.step (SpinlockInv.run distinct nonzero run) nonzero stepped

end Refinement

/-! ## Results -/

private theorem SpinlockInv.spinners_toInt {Pthread : Type} {owner : Pthread → BitVec 64}
    {s : Spinlock Pthread} (inv : SpinlockInv owner s)
    (few : {p | (s.pc p).spinning = true}.ncard < 2 ^ 31) :
    s.spinners.toInt = {p | (s.pc p).spinning = true}.ncard := by
  have exact_ : (BitVec.ofNat 32 {p | (s.pc p).spinning = true}.ncard).toNat =
      {p | (s.pc p).spinning = true}.ncard := by
    rw [BitVec.toNat_ofNat]
    apply Nat.mod_eq_of_lt
    omega
  rw [inv.spinners, BitVec.toInt_eq_toNat_of_lt (by omega), exact_]

/-- For any pthreads whose markers have distinct `tid`s other than 0: `spin_trylock_plain` returns 0 if
and only if it has acquired the lock, one pthread holds the lock at a time, only a pthread that holds it
takes the exit for a deadlock, and `l->spinners` counts the pthreads in the slow path that are not in
`my_usleep`, modulo `2 ^ 32`; so it is exact, and not negative, if there are fewer than `2 ^ 31`. -/
theorem spinlock_correct {Pthread : Type} [DecidableEq Pthread] {owner : Pthread → BitVec 64}
    {s : Spinlock Pthread} (distinct : Function.Injective fun p => markerTid (owner p))
    (nonzero : ∀ p, markerTid (owner p) ≠ 0) (reached : SpinlockReachable owner s) :
    (∀ p, ((spinTrylockPlain s.lock (owner p)).1 = 0 ↔
        s.lock = 0 ∧ (spinTrylockPlain s.lock (owner p)).2 = owner p) ∧
      ((spinTrylockPlain s.lock (owner p)).1 ≠ 0 ↔
        s.lock ≠ 0 ∧ (spinTrylockPlain s.lock (owner p)).2 = s.lock)) ∧
    (∀ p, s.holds p = true → s.lock = owner p ∧ ∀ q, s.holds q = true → q = p) ∧
    (s.lock = 0 ↔ ∀ p, s.holds p = false) ∧
    (∀ p, s.pc p = .deadlock → s.holds p = true) ∧
    s.spinners = BitVec.ofNat 32 {p | (s.pc p).spinning = true}.ncard ∧
    ({p | (s.pc p).spinning = true}.ncard < 2 ^ 31 →
      s.spinners.toInt = {p | (s.pc p).spinning = true}.ncard) := by
  have inv := SpinlockInv.run distinct nonzero reached
  refine ⟨?_, ?_, inv.free_iff nonzero, ?_, inv.spinners, inv.spinners_toInt⟩
  · exact fun p => ⟨inv.acquires_iff nonzero, inv.refused_iff nonzero⟩
  · intro p holds
    exact ⟨inv.word p holds, fun q also => inv.exclusive distinct also holds⟩
  · intro p at_
    have fits := inv.fits p
    rw [at_] at fits
    exact fits

/-- Pthread 0 has `tid` 0x80000001 on cpu 1, pthread 1 has `tid` 2 on cpu 2. -/
def twoMarkers : Fin 2 → BitVec 64
  | 0 => 0x0000000180000001
  | 1 => 0x0000000200000002

/-- Pthread 0 exits, for it has called `spin_lock` with the lock held; pthread 1 has the `tid` of
pthread 0 from a `spin_trylock_plain` of its loop. -/
def Spinlock.Recurses (s : Spinlock (Fin 2)) : Bool :=
  decide (s.pc 0 = .deadlock ∧ s.pc 1 = .found 0 0xffffffff80000001 ∧ s.spinners = 2)

theorem spinlock_correct_recursion : ∃ s, SpinlockReachable twoMarkers s ∧ s.Recurses = true ∧
    s.holds 0 = true ∧ s.lock = twoMarkers 0 ∧
    s.spinners = BitVec.ofNat 32 {p | (s.pc p).spinning = true}.ncard := by
  obtain ⟨s, reached, shown⟩ := Transition.exists_run (Spinlock.step twoMarkers) .initial
    [.trylock 0, .lock 1, .spin 1, .spin 1, .unlock 0, .spin 1, .trylock 0, .spin 1, .lock 0, .spin 0,
      .spin 0, .spin 0, .spin 0]
    Spinlock.Recurses (by decide)
  have distinct : Function.Injective fun p => markerTid (twoMarkers p) := by decide
  have nonzero : ∀ p, markerTid (twoMarkers p) ≠ 0 := by decide
  obtain ⟨_, words, _, deadlock, spinners, _⟩ := spinlock_correct distinct nonzero reached
  have at_ : s.pc 0 = .deadlock := by
    simp only [Spinlock.Recurses, decide_eq_true_eq] at shown
    exact shown.1
  exact ⟨s, reached, shown, deadlock 0 at_, (words 0 (deadlock 0 at_)).1, spinners⟩

/-! ## The counter overflows -/

section Overflow

variable {Pthread : Type} [DecidableEq Pthread] {owner : Pthread → BitVec 64} {s : Spinlock Pthread}
  {p : Pthread}

private theorem Spinlock.goto_goto (pc pc' : SpinlockPc) :
    (s.goto p pc).goto p pc' = s.goto p pc' := by
  simp [Spinlock.goto]

private theorem Spinlock.run_reads (tid : markerTid s.lock ≠ 0) (marked : owner p ≠ 0)
    (at_ : s.pc p = .outside) :
    ∃ spins, Transition.Run (Spinlock.step owner) Transition.always s
      ({ s with spinners := s.spinners + 1 }.goto p (.reads spins)) := by
  have called : s.step owner (.lock p) = some (s.goto p .enters) := by
    rw [Spinlock.step, if_pos at_, Spinlock.trylock_taken _ tid, if_pos tid]
  have refused : (s.goto p .enters).step owner (.spin p) = some (s.goto p .counts) := by
    have enters : (s.goto p .enters).pc p = .enters := Function.update_self p _ _
    rw [Spinlock.step, Spinlock.spin]
    simp only [enters]
    rw [Spinlock.trylock_taken (s := s.goto p .enters) _ tid, Spinlock.goto_goto]
    exact congrArg (fun pc => some (s.goto p pc)) (if_neg tid)
  have counted : (s.goto p .counts).step owner (.spin p) =
      some ({ s with spinners := s.spinners + 1 }.goto p
        (.reads (if minTen s.spinners ≠ 0 then spinsPerDelay else 0))) := by
    have counts : (s.goto p .counts).pc p = .counts := Function.update_self p _ _
    rw [Spinlock.step, Spinlock.spin]
    simp only [counts, if_neg marked]
    exact congrArg some (Spinlock.goto_goto (s := { s with spinners := s.spinners + 1 }) .counts _)
  exact ⟨_, .next (.next (.next .refl trivial called) trivial refused) trivial counted⟩

end Overflow

/-- With pthread 0 in possession of the lock, the next `k` pthreads get into the slow path. -/
theorem exists_spinning {n : Nat} {owner : Fin (n + 1) → BitVec 64}
    (nonzero : ∀ p, markerTid (owner p) ≠ 0) {k : Nat} (inside : k ≤ n) :
    ∃ s, SpinlockReachable owner s ∧ s.lock = owner 0 ∧
      (∀ p : Fin (n + 1), k < p.val → s.pc p = .outside) ∧
      ∀ p : Fin (n + 1), p.val ≤ k → ((s.pc p).spinning = true ↔ p ≠ 0) := by
  induction k with
  | zero =>
      have first : (Spinlock.initial : Spinlock (Fin (n + 1))).step owner (.trylock 0) =
          some ⟨owner 0, 0, fun _ => .outside, Function.update (fun _ => false) 0 true⟩ := by
        simp [Spinlock.step, Spinlock.initial, Spinlock.trylock, spinTrylockPlain_eq, markerTid]
      refine ⟨_, .next .refl trivial first, rfl, fun p _ => rfl, fun p here => ?_⟩
      have zero : p = 0 := Fin.ext (Nat.le_zero.mp here)
      simp [zero, SpinlockPc.spinning]
  | succ k ih =>
      obtain ⟨s, reached, word, outside, spinning⟩ := ih (by omega)
      have marked : ∀ p, owner p ≠ 0 := by
        intro p zero
        apply nonzero p
        rw [zero]
        rfl
      have tid : markerTid s.lock ≠ 0 := word ▸ nonzero 0
      have room : k + 1 < n + 1 := by omega
      obtain ⟨spins, run⟩ := Spinlock.run_reads (p := ⟨k + 1, room⟩) tid (marked _)
        (outside _ (Nat.lt_succ_self k))
      refine ⟨_, Transition.Run.trans reached run, word, fun p later => ?_, fun p here => ?_⟩
      · have other : p ≠ ⟨k + 1, room⟩ := by
          intro same
          rw [same] at later
          exact Nat.lt_irrefl _ later
        simpa [Spinlock.goto, other] using outside p (by omega)
      · rcases eq_or_ne p ⟨k + 1, room⟩ with rfl | other
        · simp [Spinlock.goto, SpinlockPc.spinning, Fin.ext_iff]
        · have before : p.val ≤ k := by
            have apart : p.val ≠ k + 1 := fun same => other (Fin.ext same)
            omega
          simpa [Spinlock.goto, other] using spinning p before

def manyMarkers (n : Nat) (p : Fin (n + 1)) : BitVec 64 := BitVec.ofNat 64 (p.val + 1)

private theorem toNat_manyMarkers {n : Nat} (small : n + 1 < 2 ^ 32) (p : Fin (n + 1)) :
    (markerTid (manyMarkers n p)).toNat = p.val + 1 := by
  have inside := p.isLt
  rw [markerTid, manyMarkers, BitVec.setWidth_ofNat_of_le (by decide), BitVec.toNat_ofNat]
  apply Nat.mod_eq_of_lt
  omega

/-- With `2 ^ 31` pthreads that spin, the `int` is negative. -/
theorem spinners_negative : ∃ s : Spinlock (Fin (2 ^ 31 + 1)),
    Function.Injective (fun p => markerTid (manyMarkers (2 ^ 31) p)) ∧
    (∀ p, markerTid (manyMarkers (2 ^ 31) p) ≠ 0) ∧
    SpinlockReachable (manyMarkers (2 ^ 31)) s ∧ {p | (s.pc p).spinning = true}.ncard = 2 ^ 31 ∧
    s.spinners.toInt = -2 ^ 31 := by
  have toNat := toNat_manyMarkers (n := 2 ^ 31) (by omega)
  have distinct : Function.Injective fun p => markerTid (manyMarkers (2 ^ 31) p) := by
    intro p q same
    have equal := congrArg BitVec.toNat same
    simp only [toNat] at equal
    exact Fin.ext (by omega)
  have nonzero : ∀ p, markerTid (manyMarkers (2 ^ 31) p) ≠ 0 := by
    intro p zero
    have tid := toNat p
    rw [zero] at tid
    exact absurd tid (by simp)
  obtain ⟨s, reached, _, _, spinning⟩ := exists_spinning nonzero (Nat.le_refl (2 ^ 31))
  have inv := SpinlockInv.run distinct nonzero reached
  have count : {p | (s.pc p).spinning = true}.ncard = 2 ^ 31 := by
    have all : {p | (s.pc p).spinning = true} = {0}ᶜ := by
      ext p
      exact spinning p (Nat.le_of_lt_succ p.isLt)
    rw [all, Set.ncard_compl, Nat.card_fin, Set.ncard_singleton, Nat.add_sub_cancel]
  refine ⟨s, distinct, nonzero, reached, count, ?_⟩
  rw [inv.spinners, count]
  decide

end Libtcr
