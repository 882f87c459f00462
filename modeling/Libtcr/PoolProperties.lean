import Libtcr.Pool
import Libtcr.InterruptProperties
import Libtcr.ThreadRefProperties

/-! `tc_thread_pool_wait`: what it returns when it was interrupted, and for whom it waits. -/

set_option autoImplicit false

namespace Libtcr

open State

/-! ## Steps -/

def PoolPc.makes : PoolPc → Option PoolId
  | .making p _ _ | .linking p _ _ _ | .posting p _ _ _ => some p
  | _ => none

/-- A step that makes no thread and no pool: some step of the library, or none, and thread `t` goes
on to `pc`. -/
structure PlainStep (s : PoolState) (t : Tid) (pc : PoolPc) (s' : PoolState) : Prop where
  sys : s'.sys = s.sys ∨ ∃ a, a.creates = false ∧ s.sys.step a = some s'.sys
  pcs : s'.pc = Function.update s.pc t pc
  list : ∀ p u, u ∈ s'.list p → u ∈ s.list p
  made : s'.made = s.made
  domain : s'.poolDomain = s.poolDomain
  filled : s'.filled = s.filled

inductive PoolStep (nrOfWorkers : DomainId → Int) (s : PoolState) : PoolAction → PoolState → Prop where
  | act (a : Action) (sys : State) (makes : a.makes = false) (allows : s.allows a = true)
      (stepped : s.sys.step a = some sys) :
      PoolStep nrOfWorkers s (.act a) { s with sys := sys, list := s.listAfter a }
  | newRef (w : WorkerId) (t u : Tid) (d : DomainId) (address : Nat) (s₁ : PoolState)
      (on : s.sys.mode w = .thread t) (pc : s.pc t = .outside)
      (new : s.tcThreadNew w u d (-1) false address .threadNew = some s₁) :
      PoolStep nrOfWorkers s (.newRef w u d address) (s₁.setPc t (.posts u))
  | poolNew (w : WorkerId) (t : Tid) (p : PoolId) (excess : Int) (d : DomainId)
      (on : s.sys.mode w = .thread t) (pc : s.pc t = .outside) (fresh : s.poolDomain p = none) :
      PoolStep nrOfWorkers s (.poolNew w p excess d)
        { s.setPc t (.making p 0 (nrOfWorkers d + excess)) with
          poolDomain := Function.update s.poolDomain p (some d)
          list := Function.update s.list p [] }
  | made (w : WorkerId) (t u : Tid) (address : Nat) (p : PoolId) (i : Nat) (n : Int) (d : DomainId)
      (nr : Int) (affine : Bool) (s₁ : PoolState) (on : s.sys.mode w = .thread t)
      (pc : s.pc t = .making p i n)
      (domain : s.poolDomain p = some d)
      (new : s.tcThreadNew w u d nr affine address (.poolNew p) = some s₁) :
      PoolStep nrOfWorkers s (.make w (some u) address) (s₁.setPc t (.linking p i n u))
  | skipped (w : WorkerId) (t : Tid) (address : Nat) (p : PoolId) (i : Nat) (n : Int)
      (pc : s.pc t = .making p i n) :
      PoolStep nrOfWorkers s (.make w none address) (s.setPc t (.making p (i + 1) n))
  | linked (w : WorkerId) (t u : Tid) (p : PoolId) (i : Nat) (n : Int)
      (pc : s.pc t = .linking p i n u) :
      PoolStep nrOfWorkers s (.link w) { s.setPc t (.posting p i n u) with
        list := Function.update s.list p (u :: s.list p) }
  | posted (w : WorkerId) (t u : Tid) (pc : PoolPc) (sys : State) (on : s.sys.mode w = .thread t)
      (before : s.pc t = .posts u ∧ pc = .outside ∨
        ∃ p i n, s.pc t = .posting p i n u ∧ pc = .making p (i + 1) n)
      (stepped : s.sys.step (.user w (.threadPost u)) = some sys) :
      PoolStep nrOfWorkers s (.post w) ({ s with sys := sys }.setPc t pc)
  | filled (w : WorkerId) (t : Tid) (p : PoolId) (i : Nat) (n : Int) (pc : s.pc t = .making p i n) :
      PoolStep nrOfWorkers s (.fill w) { s.setPc t .outside with
        filled := Function.update s.filled p true }
  | poolWait (w : WorkerId) (t : Tid) (p : PoolId) (on : s.sys.mode w = .thread t)
      (code : s.sys.inUserCode t = true) (pc : s.pc t = .outside) (filled : s.filled p = true) :
      PoolStep nrOfWorkers s (.poolWait w p) { s.setPc t (.looking p .threadNa) with
        depth := Function.update s.depth t (s.sys.frames t).length
        since := Function.update s.since t fun k => s.sys.interrupts (.sub t k) }
  | empty (w : WorkerId) (t : Tid) (p : PoolId) (rv : Rv) (pc : s.pc t = .looking p rv)
      (empty : s.list p = []) : PoolStep nrOfWorkers s (.look w) (s.setPc t (.returns p .ok))
  | first (w : WorkerId) (t v : Tid) (p : PoolId) (rv : Rv) (rest : List Tid)
      (pc : s.pc t = .looking p rv) (first : s.list p = v :: rest) :
      PoolStep nrOfWorkers s (.look w) (s.setPc t (.joining p v rv))
  | join (w : WorkerId) (n : Nat) (t v u : Tid) (p : PoolId) (rv : Rv) (d : DomainId) (sys : State)
      (on : s.sys.mode w = .thread t) (pc : s.pc t = .joining p v rv)
      (domain : s.poolDomain p = some d) (at_ : s.object (s.address v) = some u)
      (stepped : s.sys.step (.user w (.threadWait n u d 0)) = some sys) :
      PoolStep nrOfWorkers s (.join w n) { s.setPc t (.joined p (.auto t n) rv) with
        sys := sys
        enqueued :=
          if sys.el (.auto t n) = some (.waiters (.exit u)) then (p, u) :: s.enqueued
          else s.enqueued }
  | interrupted (w : WorkerId) (t : Tid) (p : PoolId) (e : EventId) (rv : Rv)
      (pc : s.pc t = .joined p e rv) (result : s.sys.result e = some .intr) :
      PoolStep nrOfWorkers s (.joined w) (s.setPc t (.returns p .intr))
  | goesOn (w : WorkerId) (t : Tid) (p : PoolId) (e : EventId) (rv r rv' : Rv)
      (pc : s.pc t = .joined p e rv) (result : s.sys.result e = some r) (notIntr : r ≠ .intr) :
      PoolStep nrOfWorkers s (.joined w) (s.setPc t (.sleeping p rv'))
  | slept (w : WorkerId) (t : Tid) (p : PoolId) (rv : Rv) (code : s.sys.inUserCode t = true)
      (pc : s.pc t = .sleeping p rv) :
      PoolStep nrOfWorkers s (.slept w) (s.setPc t (.looking p rv))
  | wait (w : WorkerId) (n : Nat) (t u v : Tid) (sys : State) (on : s.sys.mode w = .thread t)
      (pc : s.pc t = .outside) (made : s.made u ≠ none) (at_ : s.object (s.address u) = some v)
      (stepped : s.sys.step (.user w (.threadWait n v (s.sys.threadDomain t) 0)) = some sys) :
      PoolStep nrOfWorkers s (.wait w n u) { s.setPc t (.waits u (.auto t n)) with sys := sys }
  | waited (w : WorkerId) (t u : Tid) (e : EventId) (rv : Rv) (pc : s.pc t = .waits u e)
      (result : s.sys.result e = some rv) :
      PoolStep nrOfWorkers s (.waited w) (s.setPc t (.waited u))
  | left (w : WorkerId) (t : Tid) (pc : (∃ p rv, s.pc t = .returns p rv) ∨ ∃ u, s.pc t = .waited u) :
      PoolStep nrOfWorkers s (.leave w) (s.setPc t .outside)

section Steps

variable {nrOfWorkers : DomainId → Int} {s s' : PoolState} {w : WorkerId} {t : Tid}

theorem PoolState.caller_some (caller : s.caller w = some t) :
    s.sys.mode w = .thread t ∧ s.sys.inUserCode t = true := by
  unfold PoolState.caller at caller
  split at caller
  · next mode =>
    split at caller
    · next code =>
      cases caller
      exact ⟨mode, code.2⟩
    · cases caller
  · cases caller

private theorem PoolState.joinedStep_cases (done : s.joinedStep t = some s') :
    PoolStep nrOfWorkers s (.joined w) s' := by
  unfold PoolState.joinedStep at done
  split at done
  · next p e rv pc =>
    split at done
    · cases done
    · next result =>
      cases done
      exact .interrupted w t p e rv pc result
    all_goals
      next result =>
      cases done
      exact .goesOn w t p e rv _ _ pc result (by simp)
  · cases done

private theorem PoolState.makeStep_cases {u : Option Tid} {address : Nat}
    (on : s.sys.mode w = .thread t) (done : s.makeStep nrOfWorkers w t u address = some s') :
    PoolStep nrOfWorkers s (.make w u address) s' := by
  unfold PoolState.makeStep at done
  split at done
  · next p i n pc =>
    split at done
    · split at done
      · next d u domain =>
        obtain ⟨s₁, new, rfl⟩ := Option.map_eq_some_iff.mp done
        exact .made w t u address p i n d _ _ s₁ on pc domain new
      · cases done
        exact .skipped w t address p i n pc
      · cases done
    · cases done
  · cases done

private theorem PoolState.threadWaitDomain_some {n : Nat} {v u : Tid} {d : DomainId} {sys : State}
    (done : s.threadWaitDomain w n v d = some (u, sys)) :
    s.object (s.address v) = some u ∧ s.sys.step (.user w (.threadWait n u d 0)) = some sys := by
  unfold PoolState.threadWaitDomain at done
  split at done
  · next x at_ =>
    obtain ⟨sys', stepped, same⟩ := Option.map_eq_some_iff.mp done
    cases same
    exact ⟨at_, stepped⟩
  · cases done

theorem PoolState.step_cases {a : PoolAction} (stepped : s.step nrOfWorkers a = some s') :
    PoolStep nrOfWorkers s a s' := by
  cases a with
  | act a =>
      simp only [PoolState.step] at stepped
      split at stepped
      · next allowed =>
        obtain ⟨sys, done, rfl⟩ := Option.map_eq_some_iff.mp stepped
        exact .act a sys allowed.1 allowed.2 done
      · cases stepped
  | newRef w u d address =>
      obtain ⟨t, caller, stepped⟩ := Option.bind_eq_some_iff.mp stepped
      split at stepped
      · next pc =>
        obtain ⟨s₁, new, rfl⟩ := Option.map_eq_some_iff.mp stepped
        exact .newRef w t u d address s₁ (PoolState.caller_some caller).1 pc new
      · cases stepped
  | poolNew w p excess d =>
      obtain ⟨t, caller, stepped⟩ := Option.bind_eq_some_iff.mp stepped
      split at stepped
      · next allowed =>
        cases stepped
        exact .poolNew w t p excess d (PoolState.caller_some caller).1 allowed.1 allowed.2
      · cases stepped
  | make w u address =>
      obtain ⟨t, caller, stepped⟩ := Option.bind_eq_some_iff.mp stepped
      exact PoolState.makeStep_cases (PoolState.caller_some caller).1 stepped
  | link w =>
      obtain ⟨t, _, stepped⟩ := Option.bind_eq_some_iff.mp stepped
      split at stepped
      · next p i n u pc =>
        cases stepped
        exact .linked w t u p i n pc
      · cases stepped
  | post w =>
      obtain ⟨t, caller, stepped⟩ := Option.bind_eq_some_iff.mp stepped
      have on := (PoolState.caller_some caller).1
      split at stepped
      · next u pc =>
        obtain ⟨sys, done, rfl⟩ := Option.map_eq_some_iff.mp stepped
        exact .posted w t u _ sys on (.inl ⟨pc, rfl⟩) done
      · next p i n u pc =>
        obtain ⟨sys, done, rfl⟩ := Option.map_eq_some_iff.mp stepped
        exact .posted w t u _ sys on (.inr ⟨p, i, n, pc, rfl⟩) done
      · cases stepped
  | fill w =>
      obtain ⟨t, _, stepped⟩ := Option.bind_eq_some_iff.mp stepped
      split at stepped
      · next p i n pc =>
        split at stepped
        · cases stepped
        · cases stepped
          exact .filled w t p i n pc
      · cases stepped
  | poolWait w p =>
      obtain ⟨t, caller, stepped⟩ := Option.bind_eq_some_iff.mp stepped
      split at stepped
      · next allowed =>
        cases stepped
        have runs := PoolState.caller_some caller
        exact .poolWait w t p runs.1 runs.2 allowed.1 allowed.2
      · cases stepped
  | look w =>
      obtain ⟨t, _, stepped⟩ := Option.bind_eq_some_iff.mp stepped
      split at stepped
      · next p rv pc =>
        split at stepped
        · next empty =>
          cases stepped
          exact .empty w t p rv pc empty
        · next v rest first =>
          cases stepped
          exact .first w t v p rv rest pc first
      · cases stepped
  | join w n =>
      obtain ⟨t, caller, stepped⟩ := Option.bind_eq_some_iff.mp stepped
      split at stepped
      · next p v rv pc =>
        obtain ⟨d, domain, stepped⟩ := Option.bind_eq_some_iff.mp stepped
        obtain ⟨⟨u, sys⟩, waits, rfl⟩ := Option.map_eq_some_iff.mp stepped
        obtain ⟨at_, done⟩ := PoolState.threadWaitDomain_some waits
        exact .join w n t v u p rv d sys (PoolState.caller_some caller).1 pc domain at_ done
      · cases stepped
  | joined w =>
      obtain ⟨t, _, stepped⟩ := Option.bind_eq_some_iff.mp stepped
      exact PoolState.joinedStep_cases stepped
  | slept w =>
      obtain ⟨t, caller, stepped⟩ := Option.bind_eq_some_iff.mp stepped
      split at stepped
      · next p rv pc =>
        split at stepped
        · cases stepped
          exact .slept w t p rv (PoolState.caller_some caller).2 pc
        · cases stepped
      · cases stepped
  | wait w n u =>
      obtain ⟨t, caller, stepped⟩ := Option.bind_eq_some_iff.mp stepped
      split at stepped
      · next allowed =>
        obtain ⟨⟨v, sys⟩, waits, rfl⟩ := Option.map_eq_some_iff.mp stepped
        obtain ⟨at_, done⟩ := PoolState.threadWaitDomain_some waits
        exact .wait w n t u v sys (PoolState.caller_some caller).1 allowed.1 allowed.2 at_ done
      · cases stepped
  | waited w =>
      obtain ⟨t, _, stepped⟩ := Option.bind_eq_some_iff.mp stepped
      split at stepped
      · next u e pc =>
        split at stepped
        · cases stepped
        · next returned =>
          cases stepped
          obtain ⟨rv, result⟩ := Option.ne_none_iff_exists'.mp returned
          exact .waited w t u e rv pc result
      · cases stepped
  | leave w =>
      obtain ⟨t, _, stepped⟩ := Option.bind_eq_some_iff.mp stepped
      split at stepped
      · next p rv pc =>
        cases stepped
        exact .left w t (.inl ⟨p, rv, pc⟩)
      · next u pc =>
        cases stepped
        exact .left w t (.inr ⟨u, pc⟩)
      · cases stepped

end Steps

/-! ## The invariant -/

def PoolPc.Fits (s : PoolState) : PoolPc → Prop
  | .making p _ _ | .posting p _ _ _ => s.poolDomain p ≠ none ∧ s.filled p = false
  | .linking p _ _ u =>
    (s.poolDomain p ≠ none ∧ s.filled p = false) ∧ s.made u = some (.poolNew p)
  | .looking p _ | .joined p _ _ | .sleeping p _ | .returns p _ => s.filled p = true
  | .joining p v _ => s.filled p = true ∧ s.made v = some (.poolNew p)
  | .outside | .posts _ | .waits _ _ | .waited _ => True

structure PoolInv (s : PoolState) : Prop where
  sys : SystemInv s.sys
  used : ∀ u, s.made u ≠ none → s.sys.status u ≠ .unused
  member : ∀ p u, u ∈ s.list p → s.made u = some (.poolNew p)
  origin : ∀ p u, s.made u = some (.poolNew p) → s.poolDomain p ≠ none
  known : ∀ p, s.filled p = true → s.poolDomain p ≠ none
  fits : ∀ t, (s.pc t).Fits s
  maker : ∀ t u p, (s.pc t).makes = some p → (s.pc u).makes = some p → t = u

section Invariant

variable {nrOfWorkers : DomainId → Int} {s s' : PoolState} {t u : Tid} {pc : PoolPc} {p : PoolId}

theorem PoolPc.Fits.mono (fits : pc.Fits s)
    (made : ∀ u m, s.made u = some m → s'.made u = some m)
    (domain : ∀ p, s.poolDomain p ≠ none → s'.poolDomain p ≠ none) (filled : s'.filled = s.filled) :
    pc.Fits s' := by
  cases pc with
  | making p i n => exact ⟨domain p fits.1, filled ▸ fits.2⟩
  | posting p i n u => exact ⟨domain p fits.1, filled ▸ fits.2⟩
  | linking p i n u => exact ⟨⟨domain p fits.1.1, filled ▸ fits.1.2⟩, made u _ fits.2⟩
  | joining p v rv => exact ⟨filled ▸ fits.1, made v _ fits.2⟩
  | looking p rv => exact (congrFun filled p).trans fits
  | joined p e rv => exact (congrFun filled p).trans fits
  | sleeping p rv => exact (congrFun filled p).trans fits
  | returns p rv => exact (congrFun filled p).trans fits
  | outside => trivial
  | posts u => trivial
  | waits u e => trivial
  | waited u => trivial

private theorem PoolPc.Fits.of_makes (fits : pc.Fits s) (makes : pc.makes = some p) :
    s.poolDomain p ≠ none ∧ s.filled p = false := by
  cases pc with
  | making q i n =>
      cases makes
      exact fits
  | posting q i n u =>
      cases makes
      exact fits
  | linking q i n u =>
      cases makes
      exact fits.1
  | _ => cases makes

private theorem PoolInv.maker_update (inv : PoolInv s)
    (makes : ∀ p, pc.makes = some p → (s.pc t).makes = some p ∨ ∀ v, (s.pc v).makes ≠ some p)
    (v u : Tid) (p : PoolId) (first : (Function.update s.pc t pc v).makes = some p)
    (second : (Function.update s.pc t pc u).makes = some p) : v = u := by
  have before : ∀ {x : Tid}, (Function.update s.pc t pc x).makes = some p →
      x = t ∧ pc.makes = some p ∨ (s.pc x).makes = some p := by
    intro x after
    by_cases same : x = t
    · rw [same, Function.update_self] at after
      exact .inl ⟨same, after⟩
    · rw [Function.update_of_ne same] at after
      exact .inr after
  rcases before first with ⟨rfl, new⟩ | old <;> rcases before second with ⟨rfl, new'⟩ | old'
  · rfl
  · rcases makes p new with same | nobody
    · exact inv.maker _ _ p same old'
    · exact absurd old' (nobody u)
  · rcases makes p new' with same | nobody
    · exact inv.maker _ _ p old same
    · exact absurd old (nobody v)
  · exact inv.maker v u p old old'

private theorem PoolInv.fits_goes (inv : PoolInv s) (pcs : s'.pc = Function.update s.pc t pc)
    (mine : pc.Fits s') (made : ∀ u m, s.made u = some m → s'.made u = some m)
    (domain : ∀ p, s.poolDomain p ≠ none → s'.poolDomain p ≠ none) (filled : s'.filled = s.filled) :
    ∀ v, (s'.pc v).Fits s' := by
  rw [pcs]
  apply (Function.forall_update_iff s.pc fun _ pc => pc.Fits s').mpr
  exact ⟨mine, fun v _ => (inv.fits v).mono made domain filled⟩

theorem PlainStep.systemInv (step : PlainStep s t pc s') (inv : SystemInv s.sys) : SystemInv s'.sys := by
  rcases step.sys with same | ⟨a, _, stepped⟩
  · exact same ▸ inv
  · exact inv.step stepped

theorem PlainStep.used (step : PlainStep s t pc s') (inv : SystemInv s.sys)
    (used : s.sys.status u ≠ .unused) : s'.sys.status u ≠ .unused := by
  rcases step.sys with same | ⟨a, _, stepped⟩
  · exact same ▸ used
  · exact (inv.lifeStep stepped).used used

theorem PoolInv.plain (inv : PoolInv s) (step : PlainStep s t pc s')
    (makes : pc.makes = none ∨ pc.makes = (s.pc t).makes) (fits : pc.Fits s) : PoolInv s' where
  sys := step.systemInv inv.sys
  used u made := step.used inv.sys (inv.used u (step.made ▸ made))
  member p u on := by
    rw [step.made]
    exact inv.member p u (step.list p u on)
  origin p u made := by
    rw [step.domain]
    exact inv.origin p u (step.made ▸ made)
  known p filled := by
    rw [step.domain]
    exact inv.known p (step.filled ▸ filled)
  fits := by
    have made : ∀ u m, s.made u = some m → s'.made u = some m := fun _ _ made => step.made ▸ made
    have domain : ∀ p, s.poolDomain p ≠ none → s'.poolDomain p ≠ none :=
      fun _ known => step.domain ▸ known
    exact inv.fits_goes step.pcs (fits.mono made domain step.filled) made domain step.filled
  maker := by
    rw [step.pcs]
    apply inv.maker_update
    intro p makes'
    rcases makes with none | same
    · rw [none] at makes'
      cases makes'
    · exact .inl (same ▸ makes')

theorem PoolState.tcThreadNew_spec {w : WorkerId} {d : DomainId} {nr : Int} {affine : Bool}
    {address : Nat} {maker : Maker} (new : s.tcThreadNew w u d nr affine address maker = some s') :
    s.available address = true ∧ ∃ sys, s.sys.step (.user w (.threadNew u d nr affine)) = some sys ∧
      s' = { s with
        sys := sys
        address := Function.update s.address u address
        object := Function.update s.object address (some u)
        made := Function.update s.made u (some maker) } := by
  unfold PoolState.tcThreadNew at new
  split at new
  · next available =>
    obtain ⟨sys, stepped, equal⟩ := Option.map_eq_some_iff.mp new
    exact ⟨available, sys, stepped, equal.symm⟩
  · cases new

theorem PoolInv.made_kept {v : Tid} {maker m : Maker} (inv : PoolInv s)
    (unused : s.sys.status u = .unused) (made : s.made v = some m) :
    Function.update s.made u (some maker) v = some m := by
  rw [Function.update_of_ne, made]
  rintro rfl
  exact inv.used v (by simp [made]) unused

private theorem PoolInv.made_step {w : WorkerId} {d : DomainId} {nr : Int} {affine : Bool}
    {address : Nat} {maker : Maker} (inv : PoolInv s)
    (new : s.tcThreadNew w u d nr affine address maker = some s')
    (makes : pc.makes = none ∨ pc.makes = (s.pc t).makes)
    (domain : ∀ p, maker = .poolNew p → s.poolDomain p ≠ none)
    (fits : s'.made u = some maker → s'.poolDomain = s.poolDomain → s'.filled = s.filled → pc.Fits s') :
    PoolInv (s'.setPc t pc) := by
  obtain ⟨_, sys, stepped, rfl⟩ := PoolState.tcThreadNew_spec new
  obtain ⟨unused, rfl⟩ := inv.sys.step_threadNew stepped
  have sys' := inv.sys.step stepped
  have fitting := fits (by simp) rfl rfl
  have kept : ∀ v m, s.made v = some m → Function.update s.made u (some maker) v = some m :=
    fun _ _ made => inv.made_kept unused made
  constructor
  · exact sys'
  · intro v made
    by_cases same : v = u
    · simp [PoolState.setPc, State.tcThreadNew, same]
    · refine (inv.sys.lifeStep stepped).used (inv.used v ?_)
      simpa [PoolState.setPc, same] using made
  · exact fun p v on => kept v _ (inv.member p v on)
  · intro p v made
    by_cases same : v = u
    · exact domain p (by simpa [PoolState.setPc, same] using made)
    · exact inv.origin p v (by simpa [PoolState.setPc, same] using made)
  · exact inv.known
  · refine inv.fits_goes rfl ?_ kept (fun _ known => known) rfl
    exact fitting.mono (fun _ _ made => made) (fun _ known => known) rfl
  · apply inv.maker_update
    intro p makes'
    rcases makes with none | same
    · rw [none] at makes'
      cases makes'
    · exact .inl (same ▸ makes')

private theorem PoolInv.poolNew_step {i : Nat} {n : Int} {d : DomainId} (inv : PoolInv s)
    (fresh : s.poolDomain p = none) :
    PoolInv { s.setPc t (.making p i n) with
      poolDomain := Function.update s.poolDomain p (some d)
      list := Function.update s.list p [] } := by
  have known : ∀ q, s.poolDomain q ≠ none → Function.update s.poolDomain p (some d) q ≠ none := by
    intro q before
    by_cases same : q = p <;> simp [same, before]
  have empty : s.filled p = false := by
    by_contra filled
    exact inv.known p (by simpa using filled) fresh
  constructor
  · exact inv.sys
  · exact inv.used
  · intro q u on
    by_cases same : q = p
    · simp [same] at on
    · exact inv.member q u (by simpa [same] using on)
  · exact fun q u made => known q (inv.origin q u made)
  · exact fun q filled => known q (inv.known q filled)
  · exact inv.fits_goes rfl ⟨by simp, empty⟩ (fun _ _ made => made) known rfl
  · apply inv.maker_update
    rintro q ⟨rfl⟩
    refine .inr fun v makes => ?_
    exact ((inv.fits v).of_makes makes).1 fresh

private theorem PoolInv.linked_step {i : Nat} {n : Int} (inv : PoolInv s)
    (at_ : s.pc t = .linking p i n u) :
    PoolInv { s.setPc t (.posting p i n u) with
      list := Function.update s.list p (u :: s.list p) } := by
  have fits : (PoolPc.linking p i n u).Fits s := at_ ▸ inv.fits t
  constructor
  · exact inv.sys
  · exact inv.used
  · intro q v on
    by_cases same : q = p
    · subst same
      rcases List.mem_cons.mp (by simpa using on) with rfl | old
      · exact fits.2
      · exact inv.member q v old
    · exact inv.member q v (by simpa [same] using on)
  · exact inv.origin
  · exact inv.known
  · exact inv.fits_goes rfl fits.1 (fun _ _ made => made) (fun _ known => known) rfl
  · apply inv.maker_update
    rintro q ⟨rfl⟩
    exact .inl (by rw [at_]; rfl)

private theorem PoolInv.filled_step {i : Nat} {n : Int} (inv : PoolInv s)
    (at_ : s.pc t = .making p i n) :
    PoolInv { s.setPc t .outside with filled := Function.update s.filled p true } := by
  have fits : (PoolPc.making p i n).Fits s := at_ ▸ inv.fits t
  have others : ∀ v, v ≠ t → (s.pc v).makes ≠ some p := by
    intro v other makes
    exact other (inv.maker v t p makes (by rw [at_]; rfl))
  have filled : ∀ q, s.filled q = true → Function.update s.filled p true q = true := by
    intro q before
    by_cases same : q = p <;> simp [same, before]
  constructor
  · exact inv.sys
  · exact inv.used
  · exact inv.member
  · exact inv.origin
  · intro q after
    by_cases same : q = p
    · exact same ▸ fits.1
    · exact inv.known q (by simpa [same] using after)
  · intro v
    by_cases same : v = t
    · simp only [PoolState.setPc, same, Function.update_self]
      trivial
    · have before := inv.fits v
      have free := others v same
      simp only [PoolState.setPc, Function.update_of_ne same]
      cases pc : s.pc v with
      | making q j m =>
          rw [pc] at before free
          have different : q ≠ p := by simpa [PoolPc.makes] using free
          exact ⟨before.1, by simpa [different] using before.2⟩
      | posting q j m x =>
          rw [pc] at before free
          have different : q ≠ p := by simpa [PoolPc.makes] using free
          exact ⟨before.1, by simpa [different] using before.2⟩
      | linking q j m x =>
          rw [pc] at before free
          have different : q ≠ p := by simpa [PoolPc.makes] using free
          exact ⟨⟨before.1.1, by simpa [different] using before.1.2⟩, before.2⟩
      | joining q x rv =>
          rw [pc] at before
          exact ⟨filled q before.1, before.2⟩
      | looking q rv => exact filled q (pc ▸ before :)
      | joined q e rv => exact filled q (pc ▸ before :)
      | sleeping q rv => exact filled q (pc ▸ before :)
      | returns q rv => exact filled q (pc ▸ before :)
      | outside => trivial
      | posts x => trivial
      | waits x e => trivial
      | waited x => trivial
  · apply inv.maker_update
    rintro q ⟨⟩

theorem PlainStep.setPc (s : PoolState) (t : Tid) (pc : PoolPc) : PlainStep s t pc (s.setPc t pc) :=
  ⟨.inl rfl, rfl, fun _ _ on => on, rfl, rfl, rfl⟩

theorem PoolState.mem_listAfter {a : Action} (on : u ∈ s.listAfter a p) : u ∈ s.list p := by
  cases a with
  | user w op =>
      cases op with
      | dieUnlink =>
          cases mode : s.sys.mode w with
          | thread t =>
              simp only [PoolState.listAfter, mode] at on
              exact (List.mem_filter.mp on).1
          | _ => simpa only [PoolState.listAfter, mode] using on
      | _ => exact on
  | _ => exact on

theorem PoolInv.step {a : PoolAction} (inv : PoolInv s) (step : PoolStep nrOfWorkers s a s') :
    PoolInv s' := by
  have fits := inv.fits
  cases step with
  | act a sys makes _ stepped =>
      refine inv.plain (t := 0) ⟨.inr ⟨a, Action.creates_of_makes makes, stepped⟩,
        (Function.update_eq_self 0 s.pc).symm, fun _ _ on => s.mem_listAfter on, rfl, rfl, rfl⟩
        (.inr rfl) (fits 0)
  | newRef w t u d address s₁ on pc new =>
      exact inv.made_step new (.inl rfl) (by simp) fun _ _ _ => trivial
  | poolNew w t p excess d _ _ fresh => exact inv.poolNew_step fresh
  | made w t u address p i n d nr affine s₁ on pc domain new =>
      have before : (PoolPc.making p i n).Fits s := pc ▸ fits t
      refine inv.made_step new (.inr (by rw [pc]; rfl)) ?_ fun made domain filled => ?_
      · rintro q ⟨rfl⟩
        exact before.1
      · exact ⟨⟨domain ▸ before.1, filled ▸ before.2⟩, made⟩
  | skipped w t address p i n pc =>
      have before : (PoolPc.making p i n).Fits s := pc ▸ fits t
      exact inv.plain (.setPc s t _) (.inr (by rw [pc]; rfl)) before
  | linked w t u p i n pc => exact inv.linked_step pc
  | posted w t u pc sys on before stepped =>
      have plain : PlainStep s t pc ({ s with sys := sys }.setPc t pc) :=
        ⟨.inr ⟨_, rfl, stepped⟩, rfl, fun _ _ on => on, rfl, rfl, rfl⟩
      rcases before with ⟨_, rfl⟩ | ⟨p, i, n, at_, rfl⟩
      · exact inv.plain plain (.inl rfl) trivial
      · have before : (PoolPc.posting p i n u).Fits s := at_ ▸ fits t
        exact inv.plain plain (.inr (by rw [at_]; rfl)) before
  | filled w t p i n pc => exact inv.filled_step pc
  | poolWait w t p on code pc filled =>
      exact inv.plain (t := t) ⟨.inl rfl, rfl, fun _ _ on => on, rfl, rfl, rfl⟩ (.inl rfl) filled
  | empty w t p rv pc empty =>
      have before : (PoolPc.looking p rv).Fits s := pc ▸ fits t
      exact inv.plain (.setPc s t _) (.inl rfl) before
  | first w t v p rv rest pc first =>
      have before : (PoolPc.looking p rv).Fits s := pc ▸ fits t
      exact inv.plain (.setPc s t _) (.inl rfl) ⟨before, inv.member p v (by simp [first])⟩
  | join w n t v u p rv d sys on pc domain at_ stepped =>
      have before : (PoolPc.joining p v rv).Fits s := pc ▸ fits t
      exact inv.plain (t := t) ⟨.inr ⟨_, rfl, stepped⟩, rfl, fun _ _ on => on, rfl, rfl, rfl⟩
        (.inl rfl) before.1
  | interrupted w t p e rv pc result =>
      have before : (PoolPc.joined p e rv).Fits s := pc ▸ fits t
      exact inv.plain (.setPc s t _) (.inl rfl) before
  | goesOn w t p e rv r rv' pc result notIntr =>
      have before : (PoolPc.joined p e rv).Fits s := pc ▸ fits t
      exact inv.plain (.setPc s t _) (.inl rfl) before
  | slept w t p rv code pc =>
      have before : (PoolPc.sleeping p rv).Fits s := pc ▸ fits t
      exact inv.plain (.setPc s t _) (.inl rfl) before
  | wait w n t u v sys on pc made at_ stepped =>
      exact inv.plain (t := t) ⟨.inr ⟨_, rfl, stepped⟩, rfl, fun _ _ on => on, rfl, rfl, rfl⟩
        (.inl rfl) trivial
  | waited w t u e rv pc result => exact inv.plain (.setPc s t _) (.inl rfl) trivial
  | left w t pc => exact inv.plain (.setPc s t _) (.inl rfl) trivial

theorem PoolInv.initial (workers : Nat) (domainOf : WorkerId → DomainId) :
    PoolInv (.initial workers domainOf) where
  sys := .initial workers domainOf
  used _ made := absurd rfl made
  member _ _ on := nomatch on
  origin _ _ made := nomatch made
  known _ filled := nomatch filled
  fits _ := trivial
  maker _ _ _ makes := nomatch makes

end Invariant

/-! ## Members -/

section Members

variable {nrOfWorkers : DomainId → Int} {s s' : PoolState}

/-- The calls of `tc_thread_pool_wait` have waited for threads of their pools. -/
structure MemberInv (s : PoolState) : Prop where
  pool : PoolInv s
  enqueued : ∀ p u, (p, u) ∈ s.enqueued → s.made u = some (.poolNew p)

theorem MemberInv.created {w : WorkerId} {u : Tid} {d : DomainId} {nr : Int} {affine : Bool}
    {address : Nat} {maker : Maker} (inv : MemberInv s)
    (new : s.tcThreadNew w u d nr affine address maker = some s') {p : PoolId} {v : Tid}
    (member : (p, v) ∈ s'.enqueued) : s'.made v = some (.poolNew p) := by
  obtain ⟨_, sys, stepped, rfl⟩ := PoolState.tcThreadNew_spec new
  exact inv.pool.made_kept (inv.pool.sys.step_threadNew stepped).1 (inv.enqueued p v member)

theorem MemberInv.step {a : PoolAction} (inv : MemberInv s) (reads : s.readsMember a = true)
    (step : PoolStep nrOfWorkers s a s') : MemberInv s' := by
  refine ⟨inv.pool.step step, ?_⟩
  cases step with
  | newRef w t u d address s₁ on pc new => exact fun _ _ member => inv.created new member
  | made w t u address p i n d nr affine s₁ on pc domain new =>
      exact fun _ _ member => inv.created new member
  | join w n t v u p rv d sys on pc domain at_ stepped =>
      intro q x member
      dsimp only at member
      split at member
      · next queued =>
        rcases List.mem_cons.mp member with new | old
        · cases new
          have fits : (PoolPc.joining p v rv).Fits s := pc ▸ inv.pool.fits t
          simp only [PoolState.readsMember, on, pc, at_, Bool.or_eq_true, decide_eq_true_eq] at reads
          rcases reads with rfl | elsewhere
          · exact fits.2
          · rcases inv.pool.sys.threadWait_outcome on stepped with ⟨_, _, off, _⟩ | ⟨⟨listed, same, _⟩, _⟩
            · simp [off] at queued
            · simp [listed, same, domain] at elsewhere
        · exact inv.enqueued q x old
      · exact inv.enqueued q x member
  | _ => exact inv.enqueued

/-- In every run in which the memory of the thread whose address `tc_thread_pool_wait` has read is
not given to another thread of the domain before it calls `tc_thread_wait_domain`, these calls queue
their events only on the `exit_waiters` of threads that were made for the pool. -/
theorem pool_wait_members {workers : Nat} {domainOf : WorkerId → DomainId}
    (reached : PoolReachable nrOfWorkers PoolState.readsMember workers domainOf s) :
    ∀ p u, (p, u) ∈ s.enqueued → s.made u = some (.poolNew p) := by
  have initial : MemberInv (.initial workers domainOf) :=
    ⟨.initial workers domainOf, fun _ _ member => nomatch member⟩
  exact (Transition.Run.invariant reached MemberInv initial fun inv reads stepped =>
    inv.step reads (PoolState.step_cases stepped)).enqueued

/-- Main thread 1 waits for thread 2, which it has made for pool 0. -/
def PoolState.WaitsForTwo (s : PoolState) : Bool :=
  decide ((0, 2) ∈ s.enqueued ∧ s.pc 1 = .joined 0 (.auto 1 0) .threadNa)

set_option maxRecDepth 20000 in
theorem pool_wait_members_two : ∃ s : PoolState,
    PoolReachable (fun _ => 2) PoolState.readsMember 2 (fun _ => 0) s ∧ s.WaitsForTwo = true ∧
      s.made 2 = some (.poolNew 0) := by
  obtain ⟨s, run, shown⟩ := Transition.exists_run
    (Transition.guarded (PoolState.step fun _ => 2) PoolState.readsMember) (.initial 2 fun _ => 0)
    [.poolNew 1 0 (-1) 0, .make 1 (some 2) 7, .link 1, .post 1, .fill 1, .poolWait 1 0, .look 1,
      .join 1 0]
    PoolState.WaitsForTwo (by decide)
  have reached : PoolReachable (fun _ => 2) PoolState.readsMember 2 (fun _ => 0) s := run.of_guarded
  simp only [PoolState.WaitsForTwo, decide_eq_true_eq] at shown
  exact ⟨s, reached, by simpa [PoolState.WaitsForTwo] using shown,
    pool_wait_members reached 0 2 shown.1⟩

set_option maxRecDepth 20000 in
/-- Main thread 1 reads the address of thread 2 from the list of the pool. Thread 2 exits and is
freed by worker 0, whose main thread makes thread 3 in the same memory. -/
theorem pool_wait_not_members : ∃ s : PoolState,
    PoolReachable (fun _ => 2) (fun _ _ => true) 2 (fun _ => 0) s ∧
      (0, 3) ∈ s.enqueued ∧ s.made 3 = some .threadNew ∧
      s.sys.el (.auto 1 0) = some (.waiters (.exit 3)) := by
  obtain ⟨s, run, shown⟩ := Transition.exists_run (PoolState.step fun _ => 2) (.initial 2 fun _ => 0)
    [.poolNew 1 0 (-1) 0, .make 1 (some 2) 7, .link 1, .post 1, .fill 1, .poolWait 1 0, .look 1,
      .act (.user 0 (.yield 0)), .act (.advance 0), .act (.advance 0), .act (.leave 0),
      .act (.runImmediate 0 .own), .act (.enter 0), .act (.user 0 .dieUnlink), .act (.die 0),
      .act (.die 0), .act (.die 0), .act (.leave 0), .act (.runImmediate 0 .own), .act (.enter 0),
      .act (.advance 0), .act (.user 0 (.yield 1)), .act (.advance 0), .act (.advance 0),
      .act (.leave 0), .act (.runImmediate 0 .own), .act (.free 0), .act (.runImmediate 0 .own),
      .act (.enter 0), .act (.advance 0), .newRef 0 3 0 7, .post 0, .join 1 0]
    (fun s => decide ((0, 3) ∈ s.enqueued ∧ s.made 3 = some .threadNew ∧
      s.sys.el (.auto 1 0) = some (.waiters (.exit 3)))) (by decide)
  exact ⟨s, run.mono fun _ _ _ => rfl, of_decide_eq_true shown⟩

end Members

end Libtcr
