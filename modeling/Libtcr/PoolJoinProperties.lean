import Libtcr.PoolProperties

/-! Waiting for threads to return: `tc_thread_pool_wait` for those of a pool, and `tc_thread_wait`
for one. Both come back early when a signal interrupts the thread wait. -/

set_option autoImplicit false

namespace Libtcr

open State

/-! ## Threads that have returned -/

def Status.returned : Status → Bool
  | .unlinked | .settled | .announced | .exiting | .dead => true
  | _ => false

section Returned

variable {s s' : State} {w : WorkerId} {t u : Tid} {a : Action}

private theorem Status.returned_of_exited {status : Status} (exited : status.exited = true) :
    status.returned = true := by
  cases status <;> first | rfl | cases exited

theorem LifeStep.returned (step : LifeStep s s' t) (before : (s.status t).returned = true) :
    (s'.status t).returned = true := by
  cases step with
  | same status _ => rwa [status]
  | made status _ => simp [status, Status.returned] at before
  | posted status _ _ => simp [status, Status.returned] at before
  | started status _ _ => simp [status, Status.returned] at before
  | unlinked _ after _ => simp [after, Status.returned]
  | settled _ after _ => simp [after, Status.returned]
  | announced _ after _ _ => simp [after, Status.returned]
  | exits _ after _ => simp [after, Status.returned]
  | freed _ after _ => simp [after, Status.returned]

private theorem LifeStep.listed_or_returned (step : LifeStep s s' t) (used : s.status t ≠ .unused)
    (before : (s.status t).returned = true ∨ s.listed t = true) :
    (s'.status t).returned = true ∨ s'.listed t = true := by
  rcases before with before | on
  · exact .inl (step.returned before)
  · cases step with
    | same _ listed => exact .inr (listed.trans on)
    | made unused _ => exact absurd unused used
    | posted _ _ listed => exact .inr (listed.trans on)
    | started _ _ listed => exact .inr (listed.trans on)
    | unlinked _ after _ => exact .inl (by simp [after, Status.returned])
    | settled _ _ listed => exact .inr (listed.trans on)
    | announced _ _ listed _ => exact .inr (listed.trans on)
    | exits _ _ listed => exact .inr (listed.trans on)
    | freed _ _ listed => exact .inr (listed.trans on)

private theorem State.Effect.unlinks (effect : s.Effect a s') (inv : SystemInv s)
    (after : s'.status t = .unlinked) :
    s.status t = .unlinked ∨ ∃ w, a = .user w .dieUnlink ∧ s.mode w = .thread t := by
  rcases effect.dies inv (by rw [after]; rfl) with equal | ⟨w, on, ⟨unlink, _⟩ | ⟨_, further⟩⟩
  · exact .inl (equal ▸ after)
  · exact .inr ⟨w, unlink, on⟩
  · exact absurd after further

theorem SystemInv.returns_by (inv : SystemInv s) (stepped : s.step a = some s')
    (after : (s'.status t).returned = true) :
    (s.status t).returned = true ∨ ∃ w, a = .user w .dieUnlink ∧ s.mode w = .thread t := by
  obtain ⟨_, effect | ⟨fault, _, rfl⟩⟩ := State.step_cases stepped
  · cases effect.lifeStep inv (t := t) with
    | same status _ => exact .inl (status ▸ after)
    | made _ now => simp [now, Status.returned] at after
    | posted _ now _ => simp [now, Status.returned] at after
    | started _ now _ => simp [now, Status.returned] at after
    | unlinked before now _ =>
        rcases effect.unlinks inv now with already | own
        · exact .inl (by simp [already, Status.returned])
        · exact .inr own
    | settled before _ _ => exact .inl (by simp [before, Status.returned])
    | announced before _ _ _ => exact .inl (by simp [before, Status.returned])
    | exits before _ _ => exact .inl (by simp [before, Status.returned])
    | freed before _ _ => exact .inl (by simp [before, Status.returned])
  · exact .inl after

private theorem SystemInv.step_dieUnlink (inv : SystemInv s) (on : s.mode w = .thread t)
    (stepped : s.step (.user w .dieUnlink) = some s') : s'.status t = .unlinked := by
  rcases State.step_act stepped with done | ⟨fault, failed, _⟩
  · cases act_ok done with
    | user w u op _ on' _ effect =>
        obtain rfl : t = u := Mode.thread.inj (on.symm.trans on')
        cases effect with
        | dieUnlink _ _ => simp
  · cases State.act_error inv failed

theorem SystemInv.step_domain (inv : SystemInv s) (stepped : s.step a = some s')
    (used : s.status t ≠ .unused) : s'.threadDomain t = s.threadDomain t := by
  by_cases old : a.creates = false
  · exact (inv.step_names old stepped).domain t
  · obtain ⟨w, u, d, nr, affine, rfl⟩ : ∃ w u d nr affine, a = .user w (.threadNew u d nr affine) := by
      cases a with
      | user w op =>
          cases op with
          | threadNew u d nr affine => exact ⟨w, u, d, nr, affine, rfl⟩
          | _ => exact absurd rfl old
      | _ => exact absurd rfl old
    obtain ⟨unused, rfl⟩ := inv.step_threadNew stepped
    have other : t ≠ u := by
      rintro rfl
      exact used unused
    simp [tcThreadNew, tcEventInit, other]

end Returned

/-! ## Lists -/

structure LinkInv (s : PoolState) : Prop where
  pool : PoolInv s
  listed : ∀ u, s.made u ≠ none → (s.sys.status u).returned = true ∨ s.sys.listed u = true
  /-- Memory is not given to another thread before it has been freed. -/
  present : ∀ u, s.made u ≠ none → s.sys.status u ≠ .dead → s.object (s.address u) = some u
  member : ∀ p u, s.made u = some (.poolNew p) → (s.sys.status u).returned = true ∨
    u ∈ s.list p ∨ ∃ t i n, s.pc t = .linking p i n u
  busy : ∀ t, s.pc t ≠ .outside → s.sys.status t ≠ .unused

section Links

variable {nrOfWorkers : DomainId → Int} {s s' : PoolState} {w : WorkerId} {t u : Tid} {pc : PoolPc}
  {p : PoolId} {a : Action}

/-- A step that makes no thread: thread `t` goes on to `pc`, where it does not link a thread, and
the list of a pool loses only who has returned. -/
structure JoinStep (s : PoolState) (t : Tid) (pc : PoolPc) (s' : PoolState) : Prop where
  sys : s'.sys = s.sys ∨ ∃ a, s.sys.step a = some s'.sys
  pcs : s'.pc = Function.update s.pc t pc
  made : s'.made = s.made
  address : s'.address = s.address
  object : s'.object = s.object
  list : ∀ p u, s.made u = some (.poolNew p) → u ∈ s.list p →
    u ∈ s'.list p ∨ (s'.sys.status u).returned = true
  linked : ∀ p i n u, s.pc t = .linking p i n u → pc = s.pc t ∨ u ∈ s'.list p
  busy : pc ≠ .outside → s.pc t ≠ .outside ∨ s.sys.status t ≠ .unused

theorem JoinStep.life (step : JoinStep s t pc s') (inv : SystemInv s.sys) (u : Tid) :
    LifeStep s.sys s'.sys u := by
  rcases step.sys with same | ⟨a, stepped⟩
  · exact .same (by rw [same]) (by rw [same])
  · exact inv.lifeStep stepped

theorem LinkInv.keep (inv : LinkInv s) (pool : PoolInv s') (step : JoinStep s t pc s') : LinkInv s' where
  pool := pool
  listed u made := by
    rw [step.made] at made
    exact (step.life inv.pool.sys u).listed_or_returned (inv.pool.used u made) (inv.listed u made)
  present u made alive := by
    rw [step.made] at made
    rw [step.object, step.address]
    apply inv.present u made
    intro dead
    exact alive ((step.life inv.pool.sys u).dead dead)
  member p u made := by
    rw [step.made] at made
    rcases inv.member p u made with returned | on | ⟨v, i, n, links⟩
    · exact .inl ((step.life inv.pool.sys u).returned returned)
    · rcases step.list p u made on with still | returned
      · exact .inr (.inl still)
      · exact .inl returned
    · by_cases same : v = t
      · subst same
        rcases step.linked p i n u links with stays | on
        · exact .inr (.inr ⟨v, i, n, by rw [step.pcs, Function.update_self, stays, links]⟩)
        · exact .inr (.inl on)
      · exact .inr (.inr ⟨v, i, n, by rw [step.pcs, Function.update_of_ne same, links]⟩)
  busy v inside := by
    apply (step.life inv.pool.sys v).used
    by_cases same : v = t
    · subst same
      rw [step.pcs, Function.update_self] at inside
      exact (step.busy inside).elim (inv.busy v) id
    · rw [step.pcs, Function.update_of_ne same] at inside
      exact inv.busy v inside

/-- `_tc_thread_new`: the new thread is on the list of threads, and its maker links it next if it is
made for a pool. -/
theorem LinkInv.created {d : DomainId} {nr : Int} {affine : Bool} {address : Nat} {maker : Maker}
    (inv : LinkInv s) (new : s.tcThreadNew w u d nr affine address maker = some s')
    (pool : PoolInv (s'.setPc t pc)) (inside : s.sys.status t ≠ .unused)
    (before : ∀ p i n v, s.pc t ≠ .linking p i n v)
    (links : ∀ p, maker = .poolNew p → ∃ i n, pc = .linking p i n u) : LinkInv (s'.setPc t pc) := by
  obtain ⟨available, sys, stepped, rfl⟩ := PoolState.tcThreadNew_spec new
  have life : ∀ v, LifeStep s.sys sys v := fun v => inv.pool.sys.lifeStep stepped
  obtain ⟨unused, rfl⟩ := inv.pool.sys.step_threadNew stepped
  have old : ∀ {v : Tid}, v ≠ u → Function.update s.made u (some maker) v = s.made v :=
    fun other => Function.update_of_ne other _ _
  constructor
  · exact pool
  · intro v made
    by_cases same : v = u
    · exact .inr (by simp [PoolState.setPc, State.tcThreadNew, same])
    · have made : s.made v ≠ none := old same ▸ made
      exact (life v).listed_or_returned (inv.pool.used v made) (inv.listed v made)
  · intro v made alive
    by_cases same : v = u
    · simp [PoolState.setPc, same]
    · have made : s.made v ≠ none := old same ▸ made
      have living : s.sys.status v ≠ .dead := fun dead => alive ((life v).dead dead)
      have there := inv.present v made living
      -- the memory of `v` is not available
      have apart : s.address v ≠ address := by
        rintro rfl
        simp [PoolState.available, there, living] at available
      simpa [PoolState.setPc, Function.update_of_ne same, Function.update_of_ne apart] using there
  · intro q v made
    by_cases same : v = u
    · obtain ⟨i, n, rfl⟩ := links q (by simpa [PoolState.setPc, same] using made)
      exact .inr (.inr ⟨t, i, n, by simp [PoolState.setPc, same]⟩)
    · have made : s.made v = some (.poolNew q) := (old same).symm.trans made
      rcases inv.member q v made with returned | on | ⟨x, i, n, linking⟩
      · exact .inl ((life v).returned returned)
      · exact .inr (.inl on)
      · have other : x ≠ t := by
          rintro rfl
          exact before q i n v linking
        exact .inr (.inr ⟨x, i, n, by simpa [PoolState.setPc, Function.update_of_ne other] using linking⟩)
  · intro v elsewhere
    apply (life v).used
    by_cases same : v = t
    · exact same ▸ inside
    · exact inv.busy v (by simpa [PoolState.setPc, same] using elsewhere)

private theorem PoolInv.listAfter_kept {sys : State} (inv : PoolInv s)
    (stepped : s.sys.step a = some sys) (on : u ∈ s.list p) :
    u ∈ s.listAfter a p ∨ (sys.status u).returned = true := by
  cases a with
  | user w op =>
      cases op with
      | dieUnlink =>
          cases mode : s.sys.mode w with
          | thread t =>
              by_cases same : u = t
              · have unlinked := inv.sys.step_dieUnlink (same ▸ mode) stepped
                exact .inr (by simp [unlinked, Status.returned])
              · exact .inl (by simp [PoolState.listAfter, mode, on, same])
          | _ => exact .inl (by simpa only [PoolState.listAfter, mode] using on)
      | _ => exact .inl on
  | _ => exact .inl on

theorem SystemInv.running_used {s : State} (inv : SystemInv s) (on : s.mode w = .thread t) :
    s.status t ≠ .unused := by
  have executable := ((inv.thread t).executing w _ (by simp [State.view, placeOf, on]; rfl)).1
  intro unused
  simp [State.view, unused, Status.executable] at executable

theorem JoinStep.goes (sys : s'.sys = s.sys ∨ ∃ a, s.sys.step a = some s'.sys)
    (pcs : s'.pc = Function.update s.pc t pc) (list : s'.list = s.list)
    (kept : s'.made = s.made ∧ s'.address = s.address ∧ s'.object = s.object)
    (before : ∀ p i n u, s.pc t ≠ .linking p i n u)
    (inside : s.pc t ≠ .outside ∨ s.sys.status t ≠ .unused) : JoinStep s t pc s' where
  sys := sys
  pcs := pcs
  made := kept.1
  address := kept.2.1
  object := kept.2.2
  list _ _ _ on := .inl (list ▸ on)
  linked p i n u linking := absurd linking (before p i n u)
  busy _ := inside

theorem JoinStep.setPc {before : PoolPc} (at_ : s.pc t = before) (inside : before ≠ .outside)
    (apart : ∀ p i n u, before ≠ .linking p i n u) : JoinStep s t pc (s.setPc t pc) :=
  .goes (.inl rfl) rfl rfl ⟨rfl, rfl, rfl⟩ (at_ ▸ apart) (.inl (at_ ▸ inside))

theorem LinkInv.step {a : PoolAction} (inv : LinkInv s) (step : PoolStep nrOfWorkers s a s') :
    LinkInv s' := by
  have pool := inv.pool.step step
  have sys := inv.pool.sys
  have other : ∀ {t : Tid} {pc : PoolPc}, s.pc t = pc → (∀ p i n u, pc ≠ .linking p i n u) →
      ∀ p i n u, s.pc t ≠ .linking p i n u := fun at_ apart => at_ ▸ apart
  cases step with
  | act a sys' makes allows stepped =>
      suffices kept : JoinStep s 0 (s.pc 0) _ from inv.keep pool kept
      constructor
      · exact .inr ⟨a, stepped⟩
      · exact (Function.update_eq_self 0 s.pc).symm
      · rfl
      · rfl
      · rfl
      · exact fun p u _ on => inv.pool.listAfter_kept stepped on
      · exact fun _ _ _ _ _ => .inl rfl
      · exact fun inside => .inl inside
  | newRef w t u d address s₁ on pc new =>
      exact inv.created new pool (sys.running_used on) (other pc (by simp)) (by simp)
  | poolNew w t p excess d on pc fresh =>
      apply inv.keep (t := t) pool
      constructor
      · exact .inl rfl
      · rfl
      · rfl
      · rfl
      · rfl
      · intro q u made on'
        refine .inl ?_
        by_cases same : q = p
        · exact absurd fresh (same ▸ inv.pool.origin q u made)
        · simpa [same] using on'
      · exact fun q i n u linking => absurd linking (other pc (by simp) q i n u)
      · exact fun _ => .inr (sys.running_used on)
  | made w t u address p i n d nr affine s₁ on pc domain new =>
      refine inv.created new pool (sys.running_used on) (other pc (by simp)) ?_
      rintro q ⟨rfl⟩
      exact ⟨i, n, rfl⟩
  | skipped w t address p i n pc => exact inv.keep pool (.setPc pc (by simp) (by simp))
  | linked w t u p i n pc =>
      apply inv.keep (t := t) pool
      constructor
      · exact .inl rfl
      · rfl
      · rfl
      · rfl
      · rfl
      · intro q v _ on
        refine .inl ?_
        by_cases same : q = p
        · subst same
          simp [on]
        · simpa [same] using on
      · intro q j m v linking
        obtain ⟨rfl, rfl, rfl, rfl⟩ : p = q ∧ i = j ∧ n = m ∧ u = v := by simpa [pc] using linking
        exact .inr (by simp)
      · exact fun _ => .inl (by simp [pc])
  | posted w t u pc sys' on before stepped =>
      refine inv.keep pool (.goes (.inr ⟨_, stepped⟩) rfl rfl ⟨rfl, rfl, rfl⟩ ?_
        (.inr (sys.running_used on)))
      rcases before with ⟨at_, _⟩ | ⟨p, i, n, at_, _⟩
      · exact other at_ (by simp)
      · exact other at_ (by simp)
  | filled w t p i n pc =>
      exact inv.keep pool (.goes (.inl rfl) rfl rfl ⟨rfl, rfl, rfl⟩ (other pc (by simp))
        (.inl (by simp [pc])))
  | poolWait w t p on code pc filled =>
      exact inv.keep pool (.goes (.inl rfl) rfl rfl ⟨rfl, rfl, rfl⟩ (other pc (by simp))
        (.inr (sys.running_used on)))
  | empty w t p rv pc empty => exact inv.keep pool (.setPc pc (by simp) (by simp))
  | first w t v p rv rest pc first => exact inv.keep pool (.setPc pc (by simp) (by simp))
  | join w n t v u p rv d sys' on pc domain at_ stepped =>
      exact inv.keep pool (.goes (.inr ⟨_, stepped⟩) rfl rfl ⟨rfl, rfl, rfl⟩ (other pc (by simp))
        (.inl (by simp [pc])))
  | interrupted w t p e rv pc result => exact inv.keep pool (.setPc pc (by simp) (by simp))
  | goesOn w t p e rv r rv' pc result notIntr => exact inv.keep pool (.setPc pc (by simp) (by simp))
  | slept w t p rv code pc => exact inv.keep pool (.setPc pc (by simp) (by simp))
  | wait w n t u v sys' on pc made at_ stepped =>
      exact inv.keep pool (.goes (.inr ⟨_, stepped⟩) rfl rfl ⟨rfl, rfl, rfl⟩ (other pc (by simp))
        (.inr (sys.running_used on)))
  | waited w t u e rv pc result => exact inv.keep pool (.setPc pc (by simp) (by simp))
  | left w t pc =>
      have inside : s.pc t ≠ .outside ∧ ∀ p i n u, s.pc t ≠ .linking p i n u := by
        rcases pc with ⟨p, rv, at_⟩ | ⟨u, at_⟩ <;> simp [at_]
      exact inv.keep pool (.goes (.inl rfl) rfl rfl ⟨rfl, rfl, rfl⟩ inside.2 (.inl inside.1))

theorem LinkInv.initial (workers : Nat) (domainOf : WorkerId → DomainId) :
    LinkInv (.initial workers domainOf) where
  pool := .initial workers domainOf
  listed _ made := absurd rfl made
  present _ made := absurd rfl made
  member _ _ made := nomatch made
  busy _ inside := absurd rfl inside

end Links

/-! ## The join -/

/-- What holds of a thread that waits, or has waited, for others, if no signal has interrupted it. -/
def PoolPc.Joins (s : PoolState) (t : Tid) : PoolPc → Prop
  | .joined _ e _ => (∃ n, e = .auto t n) ∧ s.sys.result e ≠ some .intr
  | .returns p rv => rv = .ok ∧ s.list p = []
  | .waits u e => s.made u ≠ none ∧ (∃ n, e = .auto t n) ∧ s.sys.result e ≠ some .intr ∧
      (s.sys.threadDomain u = s.sys.threadDomain t → (s.sys.status u).returned = true ∨ Awaits s.sys e u)
  | .waited u => s.made u ≠ none ∧
      (s.sys.threadDomain u = s.sys.threadDomain t → (s.sys.status u).returned = true)
  | _ => True

structure JoinInv (of : Tid → Join → Bool) (s : PoolState) : Prop where
  link : LinkInv s
  joins : ∀ t j, (s.pc t).joinOf = some j → of t j = true → (s.pc t).Joins s t

section Joins

variable {nrOfWorkers : DomainId → Int} {s s' : PoolState} {w : WorkerId} {t u : Tid} {pc : PoolPc}
  {a : Action} {e : EventId} {j : Join} {of of' : Tid → Join → Bool}

private theorem PoolInv.not_interrupted {n : Nat} (inv : PoolInv s)
    (joins : s.joinsOn of (.act a) = true) (stepped : s.sys.step a = some s'.sys)
    (inside : (s.pc t).joins = true) (joinOf : (s.pc t).joinOf = some j) (own : of t j = true)
    (auto : e = .auto t n) (before : s.sys.result e ≠ some .intr) :
    s'.sys.result e ≠ some .intr := by
  intro after
  cases inv.sys.interruptStep stepped with
  | calm _ _ result => exact before (result e after)
  | interrupted w v f rest m on frames pc woken _ result =>
      rw [result] at after
      by_cases same : e = f.e
      · obtain ⟨⟨k, frameOf⟩, _⟩ := (inv.sys.thread v).frame f (by simp [State.view, frames])
        obtain rfl : t = v := by
          have equal := auto.symm.trans (same.trans frameOf)
          simpa using (EventId.auto.inj equal).1
        simp [PoolState.joinsOn, PoolState.signalled, on, inside, joinOf, own, frames, woken, pc] at joins
      · rw [Function.update_of_ne same] at after
        exact before after

theorem PoolPc.Joins.kept (joins : (s.pc t).Joins s t) (link : LinkInv s)
    (joinsOn : s.joinsOn of (.act a) = true) (joinOf : (s.pc t).joinOf = some j)
    (own : of t j = true) (stepped : s.sys.step a = some s'.sys)
    (made : ∀ u, s.made u ≠ none → s'.made u ≠ none)
    (list : ∀ p, s.filled p = true → s.list p = [] → s'.list p = []) : (s.pc t).Joins s' t := by
  have inv := link.pool.sys
  have busy := link.busy t
  have fits := link.pool.fits t
  have quiet : ∀ {n : Nat} {e : EventId}, (s.pc t).joins = true → e = .auto t n →
      s.sys.result e ≠ some .intr → s'.sys.result e ≠ some .intr :=
    fun inside auto before =>
      link.pool.not_interrupted joinsOn stepped inside joinOf own auto before
  have domains : ∀ {u : Tid}, s.made u ≠ none → s.pc t ≠ .outside →
      s'.sys.threadDomain u = s'.sys.threadDomain t → s.sys.threadDomain u = s.sys.threadDomain t := by
    intro u made inside same
    rw [inv.step_domain stepped (link.pool.used u made), inv.step_domain stepped (busy inside)] at same
    exact same
  cases at_ : s.pc t with
  | joined p e rv =>
      rw [at_] at joins quiet
      obtain ⟨⟨n, auto⟩, result⟩ := joins
      exact ⟨⟨n, auto⟩, quiet rfl auto result⟩
  | returns p rv =>
      rw [at_] at joins fits
      exact ⟨joins.1, list p fits joins.2⟩
  | waits u e =>
      rw [at_] at joins quiet
      obtain ⟨old, ⟨n, auto⟩, result, awaits⟩ := joins
      have result' := quiet rfl auto result
      refine ⟨made u old, ⟨n, auto⟩, result', fun same => ?_⟩
      have life : LifeStep s.sys s'.sys u := inv.lifeStep stepped
      rcases awaits (domains old (by simp [at_]) same) with returned | awaits
      · exact .inl (life.returned returned)
      · rcases awaits.step inv stepped with still | intr | ⟨_, exited⟩
        · exact .inr still
        · exact absurd intr result'
        · exact .inl (Status.returned_of_exited exited)
  | waited u =>
      rw [at_] at joins
      refine ⟨made u joins.1, fun same => ?_⟩
      have life : LifeStep s.sys s'.sys u := inv.lifeStep stepped
      exact life.returned (joins.2 (domains joins.1 (by simp [at_]) same))
  | _ => trivial

theorem PoolPc.Joins.mono (joins : pc.Joins s t) (fits : pc.Fits s) (sys : s'.sys = s.sys)
    (made : s'.made = s.made) (list : ∀ p, s.filled p = true → s.list p = [] → s'.list p = []) :
    pc.Joins s' t := by
  cases pc with
  | joined p e rv => exact ⟨joins.1, sys ▸ joins.2⟩
  | returns p rv => exact ⟨joins.1, list p fits joins.2⟩
  | waits u e =>
      obtain ⟨old, auto, result, awaits⟩ := joins
      refine ⟨made ▸ old, auto, sys ▸ result, fun same => ?_⟩
      rw [sys] at same ⊢
      exact awaits same
  | waited u =>
      refine ⟨made ▸ joins.1, fun same => ?_⟩
      rw [sys] at same ⊢
      exact joins.2 same
  | _ => trivial

theorem JoinInv.moves (inv : JoinInv of s) (link : LinkInv s')
    (pcs : s'.pc = Function.update s.pc t pc)
    (kept : ∀ v j, (s.pc v).joinOf = some j → of v j = true → (s.pc v).Joins s v →
      (s.pc v).Joins s' v)
    (joins : ∀ j, pc.joinOf = some j → of t j = true → pc.Joins s' t) : JoinInv of s' := by
  refine ⟨link, ?_⟩
  rw [pcs]
  apply (Function.forall_update_iff s.pc fun v pc =>
    ∀ j, pc.joinOf = some j → of v j = true → pc.Joins s' v).mpr
  exact ⟨joins, fun v _ j joinOf own => kept v j joinOf own (inv.joins v j joinOf own)⟩

theorem JoinInv.goes (inv : JoinInv of s) (link : LinkInv s') (sys : s'.sys = s.sys)
    (made : s'.made = s.made) (pcs : s'.pc = Function.update s.pc t pc)
    (list : ∀ p, s.filled p = true → s.list p = [] → s'.list p = [])
    (joins : ∀ j, pc.joinOf = some j → of t j = true → pc.Joins s' t) : JoinInv of s' :=
  inv.moves link pcs
    (fun v _ _ _ joins => joins.mono (inv.link.pool.fits v) sys made list) joins

theorem JoinInv.calls {op : UserOp} (inv : JoinInv of s) (link : LinkInv s')
    (stepped : s.sys.step (.user w op) = some s'.sys) (pcs : s'.pc = Function.update s.pc t pc)
    (made : ∀ u, s.made u ≠ none → s'.made u ≠ none) (list : s'.list = s.list)
    (joins : ∀ j, pc.joinOf = some j → of t j = true → pc.Joins s' t) : JoinInv of s' :=
  inv.moves link pcs (fun _ _ joinOf own joins =>
    joins.kept inv.link rfl joinOf own stepped made fun _ _ empty => list ▸ empty) joins

theorem JoinInv.creates {d : DomainId} {nr : Int} {affine : Bool} {address : Nat} {maker : Maker}
    (inv : JoinInv of s) (new : s.tcThreadNew w u d nr affine address maker = some s')
    (link : LinkInv (s'.setPc t pc)) (away : pc.joinOf = none) : JoinInv of (s'.setPc t pc) := by
  obtain ⟨_, sys, stepped, rfl⟩ := PoolState.tcThreadNew_spec new
  refine inv.calls link stepped rfl (fun v made => ?_) rfl (by simp [away])
  by_cases same : v = u <;> simp [PoolState.setPc, same, made]

theorem JoinInv.mono (inv : JoinInv of s)
    (weaker : ∀ t j, (s.pc t).joinOf = some j → of' t j = true → of t j = true) : JoinInv of' s :=
  ⟨inv.link, fun t j joinOf own => inv.joins t j joinOf (weaker t j joinOf own)⟩

/-- `tc_thread_wait` called for a thread of the own domain that has not returned. -/
theorem LinkInv.awaits {n : Nat} {v : Tid} {sys : State} (link : LinkInv s) (made : s.made u ≠ none)
    (on : s.sys.mode w = .thread t) (at_ : s.object (s.address u) = some v)
    (stepped : s.sys.step (.user w (.threadWait n v (s.sys.threadDomain t) 0)) = some sys)
    (home : s.sys.threadDomain u = s.sys.threadDomain t) :
    (sys.status u).returned = true ∨ Awaits sys (.auto t n) u := by
  have life : LifeStep s.sys sys u := link.pool.sys.lifeStep stepped
  rcases link.listed u made with returned | listed
  · exact .inl (life.returned returned)
  · by_cases dead : s.sys.status u = .dead
    · exact .inl (life.returned (by simp [dead, Status.returned]))
    · obtain rfl : u = v := Option.some.inj ((link.present u made dead).symm.trans at_)
      rcases link.pool.sys.threadWait_outcome on stepped with
        ⟨invalid, _⟩ | ⟨_, ⟨saved, frames⟩, rests⟩
      · exact absurd ⟨listed, home, .inl rfl⟩ invalid
      · exact .inr ⟨_, _, frames, rfl, rfl, .inl rests⟩

private theorem SystemInv.threadWait_not_intr {s s' : State} {n : Nat} {d : DomainId}
    {id : BitVec 32} (inv : SystemInv s) (on : s.mode w = .thread t)
    (stepped : s.step (.user w (.threadWait n u d id)) = some s') :
    s'.result (.auto t n) ≠ some .intr := by
  rcases inv.threadWait_outcome on stepped with ⟨_, na, _⟩ | ⟨_, ⟨saved, frames⟩, _⟩
  · simp [na]
  · have none := (inv.step stepped).result_none (t := t) (f := ⟨.thread u, .auto t n, .pushed, saved⟩)
      (by simp [frames])
    simp [none]

theorem JoinInv.step {a : PoolAction} (inv : JoinInv of s) (joinsOn : s.joinsOn of a = true)
    (step : PoolStep nrOfWorkers s a s') : JoinInv of s' := by
  have link := inv.link.step step
  cases step with
  | act a sys makes allows stepped =>
      refine ⟨link, fun t j joinOf own => ?_⟩
      exact (inv.joins t j joinOf own).kept inv.link joinsOn joinOf own stepped (fun _ made => made)
        fun _ _ empty => List.eq_nil_iff_forall_not_mem.mpr fun u on => by
          simpa [empty] using s.mem_listAfter on
  | newRef w t u d address s₁ on pc new => exact inv.creates new link rfl
  | poolNew w t p excess d on pc fresh =>
      refine inv.goes link rfl rfl rfl (fun q _ empty => ?_) nofun
      by_cases same : q = p <;> simp [same, empty]
  | made w t u address p i n d nr affine s₁ on pc domain new => exact inv.creates new link rfl
  | skipped w t address p i n pc => exact inv.goes link rfl rfl rfl (fun _ _ empty => empty) nofun
  | linked w t u p i n pc =>
      have fits : (PoolPc.linking p i n u).Fits s := pc ▸ inv.link.pool.fits t
      refine inv.goes link rfl rfl rfl (fun q filled empty => ?_) nofun
      have other : q ≠ p := by
        rintro rfl
        have notYet := fits.1.2
        simp [filled] at notYet
      simpa [other] using empty
  | posted w t u pc sys on before stepped =>
      refine inv.calls link stepped rfl (fun _ made => made) rfl ?_
      rcases before with ⟨_, rfl⟩ | ⟨p, i, n, _, rfl⟩ <;> nofun
  | filled w t p i n pc => exact inv.goes link rfl rfl rfl (fun _ _ empty => empty) nofun
  | poolWait w t p on code pc filled => exact inv.goes link rfl rfl rfl (fun _ _ empty => empty) nofun
  | empty w t p rv pc empty =>
      exact inv.goes link rfl rfl rfl (fun _ _ empty => empty) fun _ _ _ => ⟨rfl, empty⟩
  | first w t v p rv rest pc first => exact inv.goes link rfl rfl rfl (fun _ _ empty => empty) nofun
  | join w n t v u p rv d sys on pc domain at_ stepped =>
      exact inv.calls link stepped rfl (fun _ made => made) rfl fun _ _ _ =>
        ⟨⟨n, rfl⟩, inv.link.pool.sys.threadWait_not_intr on stepped⟩
  | interrupted w t p e rv pc result =>
      refine inv.goes link rfl rfl rfl (fun _ _ empty => empty) fun j joinOf own => ?_
      have before : (PoolPc.joined p e rv).Joins s t := pc ▸ inv.joins t j (pc ▸ joinOf) own
      exact absurd result before.2
  | goesOn w t p e rv r rv' pc result notIntr =>
      exact inv.goes link rfl rfl rfl (fun _ _ empty => empty) nofun
  | slept w t p rv code pc => exact inv.goes link rfl rfl rfl (fun _ _ empty => empty) nofun
  | wait w n t u v sys on pc made at_ stepped =>
      have system := inv.link.pool.sys
      refine inv.calls link stepped rfl (fun _ made => made) rfl fun _ _ _ =>
        ⟨made, ⟨n, rfl⟩, system.threadWait_not_intr on stepped, fun home => ?_⟩
      apply inv.link.awaits made on at_ stepped
      have names := system.step_names rfl stepped
      exact (names.domain u).symm.trans (home.trans (names.domain t))
  | waited w t u e rv pc result =>
      refine inv.goes link rfl rfl rfl (fun _ _ empty => empty) fun j joinOf own => ?_
      have before : (PoolPc.waits u e).Joins s t := pc ▸ inv.joins t j (pc ▸ joinOf) own
      obtain ⟨made, _, notIntr, awaits⟩ := before
      refine ⟨made, fun home => ?_⟩
      rcases awaits home with returned | ⟨f, rest, frames, event, _⟩
      · exact returned
      · -- the call is still under way
        have none := inv.link.pool.sys.result_none (t := e.owner) (f := f) (by simp [frames])
        rw [event, result] at none
        cases none
  | left w t pc => exact inv.goes link rfl rfl rfl (fun _ _ empty => empty) nofun

theorem JoinInv.initial (of : Tid → Join → Bool) (workers : Nat) (domainOf : WorkerId → DomainId) :
    JoinInv of (.initial workers domainOf) :=
  ⟨.initial workers domainOf, nofun⟩

theorem joinOf_update {pcs : Tid → PoolPc} (away : pc.joinOf = none)
    (joinOf : (Function.update pcs t pc u).joinOf = some j) : u ≠ t ∧ (pcs u).joinOf = some j := by
  by_cases same : u = t
  · subst same
    simp [away] at joinOf
  · exact ⟨same, by simpa [same] using joinOf⟩

theorem PoolInv.filled_of_join {p : PoolId} (inv : PoolInv s)
    (joinOf : (s.pc t).joinOf = some (.pool p)) : s.filled p = true := by
  have fits := inv.fits t
  cases at_ : s.pc t with
  | joined q e rv =>
      obtain rfl : q = p := by simpa [at_, PoolPc.joinOf] using joinOf
      rwa [at_] at fits
  | returns q rv =>
      obtain rfl : q = p := by simpa [at_, PoolPc.joinOf] using joinOf
      rwa [at_] at fits
  | _ => simp [at_, PoolPc.joinOf] at joinOf

theorem JoinInv.pool_returned {p : PoolId} {rv : Rv} (inv : JoinInv of s)
    (pc : s.pc t = .returns p rv) (own : of t (.pool p) = true)
    (made : s.made u = some (.poolNew p)) : (s.sys.status u).returned = true := by
  have joins : (PoolPc.returns p rv).Joins s t := pc ▸ inv.joins t (.pool p) (by rw [pc]; rfl) own
  have filled : (PoolPc.returns p rv).Fits s := pc ▸ inv.link.pool.fits t
  rcases inv.link.member p u made with returned | on | ⟨v, i, n, linking⟩
  · exact returned
  · simp [joins.2] at on
  · have fits : (PoolPc.linking p i n u).Fits s := linking ▸ inv.link.pool.fits v
    have notYet := fits.1.2
    simp [show s.filled p = true from filled] at notYet

end Joins

end Libtcr
