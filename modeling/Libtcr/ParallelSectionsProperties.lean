import Libtcr.ParallelSections
import Libtcr.ParallelForProperties
import Libtcr.PoolJoinProperties

/-! When control passes the join of a parallel statement its bodies have returned, unless a signal
has interrupted the join. -/

set_option autoImplicit false

namespace Libtcr

open State

variable {Value : Type}

/-! ## Steps -/

inductive SectionStep (loop : PoolId → ForLoop Value) (nrOfWorkers : DomainId → Int)
    (s : SectionState Value) : SectionAction → SectionState Value → Prop where
  | pool (a : PoolAction) (pools : PoolState) (permits : s.permits a = true)
      (stepped : s.pools.step nrOfWorkers a = some pools) :
      SectionStep loop nrOfWorkers s (.pool a) { s with pools := pools, index := s.indexAfter a }
  | iterate (w : WorkerId) (t : Tid) (p : PoolId) (f f' : ForState Value)
      (made : s.pools.made t = some (.poolNew p)) (at_ : s.loops p = some f)
      (stepped : f.step (loop p) (s.threads nrOfWorkers p) (s.index t) = some f') :
      SectionStep loop nrOfWorkers s (.iterate w)
        { s with loops := Function.update s.loops p (some f') }
  | parallelFor (w : WorkerId) (p : PoolId) (d : DomainId) (pools : PoolState)
      (stepped : s.pools.step nrOfWorkers (.poolNew w p 0 d) = some pools) :
      SectionStep loop nrOfWorkers s (.parallelFor w p)
        { s with pools := pools, loops := Function.update s.loops p (some (.initial (loop p))) }
  | parallel (w : WorkerId) (t u : Tid) (address : Nat) (pools : PoolState)
      (on : s.pools.sys.mode w = .thread t)
      (stepped : s.pools.step nrOfWorkers (.newRef w u (s.pools.sys.threadDomain t) address) =
        some pools) :
      SectionStep loop nrOfWorkers s (.parallel w u address)
        { s with pools := pools, parallels := Function.update s.parallels t (u :: s.parallels t) }
  | joinWith (w : WorkerId) (n : Nat) (u : Tid) (pools : PoolState)
      (stepped : s.pools.step nrOfWorkers (.wait w n u) = some pools) :
      SectionStep loop nrOfWorkers s (.joinWith w n u) { s with pools := pools }

section Steps

variable {loop : PoolId → ForLoop Value} {nrOfWorkers : DomainId → Int} {s s' : SectionState Value}

theorem SectionState.step_cases {a : SectionAction} (stepped : s.step loop nrOfWorkers a = some s') :
    SectionStep loop nrOfWorkers s a s' := by
  cases a with
  | pool a =>
      simp only [SectionState.step] at stepped
      split at stepped
      · next permits =>
        obtain ⟨pools, done, rfl⟩ := Option.map_eq_some_iff.mp stepped
        exact .pool a pools permits done
      · cases stepped
  | iterate w =>
      obtain ⟨t, _, stepped⟩ := Option.bind_eq_some_iff.mp stepped
      split at stepped
      · split at stepped
        · next p made =>
          obtain ⟨f, at_, stepped⟩ := Option.bind_eq_some_iff.mp stepped
          obtain ⟨f', done, rfl⟩ := Option.map_eq_some_iff.mp stepped
          exact .iterate w t p f f' made at_ done
        · cases stepped
      · cases stepped
  | parallelFor w p =>
      obtain ⟨t, _, stepped⟩ := Option.bind_eq_some_iff.mp stepped
      dsimp only at stepped
      split at stepped
      · obtain ⟨pools, done, rfl⟩ := Option.map_eq_some_iff.mp stepped
        exact .parallelFor w p _ pools done
      · cases stepped
  | parallel w u address =>
      obtain ⟨t, caller, stepped⟩ := Option.bind_eq_some_iff.mp stepped
      dsimp only at stepped
      split at stepped
      · obtain ⟨pools, done, rfl⟩ := Option.map_eq_some_iff.mp stepped
        exact .parallel w t u address pools (PoolState.caller_some caller).1 done
      · cases stepped
  | joinWith w n u =>
      obtain ⟨t, _, stepped⟩ := Option.bind_eq_some_iff.mp stepped
      dsimp only at stepped
      split at stepped
      · obtain ⟨pools, done, rfl⟩ := Option.map_eq_some_iff.mp stepped
        exact .joinWith w n u pools done
      · cases stepped

private theorem ForState.step_others {loop : ForLoop Value} {threads i j : Nat}
    {f f' : ForState Value} (stepped : f.step loop threads i = some f') (other : j ≠ i) :
    f'.pc j = f.pc j := by
  unfold ForState.step at stepped
  split at stepped
  · split at stepped
    · split at stepped <;> cases stepped
      exact Function.update_of_ne other _ _
    all_goals cases stepped
    all_goals exact Function.update_of_ne other _ _
  · cases stepped

private theorem ForState.step_ended {loop : ForLoop Value} {threads i : Nat} {f f' : ForState Value}
    (stepped : f.step loop threads i = some f') : f.pc i ≠ .ended := by
  intro ended
  unfold ForState.step at stepped
  split at stepped
  · simp [ended] at stepped
  · cases stepped

end Steps

/-! ## Steps of the pools -/

/-- The pool that the thread fills, and the turns that it has begun. -/
def PoolPc.turns : PoolPc → Option (PoolId × Nat)
  | .making p i _ => some (p, i)
  | .linking p i _ _ | .posting p i _ _ => some (p, i + 1)
  | _ => none

inductive MadeStep (s s' : PoolState) : PoolAction → Prop where
  | same (a : PoolAction) (made : s'.made = s.made)
      (other : ∀ w u address, a ≠ .make w (some u) address)
      (notRef : ∀ w u d address, a ≠ .newRef w u d address) : MadeStep s s' a
  | newRef (w : WorkerId) (u : Tid) (d : DomainId) (address : Nat) (unused : s.sys.status u = .unused)
      (created : s'.sys.status u = .created) (domain : s'.sys.threadDomain u = d)
      (made : s'.made = Function.update s.made u (some .threadNew)) :
      MadeStep s s' (.newRef w u d address)
  | make (w : WorkerId) (t u : Tid) (address : Nat) (p : PoolId) (i : Nat) (n : Int)
      (on : s.sys.mode w = .thread t) (pc : s.pc t = .making p i n)
      (unused : s.sys.status u = .unused) (created : s'.sys.status u = .created)
      (pc' : s'.pc t = .linking p i n u)
      (made : s'.made = Function.update s.made u (some (.poolNew p))) :
      MadeStep s s' (.make w (some u) address)

section PoolSteps

variable {nrOfWorkers : DomainId → Int} {s s' : PoolState} {a : PoolAction} {t u : Tid} {p : PoolId}

private theorem PoolInv.tcThreadNew_some {w : WorkerId} {d : DomainId} {nr : Int} {affine : Bool}
    {address : Nat} {maker : Maker} (inv : PoolInv s)
    (new : s.tcThreadNew w u d nr affine address maker = some s') :
    s.sys.status u = .unused ∧ s'.sys = s.sys.tcThreadNew u d nr affine ∧
      s'.made = Function.update s.made u (some maker) ∧
      s.sys.step (.user w (.threadNew u d nr affine)) = some s'.sys := by
  obtain ⟨_, sys, stepped, rfl⟩ := PoolState.tcThreadNew_spec new
  obtain ⟨unused, rfl⟩ := inv.sys.step_threadNew stepped
  exact ⟨unused, rfl, rfl, stepped⟩

private theorem PoolState.tcThreadNew_pc {w : WorkerId} {d : DomainId} {nr : Int} {affine : Bool}
    {address : Nat} {maker : Maker} (new : s.tcThreadNew w u d nr affine address maker = some s') :
    s'.pc = s.pc := by
  obtain ⟨_, sys, _, rfl⟩ := PoolState.tcThreadNew_spec new
  rfl

private theorem PoolStep.madeStep (step : PoolStep nrOfWorkers s a s') (inv : PoolInv s) :
    MadeStep s s' a := by
  cases step with
  | newRef w t u d address s₁ on pc new =>
      obtain ⟨unused, sys, made, _⟩ := inv.tcThreadNew_some new
      refine .newRef w u d address unused ?_ ?_ made
      · simp [PoolState.setPc, sys, State.tcThreadNew]
      · simp [PoolState.setPc, sys, State.tcThreadNew]
  | made w t u address p i n d nr affine s₁ on pc domain new =>
      obtain ⟨unused, sys, made, _⟩ := inv.tcThreadNew_some new
      refine .make w t u address p i n on pc unused ?_ ?_ made
      · simp [PoolState.setPc, sys, State.tcThreadNew]
      · simp [PoolState.setPc]
  | _ => exact .same _ rfl (by simp) (by simp)

/-- The step of the library; `tc_die` is called by the application's code only. -/
theorem PoolStep.library (step : PoolStep nrOfWorkers s a s') (inv : PoolInv s) :
    s'.sys = s.sys ∨ ∃ b, s.sys.step b = some s'.sys ∧
      ∀ w, b = .user w .dieUnlink → a = .act (.user w .dieUnlink) := by
  cases step with
  | act b sys makes allows stepped => exact .inr ⟨b, stepped, fun w same => by rw [same]⟩
  | newRef w t u d address s₁ on pc new =>
      exact .inr ⟨_, (inv.tcThreadNew_some new).2.2.2, by simp⟩
  | made w t u address p i n d nr affine s₁ on pc domain new =>
      exact .inr ⟨_, (inv.tcThreadNew_some new).2.2.2, by simp⟩
  | posted w t u pc sys on before stepped => exact .inr ⟨_, stepped, by simp⟩
  | join w n t v u p rv d sys on pc domain at_ stepped => exact .inr ⟨_, stepped, by simp⟩
  | wait w n t u v sys on pc made at_ stepped => exact .inr ⟨_, stepped, by simp⟩
  | _ => exact .inl rfl

theorem PoolStep.life (step : PoolStep nrOfWorkers s a s') (inv : PoolInv s) (u : Tid) :
    LifeStep s.sys s'.sys u := by
  rcases step.library inv with same | ⟨b, stepped, _⟩
  · exact .same (by rw [same]) (by rw [same])
  · exact inv.sys.lifeStep stepped

theorem PoolStep.domain (step : PoolStep nrOfWorkers s a s') (inv : PoolInv s)
    (used : s.sys.status u ≠ .unused) : s'.sys.threadDomain u = s.sys.threadDomain u := by
  rcases step.library inv with same | ⟨b, stepped, _⟩
  · rw [same]
  · exact inv.sys.step_domain stepped used

theorem PoolStep.turns (step : PoolStep nrOfWorkers s a s') {k : Nat}
    (after : (s'.pc t).turns = some (p, k)) :
    (∃ j ≤ k, (s.pc t).turns = some (p, j)) ∨ s.poolDomain p = none := by
  have moves : ∀ (v : Tid) (pc : PoolPc), s'.pc = Function.update s.pc v pc →
      (pc.turns = some (p, k) →
        (∃ j ≤ k, (s.pc v).turns = some (p, j)) ∨ s.poolDomain p = none) →
      (∃ j ≤ k, (s.pc t).turns = some (p, j)) ∨ s.poolDomain p = none := by
    intro v pc pcs own
    rw [pcs] at after
    by_cases same : t = v
    · subst same
      rw [Function.update_self] at after
      exact own after
    · rw [Function.update_of_ne same] at after
      exact .inl ⟨k, Nat.le_refl k, after⟩
  cases step with
  | act b sys makes allows stepped => exact .inl ⟨k, Nat.le_refl k, after⟩
  | newRef w v u d address s₁ on pc new =>
      refine moves v (.posts u) ?_ (by simp [PoolPc.turns])
      rw [PoolState.setPc, PoolState.tcThreadNew_pc new]
  | poolNew w v q excess d on pc fresh =>
      refine moves _ _ rfl fun own => .inr ?_
      obtain ⟨rfl, _⟩ : q = p ∧ 0 = k := by simpa [PoolPc.turns] using own
      exact fresh
  | made w v u address q i n d nr affine s₁ on pc domain new =>
      refine moves v (.linking q i n u) ?_ fun own => ?_
      · rw [PoolState.setPc, PoolState.tcThreadNew_pc new]
      · obtain ⟨rfl, rfl⟩ : q = p ∧ i + 1 = k := by simpa [PoolPc.turns] using own
        exact .inl ⟨i, Nat.le_succ i, by rw [pc]; rfl⟩
  | skipped w v address q i n pc =>
      refine moves _ _ rfl fun own => ?_
      obtain ⟨rfl, rfl⟩ : q = p ∧ i + 1 = k := by simpa [PoolPc.turns] using own
      exact .inl ⟨i, Nat.le_succ i, by rw [pc]; rfl⟩
  | linked w v u q i n pc =>
      refine moves _ _ rfl fun own => ?_
      obtain ⟨rfl, rfl⟩ : q = p ∧ i + 1 = k := by simpa [PoolPc.turns] using own
      exact .inl ⟨i + 1, Nat.le_refl _, by rw [pc]; rfl⟩
  | posted w v u pc sys on before stepped =>
      refine moves _ _ rfl fun own => ?_
      rcases before with ⟨_, rfl⟩ | ⟨q, i, n, at_, rfl⟩
      · cases own
      · obtain ⟨rfl, rfl⟩ : q = p ∧ i + 1 = k := by simpa [PoolPc.turns] using own
        exact .inl ⟨i + 1, Nat.le_refl _, by rw [at_]; rfl⟩
  | _ => exact moves _ _ rfl (by simp [PoolPc.turns])

end PoolSteps

/-! ## The invariant -/

structure ParallelInv (loop : PoolId → ForLoop Value) (s : SectionState Value) : Prop where
  link : LinkInv s.pools
  locked : ∀ p f, s.loops p = some f → ForLocked (loop p) f
  started : ∀ p f i, s.loops p = some f → f.pc i ≠ .outside →
    ∃ u, s.pools.made u = some (.poolNew p) ∧ s.index u = i
  ended : ∀ p f u, s.loops p = some f → s.pools.made u = some (.poolNew p) →
    (s.pools.sys.status u).returned = true → f.pc (s.index u) = .ended
  index : ∀ p u v, s.pools.made u = some (.poolNew p) → s.pools.made v = some (.poolNew p) →
    s.index u = s.index v → u = v
  turns : ∀ t p k u, (s.pools.pc t).turns = some (p, k) → s.pools.made u = some (.poolNew p) →
    s.index u < k
  home : ∀ t u, u ∈ s.parallels t → s.pools.made u ≠ none ∧ s.pools.sys.status t ≠ .unused ∧
    s.pools.sys.threadDomain u = s.pools.sys.threadDomain t

section Invariant

variable {loop : PoolId → ForLoop Value} {nrOfWorkers : DomainId → Int} {s s' : SectionState Value}
  {pools : PoolState} {a : PoolAction} {t u : Tid} {p : PoolId}

private theorem PoolPc.makes_of_turns {pc : PoolPc} {k : Nat} (turns : pc.turns = some (p, k)) :
    pc.makes = some p := by
  cases pc <;> simp_all [PoolPc.turns, PoolPc.makes]

/-- A thread of `tc_parallel_for` that has just returned was at the end of `__for_func`. -/
theorem ParallelInv.returns (inv : ParallelInv loop s) (step : PoolStep nrOfWorkers s.pools a pools)
    (permits : ∀ w, a = .act (.user w .dieUnlink) → s.permits a = true) {f : ForState Value}
    (at_ : s.loops p = some f) (made : s.pools.made u = some (.poolNew p))
    (after : (pools.sys.status u).returned = true) : f.pc (s.index u) = .ended := by
  have pool := inv.link.pool
  rcases step.library pool with same | ⟨b, stepped, own⟩
  · exact inv.ended p f u at_ made (same ▸ after)
  · rcases pool.sys.returns_by stepped after with before | ⟨w, rfl, on⟩
    · exact inv.ended p f u at_ made before
    · obtain rfl := own w rfl
      have atEnd := permits w rfl
      simp only [SectionState.permits, SectionState.forPcOn, on, SectionState.forPc, made, at_,
        Option.map_some, Option.all_some] at atEnd
      cases now : f.pc (s.index u) <;> simp [now, ForPc.atEnd] at atEnd ⊢

private theorem ParallelInv.index_kept (inv : ParallelInv loop s)
    (step : PoolStep nrOfWorkers s.pools a pools) (made : s.pools.made u ≠ none) :
    s.indexAfter a u = s.index u := by
  have used := inv.link.pool.used u made
  cases step.madeStep inv.link.pool with
  | same a _ other _ =>
      cases a with
      | make w v address =>
          cases v with
          | none => rfl
          | some v => exact absurd rfl (other w v address)
      | _ => rfl
  | newRef w v d address _ _ _ _ => rfl
  | make w t v address p i n on pc unused _ _ _ =>
      have different : u ≠ v := by
        rintro rfl
        exact used unused
      simp [SectionState.indexAfter, on, pc, different]

theorem ParallelInv.made_kept (inv : ParallelInv loop s) (step : PoolStep nrOfWorkers s.pools a pools)
    (made : s.pools.made u ≠ none) : pools.made u = s.pools.made u := by
  have used := inv.link.pool.used u made
  cases step.madeStep inv.link.pool with
  | same _ same _ _ => rw [same]
  | newRef w v d address unused _ _ made' =>
      rw [made', Function.update_of_ne]
      rintro rfl
      exact used unused
  | make w t v address p i n on pc unused _ _ made' =>
      rw [made', Function.update_of_ne]
      rintro rfl
      exact used unused

private theorem ParallelInv.made_cases (inv : ParallelInv loop s)
    (step : PoolStep nrOfWorkers s.pools a pools) (made : pools.made u = some (.poolNew p)) :
    s.pools.made u = some (.poolNew p) ∨
      pools.sys.status u = .created ∧ ∃ t i n, s.pools.pc t = .making p i n ∧
        pools.pc t = .linking p i n u ∧ s.indexAfter a u = i := by
  cases step.madeStep inv.link.pool with
  | same _ same _ _ => exact .inl (same ▸ made)
  | newRef w v d address _ _ _ made' =>
      rw [made'] at made
      by_cases same : u = v
      · simp [same] at made
      · exact .inl (by simpa [same] using made)
  | make w t v address q i n on pc _ created pc' made' =>
      rw [made'] at made
      by_cases same : u = v
      · subst same
        obtain rfl : q = p := by simpa using made
        exact .inr ⟨created, t, i, n, pc, pc', by simp [SectionState.indexAfter, on, pc]⟩
      · exact .inl (by simpa [same] using made)

private theorem ParallelInv.pool_step (inv : ParallelInv loop s)
    (step : PoolStep nrOfWorkers s.pools a pools)
    (permits : ∀ w, a = .act (.user w .dieUnlink) → s.permits a = true) :
    ParallelInv loop { s with pools := pools, index := s.indexAfter a } := by
  have pool := inv.link.pool
  have link := inv.link.step step
  have old : ∀ {p : PoolId} {u : Tid}, s.pools.made u = some (.poolNew p) →
      s.indexAfter a u = s.index u := fun made => inv.index_kept step (by simp [made])
  -- the index of a new thread is larger than those of the threads before it
  have later : ∀ {p : PoolId} {u v : Tid} {t : Tid} {i : Nat} {n : Int}, s.pools.pc t = .making p i n →
      s.indexAfter a u = i → s.pools.made v = some (.poolNew p) → s.indexAfter a v < s.indexAfter a u := by
    intro p u v t i n pc index made
    rw [index, old made]
    exact inv.turns t p i v (by rw [pc]; rfl) made
  constructor
  · exact link
  · exact inv.locked
  · intro p f i at_ begun
    obtain ⟨u, made, index⟩ := inv.started p f i at_ begun
    exact ⟨u, (inv.made_kept step (by simp [made])).trans made, (old made).trans index⟩
  · intro p f u at_ made returned
    rcases inv.made_cases step made with before | ⟨created, _⟩
    · dsimp only
      rw [old before]
      exact inv.returns step permits at_ before returned
    · simp [created, Status.returned] at returned
  · intro p u v first second same
    rcases inv.made_cases step first with before | ⟨_, t, i, n, pc, pc', index⟩ <;>
      rcases inv.made_cases step second with before' | ⟨_, t', i', n', pc₁, pc₁', index'⟩
    · exact inv.index p u v before before' ((old before).symm.trans (same.trans (old before')))
    · exact absurd same (Nat.ne_of_lt (later pc₁ index' before))
    · exact absurd same.symm (Nat.ne_of_lt (later pc index before'))
    · -- one thread fills the pool, and it is about to link one thread
      obtain rfl := link.pool.maker t t' p (by rw [pc']; rfl) (by rw [pc₁']; rfl)
      exact (PoolPc.linking.inj (pc'.symm.trans pc₁')).2.2.2
  · intro t p k u turns made
    rcases inv.made_cases step made with before | ⟨_, v, i, n, _, pc', index⟩
    · dsimp only
      rw [old before]
      rcases step.turns turns with ⟨j, le, now⟩ | fresh
      · exact Nat.lt_of_lt_of_le (inv.turns t p j u now before) le
      · exact absurd fresh (pool.origin p u before)
    · obtain rfl := link.pool.maker t v p (PoolPc.makes_of_turns turns) (by rw [pc']; rfl)
      dsimp only at turns ⊢
      rw [pc'] at turns
      obtain ⟨_, rfl⟩ : p = p ∧ i + 1 = k := by simpa [PoolPc.turns] using turns
      omega
  · intro t u on
    obtain ⟨made, used, domain⟩ := inv.home t u on
    refine ⟨by rwa [inv.made_kept step made], (step.life pool t).used used, ?_⟩
    rw [step.domain pool (pool.used u made), step.domain pool used, domain]

private theorem ParallelInv.iterate_step {f f' : ForState Value} {threads : Nat}
    (inv : ParallelInv loop s) (made : s.pools.made t = some (.poolNew p))
    (at_ : s.loops p = some f) (stepped : f.step (loop p) threads (s.index t) = some f') :
    ParallelInv loop { s with loops := Function.update s.loops p (some f') } := by
  have split : ∀ {q : PoolId} {g : ForState Value}, Function.update s.loops p (some f') q = some g →
      q = p ∧ g = f' ∨ s.loops q = some g := by
    intro q g now
    by_cases same : q = p
    · exact .inl ⟨same, by simpa [same] using now.symm⟩
    · exact .inr (by simpa [same] using now)
  constructor
  · exact inv.link
  · intro q g now
    rcases split now with ⟨rfl, rfl⟩ | before
    · exact (inv.locked q f at_).step stepped
    · exact inv.locked q g before
  · intro q g i now begun
    rcases split now with ⟨rfl, rfl⟩ | before
    · by_cases own : i = s.index t
      · exact ⟨t, made, own.symm⟩
      · rw [ForState.step_others stepped own] at begun
        exact inv.started q f i at_ begun
    · exact inv.started q g i before begun
  · intro q g u now made' returned
    rcases split now with ⟨rfl, rfl⟩ | before
    · have ended := inv.ended q f u at_ made' returned
      have other : s.index u ≠ s.index t := by
        intro same
        exact ForState.step_ended stepped (same ▸ ended)
      exact (ForState.step_others stepped other).trans ended
    · exact inv.ended q g u before made' returned
  · exact inv.index
  · exact inv.turns
  · exact inv.home

private theorem PoolState.poolNew_fresh {w : WorkerId} {excess : Int} {d : DomainId}
    (stepped : s.pools.step nrOfWorkers (.poolNew w p excess d) = some pools) :
    s.pools.poolDomain p = none ∧ pools.made = s.pools.made := by
  cases PoolState.step_cases stepped with
  | poolNew w t p excess d on pc fresh => exact ⟨fresh, rfl⟩

theorem ParallelInv.step {a : SectionAction} (inv : ParallelInv loop s)
    (step : SectionStep loop nrOfWorkers s a s') : ParallelInv loop s' := by
  cases step with
  | pool a pools permits stepped =>
      exact inv.pool_step (PoolState.step_cases stepped) fun _ _ => permits
  | iterate w t p f f' made at_ stepped => exact inv.iterate_step made at_ stepped
  | parallelFor w p d pools stepped =>
      have after : ParallelInv loop { s with pools := pools } :=
        inv.pool_step (PoolState.step_cases stepped) nofun
      obtain ⟨fresh, same⟩ := PoolState.poolNew_fresh stepped
      have none : ∀ u, pools.made u ≠ some (.poolNew p) := by
        intro u made
        exact inv.link.pool.origin p u (same ▸ made) fresh
      constructor
      · exact after.link
      · intro q f now
        by_cases same : q = p
        · subst same
          obtain rfl : ForState.initial (loop q) = f := by simpa using now
          exact .initial (loop q)
        · exact after.locked q f (by simpa [same] using now)
      · intro q f i now begun
        by_cases same : q = p
        · obtain rfl : ForState.initial (loop p) = f := by simpa [same] using now
          exact absurd rfl begun
        · exact after.started q f i (by simpa [same] using now) begun
      · intro q f u now made returned
        by_cases same : q = p
        · exact absurd made (same ▸ none u)
        · exact after.ended q f u (by simpa [same] using now) made returned
      · exact after.index
      · exact after.turns
      · exact after.home
  | parallel w t u address pools on stepped =>
      have done := PoolState.step_cases stepped
      have after : ParallelInv loop { s with pools := pools } := inv.pool_step done nofun
      refine { after with home := fun v x member => ?_ }
      have old : x ∈ s.parallels v → pools.made x ≠ none ∧ pools.sys.status v ≠ .unused ∧
          pools.sys.threadDomain x = pools.sys.threadDomain v := after.home v x
      by_cases same : v = t
      · subst same
        rcases List.mem_cons.mp (by simpa using member) with rfl | before
        · have used := inv.link.pool.sys.running_used on
          cases done.madeStep inv.link.pool with
          | same _ _ _ notRef => exact absurd rfl (notRef w x _ address)
          | newRef w v d address _ _ domain made =>
              refine ⟨by simp [made], (done.life inv.link.pool v).used used, ?_⟩
              rw [domain, done.domain inv.link.pool used]
        · exact old before
      · exact old (by simpa [same] using member)
  | joinWith w n u pools stepped => exact inv.pool_step (PoolState.step_cases stepped) nofun

theorem ParallelInv.initial (workers : Nat) (domainOf : WorkerId → DomainId) :
    ParallelInv loop (.initial workers domainOf) where
  link := .initial workers domainOf
  locked _ _ at_ := nomatch at_
  started _ _ _ at_ := nomatch at_
  ended _ _ _ at_ := nomatch at_
  index _ _ _ made := nomatch made
  turns _ _ _ _ turns := nomatch turns
  home _ _ member := nomatch member

theorem ParallelInv.finished (inv : ParallelInv loop s)
    (returned : ∀ u, s.pools.made u = some (.poolNew p) → (s.pools.sys.status u).returned = true) :
    s.Finished loop p := by
  intro f at_
  have ended : ∀ u, s.pools.made u = some (.poolNew p) → f.pc (s.index u) = .ended :=
    fun u made => inv.ended p f u at_ made (returned u made)
  refine ⟨ended, fun i => ?_, ?_⟩
  · by_cases outside : f.pc i = .outside
    · exact .inl outside
    · obtain ⟨u, made, rfl⟩ := inv.started p f i at_ outside
      exact .inr (ended u made)
  · rintro ⟨u, made⟩
    exact (inv.locked p f at_).stopped (s.index u) (by rw [ended u made]; rfl)

def SectionState.PoolReturned (s : SectionState Value) (p : PoolId) : Prop :=
  s.pools.filled p = true ∧
    ∀ u, s.pools.made u = some (.poolNew p) → (s.pools.sys.status u).returned = true

private theorem PoolStep.filled_stays {s s' : PoolState} {a : PoolAction}
    (step : PoolStep nrOfWorkers s a s') (filled : s.filled p = true) : s'.filled p = true := by
  cases step with
  | newRef w t u d address s₁ on pc new =>
      obtain ⟨_, sys, _, rfl⟩ := PoolState.tcThreadNew_spec new
      exact filled
  | made w t u address q i n d nr affine s₁ on pc domain new =>
      obtain ⟨_, sys, _, rfl⟩ := PoolState.tcThreadNew_spec new
      exact filled
  | filled w t q i n pc => by_cases same : p = q <;> simp [same, filled]
  | _ => exact filled

private theorem ParallelInv.returned_stays {a : SectionAction} (inv : ParallelInv loop s)
    (step : SectionStep loop nrOfWorkers s a s') (before : s.PoolReturned p) : s'.PoolReturned p := by
  have pool : ∀ {a : PoolAction} {pools : PoolState}, PoolStep nrOfWorkers s.pools a pools →
      pools.filled p = true ∧
        ∀ u, pools.made u = some (.poolNew p) → (pools.sys.status u).returned = true := by
    intro a pools step
    refine ⟨step.filled_stays before.1, fun u made => ?_⟩
    rcases inv.made_cases step made with old | ⟨_, t, i, n, pc, _⟩
    · exact (step.life inv.link.pool u).returned (before.2 u old)
    · -- nobody fills the pool any more
      have fits : (PoolPc.making p i n).Fits s.pools := pc ▸ inv.link.pool.fits t
      have notYet := fits.2
      simp [before.1] at notYet
  cases step with
  | pool a pools _ stepped => exact pool (PoolState.step_cases stepped)
  | iterate w t q f f' made at_ stepped => exact before
  | parallelFor w q d pools stepped => exact pool (PoolState.step_cases stepped)
  | parallel w t u address pools on stepped => exact pool (PoolState.step_cases stepped)
  | joinWith w n u pools stepped => exact pool (PoolState.step_cases stepped)

theorem ParallelInv.life {a : SectionAction} (inv : ParallelInv loop s)
    (step : SectionStep loop nrOfWorkers s a s') (u : Tid) :
    LifeStep s.pools.sys s'.pools.sys u := by
  cases step with
  | pool a pools _ stepped => exact (PoolState.step_cases stepped).life inv.link.pool u
  | iterate w t q f f' made at_ stepped => exact .same rfl rfl
  | parallelFor w q d pools stepped => exact (PoolState.step_cases stepped).life inv.link.pool u
  | parallel w t u' address pools on stepped => exact (PoolState.step_cases stepped).life inv.link.pool u
  | joinWith w n u' pools stepped => exact (PoolState.step_cases stepped).life inv.link.pool u

private theorem JoinInv.section_step {a : SectionAction} (inv : JoinInv s.joinsOf s.pools)
    (joins : s.joinsOn a = true) (step : SectionStep loop nrOfWorkers s a s') :
    JoinInv s'.joinsOf s'.pools := by
  cases step with
  | pool a pools _ stepped => exact inv.step joins (PoolState.step_cases stepped)
  | iterate w t q f f' made at_ stepped =>
      refine inv.mono fun v j _ own => ?_
      cases j with
      | thread u => exact own
      | pool p =>
          by_cases same : p = q
          · simp [SectionState.joinsOf, same, at_]
          · simpa [SectionState.joinsOf, same] using own
  | parallelFor w q d pools stepped =>
      have done := PoolState.step_cases stepped
      refine (inv.step rfl done).mono fun v j joinOf own => ?_
      cases j with
      | thread u => exact own
      | pool p =>
          by_cases same : p = q
          · -- nobody waits for a pool that has not been there
            subst same
            cases done with
            | poolNew w t p excess d on pc fresh =>
                have before := (joinOf_update rfl joinOf).2
                exact absurd fresh (inv.link.pool.known p (inv.link.pool.filled_of_join before))
          · simpa [SectionState.joinsOf, same] using own
  | parallel w t u address pools on stepped =>
      have done := PoolState.step_cases stepped
      refine (inv.step rfl done).mono fun v j joinOf own => ?_
      cases j with
      | pool p => exact own
      | thread u' =>
          cases done with
          | newRef w t' u d address s₁ on' pc new =>
              obtain rfl := Mode.thread.inj (on'.symm.trans on)
              have elsewhere := (joinOf_update rfl joinOf).1
              simpa [SectionState.joinsOf, elsewhere] using own
  | joinWith w n u pools stepped => exact inv.step rfl (PoolState.step_cases stepped)

end Invariant

/-! ## Results -/

section Results

variable {loop : PoolId → ForLoop Value} {nrOfWorkers : DomainId → Int} {workers : Nat}
  {domainOf : WorkerId → DomainId} {s s' : SectionState Value} {p : PoolId} {u : Tid}

theorem ParallelInv.run {ok : SectionState Value → SectionAction → Prop} {start : SectionState Value}
    (inv : ParallelInv loop start)
    (run : Transition.Run (SectionState.step loop nrOfWorkers) ok start s) : ParallelInv loop s :=
  run.invariant (ParallelInv loop) inv fun inv _ stepped => inv.step (SectionState.step_cases stepped)

private theorem JoinInv.section_run
    (reached : SectionReachable loop nrOfWorkers SectionState.joinsOn workers domainOf s) :
    JoinInv s.joinsOf s.pools :=
  Transition.Run.invariant reached (fun s => JoinInv s.joinsOf s.pools)
    (.initial _ workers domainOf)
    fun inv joins stepped => inv.section_step joins (SectionState.step_cases stepped)

/-- In every run in which no join of a statement is interrupted by a signal: when control passes the
`tc_thread_pool_wait` of `tc_parallel_for`, its iterations have returned; when it passes the
`tc_thread_wait` of `tc_with`, the first body has. Both stay so, whatever happens then. -/
theorem parallel_sections_finished
    (reached : SectionReachable loop nrOfWorkers SectionState.joinsOn workers domainOf s) :
    (∀ t p rv, s.pools.pc t = .returns p rv → (s.loops p).isSome = true → ∀ s',
      Transition.Run (SectionState.step loop nrOfWorkers) Transition.always s s' →
        s'.Finished loop p) ∧
    ∀ t u, s.pools.pc t = .waited u → u ∈ s.parallels t → ∀ s',
      Transition.Run (SectionState.step loop nrOfWorkers) Transition.always s s' →
        (s'.pools.sys.status u).returned = true := by
  have inv : ParallelInv loop s := ParallelInv.run (.initial workers domainOf) reached
  have join := JoinInv.section_run reached
  constructor
  · intro t p rv pc own s' run
    have filled : (PoolPc.returns p rv).Fits s.pools := pc ▸ join.link.pool.fits t
    have now : s.PoolReturned p := ⟨filled, fun u made => join.pool_returned pc own made⟩
    obtain ⟨inv', returned⟩ := run.invariant (fun s => ParallelInv loop s ∧ s.PoolReturned p) ⟨inv, now⟩
      fun before _ stepped =>
        have step := SectionState.step_cases stepped
        ⟨before.1.step step, before.1.returned_stays step before.2⟩
    exact inv'.finished returned.2
  · intro t u pc member s' run
    have joins : (PoolPc.waited u).Joins s.pools t :=
      pc ▸ join.joins t (.thread u) (by rw [pc]; rfl) (by simpa [SectionState.joinsOf] using member)
    have now := joins.2 (inv.home t u member).2.2
    exact (run.invariant
      (fun s => ParallelInv loop s ∧ (s.pools.sys.status u).returned = true) ⟨inv, now⟩
      fun before _ stepped =>
        have step := SectionState.step_cases stepped
        ⟨before.1.step step, (before.1.life step u).returned before.2⟩).2

end Results

set_option maxRecDepth 20000 in
/-- Main thread 1 executes a loop of one iteration on worker 0, and waits for it. -/
theorem parallel_sections_finished_one : ∃ s : SectionState Nat,
    SectionReachable (fun _ => .countTo 1) (fun _ => 1) SectionState.joinsOn 2 (fun _ => 0) s ∧
      s.pools.pc 1 = .returns 0 .ok ∧ (s.loops 0).map ForState.passed = some [0] ∧
      s.Finished (fun _ => .countTo 1) 0 := by
  obtain ⟨s, run, shown⟩ := Transition.exists_run
    (Transition.guarded (SectionState.step (fun _ => .countTo 1) fun _ => 1) SectionState.joinsOn)
    (.initial 2 fun _ => 0)
    [.parallelFor 1 0, .pool (.make 1 (some 2) 7), .pool (.link 1), .pool (.post 1), .pool (.fill 1),
      .pool (.poolWait 1 0), .pool (.look 1), .pool (.join 1 0), .pool (.act (.advance 1)),
      .pool (.act (.leave 1)), .pool (.act (.user 0 (.yield 0))), .pool (.act (.advance 0)),
      .pool (.act (.advance 0)), .pool (.act (.leave 0)), .pool (.act (.runImmediate 0 .own)),
      .pool (.act (.enter 0)), .iterate 0, .iterate 0, .iterate 0, .iterate 0, .iterate 0, .iterate 0,
      .iterate 0, .iterate 0, .iterate 0, .pool (.act (.user 0 .dieUnlink)), .pool (.act (.die 0)),
      .pool (.act (.die 0)), .pool (.act (.die 0)), .pool (.act (.leave 0)),
      .pool (.act (.runImmediate 1 .own)), .pool (.act (.enter 1)), .pool (.act (.advance 1)),
      .pool (.joined 1), .pool (.act (.user 1 (.yield 1))), .pool (.act (.advance 1)),
      .pool (.act (.advance 1)), .pool (.act (.leave 1)), .pool (.act (.runImmediate 1 .own)),
      .pool (.act (.enter 1)), .pool (.act (.advance 1)), .pool (.slept 1), .pool (.look 1)]
    (fun s => s.pools.pc 1 = .returns 0 .ok ∧ (s.loops 0).map ForState.passed = some [0]) (by decide)
  obtain ⟨pc, passed⟩ := of_decide_eq_true shown
  have reached : SectionReachable (fun _ => .countTo 1) (fun _ => 1) SectionState.joinsOn 2 (fun _ => 0) s :=
    run.of_guarded
  have loop : (s.loops 0).isSome = true := by
    obtain ⟨f, at_, _⟩ := Option.map_eq_some_iff.mp passed
    rw [at_]
    rfl
  exact ⟨s, reached, pc, passed, (parallel_sections_finished reached).1 1 0 .ok pc loop s .refl⟩

set_option maxRecDepth 20000 in
/-- A signal interrupts the thread wait of main thread 1, while thread 2 is in the body. -/
theorem parallel_sections_not_finished : ∃ s : SectionState Nat,
    SectionReachable (fun _ => .countTo 1) (fun _ => 1) (fun _ _ => true) 2 (fun _ => 0) s ∧
      s.pools.pc 1 = .returns 0 .intr ∧ s.pools.made 2 = some (.poolNew 0) ∧
      (s.loops 0).map (fun f => f.pc (s.index 2)) = some .body ∧
      ¬ s.Finished (fun _ => .countTo 1) 0 := by
  obtain ⟨s, run, shown⟩ := Transition.exists_run
    (SectionState.step (fun _ => .countTo 1) fun _ => 1) (.initial 2 fun _ => 0)
    [.pool (.act (.user 1 (.subscribe 0 0))), .parallelFor 1 0, .pool (.make 1 (some 2) 7),
      .pool (.link 1), .pool (.post 1), .pool (.fill 1), .pool (.poolWait 1 0), .pool (.look 1),
      .pool (.act (.user 0 (.fire 0))), .pool (.join 1 0), .pool (.act (.advance 1)),
      .pool (.act (.leave 1)), .pool (.act (.runImmediate 1 .own)), .pool (.act (.enter 1)),
      .pool (.act (.advance 1)), .pool (.joined 1), .pool (.act (.user 0 (.yield 0))),
      .pool (.act (.advance 0)), .pool (.act (.advance 0)), .pool (.act (.leave 0)),
      .pool (.act (.runImmediate 0 .own)), .pool (.act (.enter 0)), .iterate 0, .iterate 0, .iterate 0,
      .iterate 0, .iterate 0]
    (fun s => s.pools.pc 1 = .returns 0 .intr ∧ s.pools.made 2 = some (.poolNew 0) ∧
      (s.loops 0).map (fun f => f.pc (s.index 2)) = some .body) (by decide)
  obtain ⟨pc, made, body⟩ := of_decide_eq_true shown
  refine ⟨s, run.mono fun _ _ _ => rfl, pc, made, body, fun finished => ?_⟩
  obtain ⟨f, at_, inBody⟩ := Option.map_eq_some_iff.mp body
  have ended := (finished f at_).1 2 made
  simp [inBody] at ended

end Libtcr
