import Libtcr.Domains
import Libtcr.AlertInvariant
import Libtcr.ThreadRefProperties

/-! Domain isolation: threads, their events and the workers that execute them stay in one domain,
whatever the threads of other domains do. -/

set_option autoImplicit false

namespace Libtcr

open State

/-! ## The assertion in `_run_immediate` -/

section Assertion

variable {s s' : State} {a : Action} {w : WorkerId} {t : Tid}

private theorem runOrQueue_not_domain {e : EventId} {fault : Fault}
    (failed : s.runOrQueue w e = .error fault) : fault ≠ .assertDomain := by
  have moved : ∀ {s : State} {k : EventList}, s.moveEvent e k = .error fault → fault ≠ .assertDomain := by
    intro s k refused
    rcases moveEvent_error refused with ⟨_, rfl⟩ | ⟨_, rfl⟩ <;> simp
  unfold runOrQueue at failed
  dsimp only at failed
  split at failed
  · cases failed
    simp
  · split at failed
    · split at failed
      · next refused =>
        cases failed
        simp [(removeEventFrom_error refused).2]
      · cases failed
    · split at failed
      · split at failed
        · next refused =>
          cases failed
          exact moved refused
        · cases failed
      · split at failed
        · next refused =>
          cases failed
          split at refused
          · exact moved refused
          · cases refused
        · cases failed

private theorem searchImmediate_not_error {scan : Scan} {es : List EventId} {fault : Fault}
    (same : ∀ e ∈ es, s.domain e = s.threadDomain (s.tc e)) :
    s.searchImmediate w scan es ≠ .error fault := by
  induction es with
  | nil => simp [searchImmediate]
  | cons e es ih =>
      obtain ⟨first, rest⟩ := List.forall_mem_cons.mp same
      unfold searchImmediate
      rw [if_neg (by simp [first])]
      split
      · simp
      · exact ih rest

private theorem act_not_domain (inv : SystemInv s)
    (same : ∀ e ∈ s.events .immediate, s.domain e = s.threadDomain (s.tc e)) :
    s.act a ≠ some (.error .assertDomain) := by
  intro failed
  cases State.act_error inv failed with
  | otherDomain w scan =>
      simp only [act] at failed
      split at failed
      · unfold runImmediate at failed
        dsimp only [Option.some.injEq] at failed
        split at failed
        · next refused => exact searchImmediate_not_error (s := s.served w none) same refused
        · simp at failed
        · split at failed
          · next refused =>
            simp only [Option.some.injEq, Except.error.injEq] at failed
            exact runOrQueue_not_domain refused failed
          · simp at failed
          · split at failed <;> simp at failed
      · cases failed
  | reportMoved w f e fault report _ _ =>
      simp only [act, report, runReported] at failed
      split at failed
      · simp at failed
      · split at failed
        · next refused =>
          simp only [Option.some.injEq, Except.error.injEq] at failed
          exact runOrQueue_not_domain refused failed
        · simp at failed
  | finish w t f rest fault _ _ _ _ cause => simp at cause

end Assertion

/-! ## The invariant -/

def OtherPc.Fits (s : DomainState) (w : WorkerId) : OtherPc → Prop
  | .loop p _ _ => s.poolDomain p = some (s.sys.workerDomain w)
  | .link p _ _ u | .post p _ _ u => s.poolDomain p = some (s.sys.workerDomain w) ∧
      s.sys.status u ≠ .unused ∧ s.sys.threadDomain u = s.sys.workerDomain w
  | _ => True

structure IsolationInv (domainOf : WorkerId → DomainId) (s : DomainState) : Prop where
  sys : SystemInv s.sys
  home : HomeInv domainOf s.sys
  own : ∀ w, s.other w = none → s.sys.workerDomain w = domainOf w
  inside : ∀ w prev pc, s.other w = some (prev, pc) →
    prev = domainOf w ∧ (∃ t, s.sys.mode w = .thread t) ∧ pc.Fits s w
  inserted : ∀ t, s.insertedIn t = s.sys.threadDomain t
  chain : ∀ t p, s.threadsChain t = some p →
    s.sys.status t ≠ .unused ∧ s.poolDomain p = some (s.sys.threadDomain t)
  fds : ∀ t, ∀ f ∈ s.sys.frames t, ∀ g, f.call = .fd g → s.fdDomain g = some (s.sys.threadDomain t)
section Invariant

variable {nrOfWorkers : DomainId → Int} {domainOf : WorkerId → DomainId} {s s' : DomainState}
  {a : Action} {sys : State} {w : WorkerId} {t u : Tid}

theorem IsolationInv.event_domain (inv : IsolationInv domainOf s) {e : EventId}
    (on : s.sys.el e ≠ none) : s.sys.domain e = s.sys.threadDomain (s.sys.tc e) := by
  rw [inv.home.event e (inv.sys.live_of_placed on), inv.sys.lists.owner e on]

theorem IsolationInv.waiter (inv : IsolationInv domainOf s) {g : FdId} {e : EventId} {d : DomainId}
    (on : s.sys.el e = some (.fd g)) (registered : s.fdDomain g = some d) : s.sys.domain e = d := by
  obtain ⟨f, member, rfl, home⟩ := inv.sys.frame_of_resting on rfl
  have call : f.call = .fd g := by
    cases call : f.call <;> simp_all [Call.home]
  rw [inv.home.event _ (inv.sys.live_of_placed (by simp [on]))]
  exact Option.some.inj ((inv.fds _ f member g call).symm.trans registered)

theorem LifeStep.newborn {s s' : State} (step : LifeStep s s' t) (before : s.status t = .unused) :
    (s'.status t).newborn = true := by
  cases step with
  | same status _ => simp [status, before, Status.newborn]
  | made _ after => simp [after, Status.newborn]
  | posted status _ _ => simp [before] at status
  | started status _ _ => simp [before] at status
  | unlinked status _ _ => simp [before] at status
  | settled status _ _ => simp [before] at status
  | announced status _ _ _ => simp [before] at status
  | exits status _ _ => simp [before] at status
  | freed status _ _ => simp [before] at status

structure StepKeeps (domainOf : WorkerId → DomainId) (s : DomainState) (v : WorkerId) (sys : State) :
    Prop where
  system : SystemInv sys
  home : HomeInv domainOf sys
  worker : ∀ w, v ≠ w → sys.workerDomain w = s.sys.workerDomain w
  fds : ∀ t, ∀ f ∈ sys.frames t, ∀ g, f.call = .fd g → s.fdDomain g = some (sys.threadDomain t)
  thread : ∀ t, s.sys.status t ≠ .unused →
    sys.status t ≠ .unused ∧ sys.threadDomain t = s.sys.threadDomain t
  mode : ∀ w, v ≠ w → sys.mode w = s.sys.mode w

private theorem IsolationInv.sys_step (inv : IsolationInv domainOf s)
    (stepped : s.sys.step a = some sys) (here : a.makes = false → s.other a.worker = none)
    (reports : s.reports a = true) (waits : s.waitsAtHome (.act a) = true) :
    StepKeeps domainOf s a.worker sys := by
  have life : ∀ t, LifeStep s.sys sys t := fun t => inv.sys.lifeStep stepped
  rcases State.step_act stepped with done | ⟨fault, _, rfl⟩
  · have effect := act_ok done
    obtain ⟨step, workers⟩ := effect.domainStep inv.sys.lists
    have sys' := inv.sys.step stepped
    constructor
    · exact sys'
    · apply inv.home.act inv.sys done (fun makes => inv.own _ (here makes))
      rintro v g em rfl e member
      have registered : s.fdDomain g = some (s.sys.workerDomain v) := by
        simpa [DomainState.reports] using reports
      rw [inv.waiter (inv.sys.lists.mem_events.mp member) registered]
      exact inv.own v (here rfl)
    · exact fun w _ => congrFun workers w
    · intro t
      have used : ∀ f ∈ sys.frames t, s.sys.status t ≠ .unused := by
        intro f member unused
        have newborn := (sys'.thread t).newborn ((life t).newborn unused)
        rw [show sys.frames t = [] from newborn.1] at member
        cases member
      have kinds := (State.act_callStep inv.sys done t).calls_all
        (fun call => ∀ g, call = .fd g → s.fdDomain g = some (s.sys.threadDomain t)) (inv.fds t) ?_
      · intro f member g call
        rw [step.thread_same (used f member)]
        exact kinds f member g call
      · rintro w op call rfl on begins g rfl
        cases op with
        | waitFd n g mask priority ctl =>
            cases begins
            simpa [DomainState.waitsAtHome, on] using waits
        | _ => cases begins
    · intro t used
      exact ⟨(life t).used used, step.thread_same used⟩
    · intro w other
      exact effect.mode_other inv.sys.lists other
  · constructor
    · exact inv.sys.fault _
    · exact { inv.home with }
    · exact fun w _ => rfl
    · exact inv.fds
    · exact fun t used => ⟨used, rfl⟩
    · exact fun w _ => rfl

/-- `WITH_OTHER_DOMAIN_BEGIN`, `WITH_OTHER_DOMAIN_END` and `worker_pthread` set the variable of
their worker only. -/
theorem IsolationInv.sets (inv : IsolationInv domainOf s) (v : WorkerId) (d : DomainId) :
    StepKeeps domainOf s v { s.sys with workerDomain := Function.update s.sys.workerDomain v d } where
  system := ⟨⟨inv.sys.thread, inv.sys.mutex, inv.sys.control, inv.sys.results⟩,
    { inv.sys.lists with }, inv.sys.report⟩
  home := { inv.home with }
  worker _ other := Function.update_of_ne (Ne.symm other) _ _
  fds := inv.fds
  thread _ used := ⟨used, rfl⟩
  mode _ _ := rfl

theorem IsolationInv.same (inv : IsolationInv domainOf s) (v : WorkerId) :
    StepKeeps domainOf s v s.sys :=
  ⟨inv.sys, inv.home, fun _ _ => rfl, inv.fds, fun _ used => ⟨used, rfl⟩, fun _ _ => rfl⟩

theorem OtherPc.Fits.mono {pc : OtherPc} (fits : pc.Fits s w)
    (pools : ∀ p d, s.poolDomain p = some d → s'.poolDomain p = some d)
    (worker : s'.sys.workerDomain w = s.sys.workerDomain w)
    (thread : ∀ t, s.sys.status t ≠ .unused →
      s'.sys.status t ≠ .unused ∧ s'.sys.threadDomain t = s.sys.threadDomain t) : pc.Fits s' w := by
  have linked : ∀ {p : PoolId} {u : Tid}, (s.poolDomain p = some (s.sys.workerDomain w) ∧
      s.sys.status u ≠ .unused ∧ s.sys.threadDomain u = s.sys.workerDomain w) →
      s'.poolDomain p = some (s'.sys.workerDomain w) ∧
        s'.sys.status u ≠ .unused ∧ s'.sys.threadDomain u = s'.sys.workerDomain w := by
    intro p u ⟨pool, used, domain⟩
    rw [worker]
    exact ⟨pools p _ pool, (thread u used).1, (thread u used).2.trans domain⟩
  cases pc with
  | loop p i n =>
      rw [OtherPc.Fits, worker]
      exact pools p _ fits
  | link p i n u => exact linked fits
  | post p i n u => exact linked fits
  | makeRef => trivial
  | postRef u => trivial
  | init d => trivial
  | launch d => trivial
  | finished => trivial

theorem IsolationInv.after {v : WorkerId} (inv : IsolationInv domainOf s)
    (keeps : StepKeeps domainOf s v s'.sys) (others : ∀ w, v ≠ w → s'.other w = s.other w)
    (own : s'.other v = none → s'.sys.workerDomain v = domainOf v)
    (inside : ∀ prev pc, s'.other v = some (prev, pc) →
      prev = domainOf v ∧ (∃ t, s'.sys.mode v = .thread t) ∧ pc.Fits s' v)
    (inserted : ∀ t, s'.insertedIn t = s'.sys.threadDomain t)
    (chain : ∀ t p, s'.threadsChain t = some p → s.threadsChain t = some p ∨
      s'.sys.status t ≠ .unused ∧ s'.poolDomain p = some (s'.sys.threadDomain t))
    (pools : ∀ p d, s.poolDomain p = some d → s'.poolDomain p = some d)
    (fds : ∀ g d, s.fdDomain g = some d → s'.fdDomain g = some d) : IsolationInv domainOf s' where
  sys := keeps.system
  home := keeps.home
  own w outside := by
    by_cases same : v = w
    · exact same ▸ own (same ▸ outside)
    · rw [keeps.worker w same]
      exact inv.own w (others w same ▸ outside)
  inside w prev pc at_ := by
    by_cases same : v = w
    · subst same
      exact inside prev pc at_
    · obtain ⟨rfl, ⟨t, on⟩, fits⟩ := inv.inside w prev pc (others w same ▸ at_)
      exact ⟨rfl, ⟨t, (keeps.mode w same).trans on⟩,
        fits.mono pools (keeps.worker w same) keeps.thread⟩
  inserted := inserted
  chain t p on := by
    rcases chain t p on with before | now
    · obtain ⟨used, domain⟩ := inv.chain t p before
      obtain ⟨used', same⟩ := keeps.thread t used
      exact ⟨used', same ▸ pools p _ domain⟩
    · exact now
  fds t f member g call := fds g _ (keeps.fds t f member g call)

end Invariant

/-! ## Preservation -/

section Preservation

variable {nrOfWorkers : DomainId → Int} {domainOf : WorkerId → DomainId} {s s' : DomainState}
  {a : Action} {sys : State} {w : WorkerId} {t u : Tid} {prev : DomainId} {pc : OtherPc}

private theorem SystemInv.step_workers {s s' : State} (inv : SystemInv s)
    (stepped : s.step a = some s') : s'.workerDomain = s.workerDomain := by
  obtain ⟨_, effect | ⟨fault, _, rfl⟩⟩ := State.step_cases stepped
  · exact (effect.domainStep inv.lists).2
  · rfl

private theorem DomainState.chainAfter_some {p : PoolId} (on : s.chainAfter a t = some p) :
    s.threadsChain t = some p := by
  have unlinked : ∀ {v : Tid}, Function.update s.threadsChain v none t = some p →
      s.threadsChain t = some p :=
    fun left => (Update.old_of_ne left (by simp)).2
  cases a with
  | user v op =>
      cases op with
      | dieUnlink =>
          cases mode : s.sys.mode v <;> simp only [DomainState.chainAfter, Action.worker, mode] at on <;>
            first | exact unlinked on | exact on
      | _ => exact on
  | _ => exact on

theorem IsolationInv.act (inv : IsolationInv domainOf s) (outside : s.other a.worker = none)
    (makes : a.makes = false) (reports : s.reports a = true) (waits : s.waitsAtHome (.act a) = true)
    (stepped : s.sys.step a = some sys) :
    IsolationInv domainOf { s with sys := sys, threadsChain := s.chainAfter a } := by
  have keeps := inv.sys_step stepped (fun _ => outside) reports waits
  refine inv.after keeps (fun _ _ => rfl) ?_ ?_ ?_ ?_ ?_ ?_
  · intro _
    rw [inv.sys.step_workers stepped]
    exact inv.own _ outside
  · intro prev pc at_
    rw [outside] at at_
    cases at_
  · intro t
    rw [(inv.sys.step_names (Action.creates_of_makes makes) stepped).domain t]
    exact inv.inserted t
  · exact fun t p on => .inl (s.chainAfter_some on)
  · exact fun p d pool => pool
  · exact fun g d registered => registered

/-- `_tc_thread_new` between `WITH_OTHER_DOMAIN_BEGIN` and `WITH_OTHER_DOMAIN_END`. -/
theorem IsolationInv.made {nr : Int} {affine : Bool} {after : OtherPc} (inv : IsolationInv domainOf s)
    (at_ : s.other w = some (prev, pc)) (new : s.tcThreadNew w u nr affine = some s')
    (fits : s'.poolDomain = s.poolDomain → s'.sys.workerDomain = s.sys.workerDomain →
      s'.sys.status u ≠ .unused → s'.sys.threadDomain u = s.sys.workerDomain w → after.Fits s' w) :
    IsolationInv domainOf (s'.setPc w prev after) := by
  obtain ⟨sys, stepped, rfl⟩ := Option.map_eq_some_iff.mp new
  have keeps : StepKeeps domainOf s w sys := inv.sys_step stepped (fun makes => nomatch makes) rfl rfl
  obtain ⟨_, rfl⟩ := inv.sys.step_threadNew stepped
  obtain ⟨rfl, ⟨t, on⟩, _⟩ := inv.inside w prev pc at_
  have fitting := fits rfl rfl (by simp [State.tcThreadNew]) (by simp [State.tcThreadNew])
  refine inv.after keeps ?_ ?_ ?_ ?_ ?_ ?_ ?_
  · exact fun v other => Function.update_of_ne (Ne.symm other) _ _
  · intro none
    simp [DomainState.setPc] at none
  · intro prev pc same
    obtain ⟨rfl, rfl⟩ : domainOf w = prev ∧ after = pc := by
      simpa [DomainState.setPc] using same
    exact ⟨rfl, ⟨t, on⟩, fitting.mono (fun _ _ pool => pool) rfl fun _ used => ⟨used, rfl⟩⟩
  · intro v
    by_cases same : v = u
    · simp [DomainState.setPc, State.tcThreadNew, same]
    · simpa [DomainState.setPc, State.tcThreadNew, tcEventInit, same] using inv.inserted v
  · exact fun v p on => .inl on
  · exact fun p d pool => pool
  · exact fun g d registered => registered

theorem IsolationInv.posted {after : OtherPc} (inv : IsolationInv domainOf s)
    (at_ : s.other w = some (prev, pc)) (stepped : s.sys.step (.user w (.threadPost u)) = some sys)
    (fits : pc.Fits s w → after.Fits s w) :
    IsolationInv domainOf ({ s with sys := sys }.setPc w prev after) := by
  have keeps : StepKeeps domainOf s w sys := inv.sys_step stepped (fun makes => nomatch makes) rfl rfl
  obtain ⟨rfl, ⟨t, on⟩, here⟩ := inv.inside w prev pc at_
  have mode : sys.mode w = .thread t := by
    rcases State.step_act stepped with done | ⟨fault, _, rfl⟩
    · cases act_ok done with
      | user w v op _ _ _ effect =>
          cases effect with
          | threadPost u s₁ _ added =>
              obtain ⟨_, rfl⟩ := addEventCr_ok added
              exact on
    · exact on
  refine inv.after keeps ?_ ?_ ?_ ?_ ?_ ?_ ?_
  · exact fun v other => Function.update_of_ne (Ne.symm other) _ _
  · intro none
    simp [DomainState.setPc] at none
  · intro prev pc same
    obtain ⟨rfl, rfl⟩ : domainOf w = prev ∧ after = pc := by
      simpa [DomainState.setPc] using same
    exact ⟨rfl, ⟨t, mode⟩, (fits here).mono (fun _ _ pool => pool)
      (congrFun (inv.sys.step_workers stepped) w) keeps.thread⟩
  · intro v
    exact (inv.inserted v).trans ((inv.sys.step_names rfl stepped).domain v).symm
  · exact fun v p on => .inl on
  · exact fun p d pool => pool
  · exact fun g d registered => registered

private theorem DomainState.calls_outside (calls : s.calls w = true) :
    s.other w = none ∧ ∃ t, s.sys.mode w = .thread t := by
  simp only [DomainState.calls, Bool.and_eq_true, decide_eq_true_eq] at calls
  refine ⟨calls.1.2, ?_⟩
  cases mode : s.sys.mode w with
  | thread t => exact ⟨t, rfl⟩
  | _ => simp [mode] at calls

theorem IsolationInv.begins {d : DomainId} {poolDomain : PoolId → Option DomainId}
    (inv : IsolationInv domainOf s) (calls : s.calls w = true)
    (pools : ∀ p d, s.poolDomain p = some d → poolDomain p = some d)
    (fits : pc.Fits { s.withOtherDomainBegin w d pc with poolDomain := poolDomain } w) :
    IsolationInv domainOf { s.withOtherDomainBegin w d pc with poolDomain := poolDomain } := by
  obtain ⟨outside, t, on⟩ := DomainState.calls_outside calls
  refine inv.after (inv.sets w d) ?_ ?_ ?_ ?_ ?_ ?_ ?_
  · exact fun v other => Function.update_of_ne (Ne.symm other) _ _
  · intro none
    simp [DomainState.withOtherDomainBegin] at none
  · intro prev after same
    obtain ⟨rfl, rfl⟩ : s.sys.workerDomain w = prev ∧ pc = after := by
      simpa [DomainState.withOtherDomainBegin] using same
    exact ⟨inv.own w outside, ⟨t, on⟩, fits⟩
  · exact inv.inserted
  · exact fun v p on => .inl on
  · exact pools
  · exact fun g d registered => registered

theorem IsolationInv.ends {launched : DomainId → Bool} (inv : IsolationInv domainOf s)
    (at_ : s.other w = some (prev, pc)) :
    IsolationInv domainOf { s.withOtherDomainEnd w prev with launched := launched } := by
  obtain ⟨rfl, _, _⟩ := inv.inside w prev pc at_
  refine inv.after (inv.sets w (domainOf w)) ?_ ?_ ?_ ?_ ?_ ?_ ?_
  · exact fun v other => Function.update_of_ne (Ne.symm other) _ _
  · exact fun _ => Function.update_self ..
  · intro prev after same
    simp [DomainState.withOtherDomainEnd] at same
  · exact inv.inserted
  · exact fun v p on => .inl on
  · exact fun p d pool => pool
  · exact fun g d registered => registered

theorem IsolationInv.goes {after : OtherPc} {chain : Tid → Option PoolId} {fdDomain : FdId → Option DomainId}
    (inv : IsolationInv domainOf s) (at_ : s.other w = some (prev, pc))
    (fits : pc.Fits s w → after.Fits s w)
    (linked : ∀ t p, chain t = some p → s.threadsChain t = some p ∨
      s.sys.status t ≠ .unused ∧ s.poolDomain p = some (s.sys.threadDomain t))
    (fds : ∀ g d, s.fdDomain g = some d → fdDomain g = some d) :
    IsolationInv domainOf
      { s.setPc w prev after with threadsChain := chain, fdDomain := fdDomain } := by
  obtain ⟨rfl, on, here⟩ := inv.inside w prev pc at_
  refine inv.after (inv.same w) ?_ ?_ ?_ ?_ ?_ ?_ ?_
  · exact fun v other => Function.update_of_ne (Ne.symm other) _ _
  · intro none
    simp [DomainState.setPc] at none
  · intro prev pc same
    obtain ⟨rfl, rfl⟩ : domainOf w = prev ∧ after = pc := by
      simpa [DomainState.setPc] using same
    exact ⟨rfl, on, (fits here).mono (fun _ _ pool => pool) rfl fun _ used => ⟨used, rfl⟩⟩
  · exact inv.inserted
  · exact linked
  · exact fun p d pool => pool
  · exact fds

private theorem fdDomain_kept {fdDomain : FdId → Option DomainId} {f : FdId} {d : DomainId}
    (free : fdDomain f = none) (g : FdId) (e : DomainId) (registered : fdDomain g = some e) :
    Function.update fdDomain f (some d) g = some e := by
  rw [Function.update_of_ne, registered]
  rintro rfl
  simp [free] at registered

private theorem IsolationInv.registers {fdDomain : FdId → Option DomainId}
    {launched : DomainId → Bool} (inv : IsolationInv domainOf s)
    (fds : ∀ g d, s.fdDomain g = some d → fdDomain g = some d) :
    IsolationInv domainOf { s with fdDomain := fdDomain, launched := launched } :=
  { inv with
    inside := fun w prev pc at_ => by
      obtain ⟨same, on, fits⟩ := inv.inside w prev pc at_
      exact ⟨same, on, fits.mono (fun _ _ pool => pool) rfl fun _ used => ⟨used, rfl⟩⟩
    fds := fun t f member g call => fds g _ (inv.fds t f member g call) }

theorem IsolationInv.starts {started : WorkerId → Bool} (inv : IsolationInv domainOf s) :
    IsolationInv domainOf { s with
      sys := { s.sys with workerDomain := Function.update s.sys.workerDomain w (domainOf w) }
      other := Function.update s.other w none
      started := started } := by
  refine inv.after (inv.sets w (domainOf w)) ?_ ?_ ?_ inv.inserted ?_ ?_ ?_
  · exact fun v other => Function.update_of_ne (Ne.symm other) _ _
  · exact fun _ => Function.update_self ..
  · intro prev pc at_
    simp at at_
  · exact fun v p on => .inl on
  · exact fun p d pool => pool
  · exact fun g d registered => registered

theorem IsolationInv.step {l : DomainAction} (inv : IsolationInv domainOf s)
    (waits : s.waitsAtHome l = true) (stepped : s.step nrOfWorkers domainOf l = some s') :
    IsolationInv domainOf s' := by
  cases l with
  | act a =>
      simp only [DomainState.step] at stepped
      split at stepped
      · next allowed =>
        obtain ⟨_, outside, makes, reports⟩ := allowed
        obtain ⟨sys, done, rfl⟩ := Option.map_eq_some_iff.mp stepped
        exact inv.act outside makes reports waits done
      · cases stepped
  | tcRun d timer =>
      simp only [DomainState.step] at stepped
      split at stepped
      · next allowed =>
        cases stepped
        exact inv.registers (fdDomain_kept allowed.2.2)
      · cases stepped
  | start w =>
      simp only [DomainState.step] at stepped
      split at stepped
      · cases stepped
        exact inv.starts
      · cases stepped
  | registerFd w f =>
      simp only [DomainState.step] at stepped
      split at stepped
      · next allowed =>
        cases stepped
        exact inv.registers (fdDomain_kept allowed.2)
      · cases stepped
  | newRefInDomain w d =>
      simp only [DomainState.step] at stepped
      split at stepped
      · next calls =>
        cases stepped
        exact inv.begins calls (fun _ _ pool => pool) trivial
      · cases stepped
  | poolNewInDomain w p excess d =>
      simp only [DomainState.step] at stepped
      split at stepped
      · next allowed =>
        cases stepped
        refine inv.begins allowed.1 (fun q e pool => ?_) ?_
        · rw [Function.update_of_ne, pool]
          rintro rfl
          simp [allowed.2] at pool
        · simp [OtherPc.Fits, DomainState.withOtherDomainBegin]
      · cases stepped
  | newDomain w d =>
      simp only [DomainState.step] at stepped
      split at stepped
      · next allowed =>
        cases stepped
        exact inv.begins allowed.1 (fun _ _ pool => pool) trivial
      · cases stepped
  | make w u =>
      simp only [DomainState.step] at stepped
      split at stepped
      · next prev u at_ =>
        obtain ⟨s₁, new, rfl⟩ := Option.map_eq_some_iff.mp stepped
        exact inv.made at_ new fun _ _ _ _ => trivial
      · next prev at_ =>
        cases stepped
        exact inv.goes at_ (fun _ => trivial) (fun _ _ on => .inl on) fun _ _ registered => registered
      · next prev p i n u at_ =>
        split at stepped
        · obtain ⟨s₁, new, rfl⟩ := Option.map_eq_some_iff.mp stepped
          refine inv.made at_ new fun pools workers used domain => ?_
          have pool : s.poolDomain p = some (s.sys.workerDomain w) := (inv.inside w _ _ at_).2.2
          rw [OtherPc.Fits, pools, workers]
          exact ⟨pool, used, domain⟩
        · cases stepped
      · next prev p i n at_ =>
        split at stepped
        · cases stepped
          exact inv.goes at_ (fun fits => fits) (fun _ _ on => .inl on) fun _ _ registered => registered
        · cases stepped
      · cases stepped
  | link w =>
      simp only [DomainState.step] at stepped
      split at stepped
      · next prev p i n u at_ =>
        cases stepped
        obtain ⟨_, _, pool, used, domain⟩ := inv.inside w _ _ at_
        refine inv.goes at_ (fun fits => fits) (fun v q on => ?_) fun _ _ registered => registered
        by_cases same : v = u
        · subst same
          obtain rfl : p = q := by simpa using on
          exact .inr ⟨used, domain ▸ pool⟩
        · exact .inl (by simpa [same] using on)
      · cases stepped
  | post w =>
      simp only [DomainState.step] at stepped
      split at stepped
      · next prev u at_ =>
        obtain ⟨sys, done, rfl⟩ := Option.map_eq_some_iff.mp stepped
        exact inv.posted at_ done fun _ => trivial
      · next prev p i n u at_ =>
        obtain ⟨sys, done, rfl⟩ := Option.map_eq_some_iff.mp stepped
        exact inv.posted at_ done fun fits => fits.1
      · cases stepped
  | init w timer =>
      simp only [DomainState.step] at stepped
      split at stepped
      · next prev d at_ =>
        split at stepped
        · next free =>
          cases stepped
          exact inv.goes at_ (fun _ => trivial) (fun _ _ on => .inl on) (fdDomain_kept free)
        · cases stepped
      · cases stepped
  | finish w =>
      simp only [DomainState.step] at stepped
      split at stepped
      · next prev at_ =>
        cases stepped
        exact inv.ends at_
      · next prev p i n at_ =>
        split at stepped
        · cases stepped
        · cases stepped
          exact inv.ends at_
      · next prev d at_ =>
        cases stepped
        exact inv.ends at_
      · cases stepped

theorem IsolationInv.initial (workers : Nat) (domainOf : WorkerId → DomainId) :
    IsolationInv domainOf (.initial workers domainOf) where
  sys := .initial workers domainOf
  home := (DomainInv.initial workers domainOf).homeInv
  own _ _ := rfl
  inside _ _ _ at_ := nomatch at_
  inserted _ := rfl
  chain _ _ on := nomatch on
  fds _ _ member := nomatch member

theorem IsolationInv.run {workers : Nat} (reached : DomainReachable nrOfWorkers workers domainOf s) :
    IsolationInv domainOf s :=
  Transition.Run.invariant reached (IsolationInv domainOf) (.initial workers domainOf)
    fun inv waits stepped => inv.step waits stepped

end Preservation

/-! ## Results -/

/-- If fds are waited on only by threads of the domain that has registered them: every event on a
list is of the domain of its thread, a worker switches to threads of its own domain only, and
`tc_this_pthread_domain` is that domain, except while the worker executes one of the functions that
make threads or domains, in which no thread sleeps. So the assertion in `_run_immediate` holds, and
`tc_die` takes a thread off the lists it is on with the lock of their domain held. -/
theorem domain_isolation {nrOfWorkers : DomainId → Int} {workers : Nat}
    {domainOf : WorkerId → DomainId} {s : DomainState}
    (reached : DomainReachable nrOfWorkers workers domainOf s) :
    (∀ e, s.sys.el e ≠ none → s.sys.domain e = s.sys.threadDomain (s.sys.tc e)) ∧
    (∀ w t, s.sys.mode w = .enter t ∨ s.sys.mode w = .thread t →
      s.sys.threadDomain t = domainOf w) ∧
    (∀ w, s.other w = none → s.sys.workerDomain w = domainOf w) ∧
    (∀ w, s.other w ≠ none → ∃ t, s.sys.mode w = .thread t) ∧
    (∀ a, s.sys.act a ≠ some (.error .assertDomain)) ∧
    ∀ w s', s.step nrOfWorkers domainOf (.act (.user w .dieUnlink)) = some s' →
      ∃ t, s.sys.mode w = .thread t ∧ s.insertedIn t = s.sys.workerDomain w ∧
        ∀ p, s.threadsChain t = some p → s.poolDomain p = some (s.sys.workerDomain w) := by
  have inv := IsolationInv.run reached
  refine ⟨fun e on => inv.event_domain on, inv.home.home, inv.own, ?_, ?_, ?_⟩
  · intro w inside
    obtain ⟨⟨prev, pc⟩, at_⟩ := Option.ne_none_iff_exists'.mp inside
    exact (inv.inside w prev pc at_).2.1
  · intro a
    apply act_not_domain inv.sys
    intro e member
    exact inv.event_domain (by simp [inv.sys.lists.mem_events.mp member])
  · intro w s' stepped
    simp only [DomainState.step] at stepped
    split at stepped
    · next allowed =>
      obtain ⟨sys, done, _⟩ := Option.map_eq_some_iff.mp stepped
      obtain ⟨t, on⟩ : ∃ t, s.sys.mode w = .thread t := by
        cases mode : s.sys.mode w with
        | thread t => exact ⟨t, rfl⟩
        | _ => simp [State.step, State.act, mode] at done
      have domain : s.sys.threadDomain t = s.sys.workerDomain w :=
        (inv.home.home w t (.inr on)).trans (inv.own w allowed.2.1).symm
      refine ⟨t, on, (inv.inserted t).trans domain, fun p chain => ?_⟩
      rw [← domain]
      exact (inv.chain t p chain).2
    · cases stepped

/-- Worker 1 of domain 1 executes thread 2, which main thread 0 of domain 0 has made for a pool of
domain 1, and which waits for an fd of its domain. -/
def DomainState.Apart (s : DomainState) : Bool :=
  decide (s.sys.mode 1 = .thread 2 ∧ s.threadsChain 2 = some 0 ∧ s.poolDomain 0 = some 1 ∧
    s.sys.el (.auto 2 0) = some (.fd 5) ∧ s.fdDomain 5 = some 1 ∧ s.sys.workerDomain 0 = 0)

set_option maxRecDepth 20000 in
theorem domain_isolation_apart : ∃ s : DomainState, DomainReachable (fun _ => 1) 2 (fun w => w) s ∧
    s.Apart = true ∧ s.sys.domain (.auto 2 0) = s.sys.threadDomain (s.sys.tc (.auto 2 0)) := by
  obtain ⟨s, run, shown⟩ := Transition.exists_run
    (Transition.guarded (DomainState.step (fun _ => 1) fun w => w) DomainState.waitsAtHome)
    (.initial 2 fun w => w)
    [.tcRun 0 0, .start 0, .newDomain 0 1, .init 0 1, .finish 0, .start 1, .poolNewInDomain 0 0 0 1,
      .make 0 (some 2), .link 0, .post 0, .finish 0, .act (.user 1 (.yield 0)), .act (.advance 1),
      .act (.advance 1), .act (.leave 1), .act (.runImmediate 1 .any), .act (.enter 1),
      .registerFd 1 5, .act (.user 1 (.waitFd 0 5 EPOLLIN false true))]
    DomainState.Apart (by decide)
  have reached : DomainReachable (fun _ => 1) 2 (fun w => w) s := run.of_guarded
  refine ⟨s, reached, shown, (domain_isolation reached).1 _ ?_⟩
  simp only [DomainState.Apart, decide_eq_true_eq] at shown
  simp [shown.2.2.2.1]

end Libtcr
