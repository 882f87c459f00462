import Libtcr.ExitProperties
import Libtcr.OwnerProperties
import Libtcr.CoroutineInvariant
import Libtcr.FinishWaitProperties

/-! No thread gets lost. Whoever is not asleep on a list is with a worker, or has an event on
`common.immediate`; so when every worker is in the scheduler and `common.immediate` is empty, the
threads wait for the application, for a thread that has not exited, or for the holder of a mutex. -/

set_option autoImplicit false

namespace Libtcr

open State

/-! ## Who goes on with a thread -/

/-- A thread that has been started, runs or exits is in somebody's hands. -/
structure Custody (t : Tid) (v : View) : Prop where
  posted : v.status = .posted → v.running = false → v.el (.self t) = some .immediate
  exiting : v.status = .exiting → v.el (.self t) = some .immediate ∨ ∃ w, v.place w = .freeing
  running : v.running = true → v.frames ≠ [] →
    ∃ w x, v.place w = .entering x ∨ v.place w = .on x
  ended : v.status = .exiting ∨ v.status = .dead → v.frames = []

private theorem Executed.status_is {t : Tid} {v : View} {w : WorkerId} {x : Option EventId}
    {k : Status} (act : Executed t v w x) (is : v.status = k) : k.executable = true :=
  is ▸ act.status

namespace Custody

variable {t : Tid} {v v' : View}

theorem keep (inv : Custody t v) (status : v'.status = v.status) (running : v'.running = v.running)
    (frames : v'.frames = v.frames) (place : v'.place = v.place)
    (self : v.el (.self t) = some .immediate → v'.el (.self t) = some .immediate) :
    Custody t v' where
  posted is idle := self (inv.posted (status ▸ is) (running ▸ idle))
  exiting is := by
    rw [place]
    exact (inv.exiting (status ▸ is)).imp_left self
  running runs calls := by
    rw [place]
    exact inv.running (running ▸ runs) (frames ▸ calls)
  ended is := frames.trans (inv.ended (status ▸ is))

theorem on {w : WorkerId} {x : Option EventId} (inv : ThreadInv t v) (on : v.place w = .on x) :
    Custody t v := by
  have executed : ∀ {k : Status}, v.status = k → k.executable = true := (inv.executed on).status_is
  refine ⟨fun is => ?_, fun is => ?_, fun _ _ => ⟨w, x, .inr on⟩, fun is => ?_⟩
  · cases executed is
  · cases executed is
  · rcases is with is | is <;> cases executed is

theorem entering {w : WorkerId} {x : Option EventId} (inv : ThreadInv t v)
    (entering : v.place w = .entering x) : Custody t v := by
  have runs := inv.occupied w x (.inl entering)
  refine ⟨fun _ idle => ?_, fun is => ?_, fun _ _ => ⟨w, x, .inl entering⟩, fun is => ?_⟩
  · simp [runs] at idle
  · rcases inv.entering w x entering with ⟨posted, _⟩ | ⟨status, _⟩
    · simp [is] at posted
    · simp [is, Status.executable] at status
  · rcases inv.entering w x entering with ⟨_, empty⟩ | ⟨status, _⟩
    · exact empty
    · rcases is with is | is <;> simp [is, Status.executable] at status

end Custody

/-- The event that `run_or_queue` puts on the pending list is not the thread's own one. -/
theorem ThreadInv.queued_ne_self {t : Tid} {v : View} (inv : ThreadInv t v) {e : EventId}
    {k : EventList} (on : v.el e = some k) (stays : v.flags e ≠ .exiting)
    (refused : v.running = true ∨ (v.flags e ≠ .signal ∧ v.stack ≠ none ∧ v.stack ≠ some e)) :
    e ≠ .self t := by
  rintro rfl
  rcases (inv.selfEvent k on).2 with ⟨posted, _, idle⟩ | ⟨_, exiting, _⟩
  · have newborn := inv.newborn (by rw [posted]; rfl)
    simp [idle, newborn.2.1] at refused
  · exact stays exiting

private theorem ViewStep.custody {t : Tid} {v v' : View} {kind : Kind} (step : ViewStep t v kind v')
    (thread : ThreadInv t v) (inv : Custody t v) : Custody t v' := by
  have after := step.threadInv thread
  cases step with
  | wake woken queued =>
      refine inv.keep rfl rfl rfl rfl fun self => ?_
      simp only [self, ite_self]
  | fire g fires _ =>
      refine inv.keep rfl rfl rfl rfl fun self => ?_
      simp only [self, ite_self]
  | grant e m queued _ =>
      refine inv.keep rfl rfl rfl rfl fun self => ?_
      by_cases same : EventId.self t = e <;> simp [same, self]
  | share m next _ _ _ => exact inv.keep rfl rfl rfl rfl id
  | cancel n _ => exact inv.keep rfl rfl rfl rfl fun self => by simpa using self
  | born unused =>
      have newborn := thread.newborn (by rw [unused]; rfl)
      have idle := thread.unborn (.inl unused)
      exact ⟨fun is => by simp at is, fun is => by simp at is, fun runs => by simp [idle] at runs,
        fun _ => newborn.1⟩
  | post created _ =>
      have newborn := thread.newborn (by rw [created]; rfl)
      exact ⟨fun _ _ => by simp, fun is => by simp at is, fun _ calls => absurd newborn.1 calls,
        fun _ => newborn.1⟩
  | queue e k _ on _ stays refused =>
      have other := thread.queued_ne_self on stays refused
      exact inv.keep rfl rfl rfl rfl fun self => by simpa [other.symm] using self
  | selectSignal w e k _ _ _ _ _ _ => exact .entering after (Function.update_self w _ _)
  | selectEvent w e k _ _ _ _ _ _ _ _ => exact .entering after (Function.update_self w _ _)
  | reap w e owned on exiting _ =>
      obtain rfl : e = .self t := by
        cases e with
        | auto u n =>
            obtain rfl : u = t := owned
            exact absurd exiting (thread.flagsAuto n).2
        | sub u n =>
            obtain rfl : u = t := owned
            simp [thread.flagsSub n] at exiting
        | self u => exact congrArg EventId.self owned
      have status : v.status = .exiting := by
        rcases (thread.selfEvent _ on).2 with ⟨_, ready, _⟩ | ⟨status, _⟩
        · simp [ready] at exiting
        · exact status
      have empty := inv.ended (.inl status)
      exact ⟨fun is => by simp [status] at is, fun _ => .inr ⟨w, by simp⟩,
        fun _ calls => absurd empty calls, fun _ => empty⟩
  | freed w freeing =>
      have empty := inv.ended (.inl (thread.freeing w freeing).1)
      exact ⟨fun is => by simp at is, fun is => by simp at is, fun _ calls => absurd empty calls,
        fun _ => empty⟩
  | sleep w x f rest top pc _ =>
      have executed : ∀ {k : Status}, v.status = k → k.executable = true :=
        (thread.executed top.1).status_is
      refine ⟨fun is => ?_, fun is => ?_, fun runs => by simp at runs, fun is => ?_⟩
      · cases executed is
      · cases executed is
      · rcases is with is | is <;> cases executed is
  | postExit w x _ empty _ _ =>
      exact ⟨fun is => by simp at is, fun _ => .inl (by simp), fun _ calls => absurd empty calls,
        fun _ => empty⟩
  | exitMain w x on empty =>
      have executed : ∀ {k : Status}, v.status = k → k.executable = true :=
        (thread.executed on).status_is
      refine ⟨fun is => ?_, fun is => ?_, fun _ calls => absurd empty calls, fun _ => empty⟩
      · cases executed is
      · cases executed is
  | enter w x f rest _ _ => exact .on after (Function.update_self w _ _)
  | start w x _ _ _ => exact .on after (Function.update_self w _ _)
  | begin w x n call pc user _ _ => exact .on after user.1
  | enqueue w x f rest flag top _ _ _ => exact .on after top.1
  | push w x f rest top _ => exact .on after top.1
  | prepare w x f rest _ _ _ => exact .on after (Function.update_self w _ _)
  | turn w x f rest pc top _ => exact .on after top.1
  | acquire w x f rest m top _ _ _ => exact .on after top.1
  | refused w x f rest rv top _ _ => exact .on after top.1
  | returnPlain w x f rest rv top _ _ _ => exact .on after top.1
  | returnLocked w x f rest m top _ _ _ => exact .on after top.1
  | resumeEvent w x f rest e _ _ _ _ _ _ => exact .on after (Function.update_self w _ _)
  | resumeSignal w x f rest e _ _ _ _ _ => exact .on after (Function.update_self w _ _)
  | finishExpected w x f rest _ _ _ _ _ => exact .on after (Function.update_self w _ _)
  | finishRequeue w e f rest _ _ _ _ _ _ _ => exact .on after (Function.update_self w _ _)
  | finishIgnored w e f rest top _ _ _ _ _ _ _ => exact .on after top.1
  | finishIntr w e f rest top _ _ _ _ _ _ => exact .on after top.1
  | leafDone w f rest rv _ _ _ _ => exact .on after (Function.update_self w _ _)
  | leafIntr w e next f rest _ _ _ _ _ _ => exact .on after (Function.update_self w _ _)
  | subscribe w x n g _ _ => exact .on after (Function.update_self w _ _)
  | trylock w x m user _ => exact .on after user.1
  | unlock w x m next user _ _ _ => exact .on after user.1
  | dying w x status on _ _ => exact .on after on

theorem Custody.initial (workers : Nat) (domainOf : WorkerId → DomainId) (t : Tid) :
    Custody t ((State.initial workers domainOf).view t) := by
  refine ⟨fun is => ?_, fun is => ?_, fun _ calls => absurd rfl calls, fun _ => rfl⟩ <;>
    by_cases main : t < workers <;> simp [State.view, State.initial, main] at is

/-! ## Who executes a thread -/

section Owners

variable {s s' : State} {w v : WorkerId} {t u : Tid} {a : Action}

theorem State.UserEffect.mode {op : UserOp} (effect : UserEffect s w u op s') :
    s'.mode = s.mode ∨ op = .exitMain ∧ s'.mode = Function.update s.mode w .off := by
  cases effect with
  | wakeupOne q => exact .inl (tcWaitqWakeupOne_mode s (.user q))
  | subscribe g n _ _ subscribed =>
      obtain ⟨_, rfl⟩ := tcSignalSubscribe_ok subscribed
      exact .inl rfl
  | unlock m _ => exact .inl (tcWaitqWakeupOne_mode s (.mutex m))
  | threadPost u s₁ _ added =>
      obtain ⟨_, rfl⟩ := addEventCr_ok added
      exact .inl rfl
  | yield n s₁ _ added =>
      obtain ⟨_, rfl⟩ := addEventCr_ok added
      exact .inl rfl
  | waitFdFailed n g mask priority ctl s₁ _ refused => cases refused <;> exact .inl rfl
  | waitFd n g mask priority ctl s₁ _ added =>
      cases added
      exact .inl rfl
  | waitqWait n q s₁ _ prepared =>
      obtain ⟨_, rfl⟩ := tcWaitqPrepareToWait_ok prepared
      exact .inl rfl
  | threadWait n u d id s₁ _ prepared =>
      obtain ⟨_, rfl⟩ := tcWaitqPrepareToWait_ok prepared
      exact .inl rfl
  | exitMain _ => exact .inr ⟨rfl, rfl⟩
  | _ => exact .inl rfl

theorem State.Owns.update {m : Mode} (owns : s.Owns v t)
    (mode : s'.mode = Function.update s.mode w m) (other : ¬ s.Owns w t) : s'.Owns v t := by
  have apart : v ≠ w := fun same => other (same ▸ owns)
  rwa [Owns, mode, Function.update_of_ne apart]

theorem State.Effect.stays_off (effect : s.Effect a s') (inv : ListInv s)
    (off : s.mode v = .off) : s'.mode v = .off := by
  have apart {w : WorkerId} {m : Mode} (mode : s.mode w = m) (busy : m ≠ .off) : v ≠ w :=
    fun same => busy (mode.symm.trans (same ▸ off))
  cases switches : a.switches with
  | false =>
      have moves := effect.modeMove inv switches v
      generalize s'.mode v = after at moves ⊢
      rw [off] at moves
      cases moves
      rfl
  | true =>
      cases effect with
      | entered w u enter => exact (Function.update_of_ne (apart enter (by simp)) _ _).trans off
      | left w u leave => exact (Function.update_of_ne (apart leave (by simp)) _ _).trans off
      | freed w u free => exact (Function.update_of_ne (apart free (by simp)) _ _).trans off
      | _ => cases switches

inductive OwnerStep (s s' : State) (t : Tid) (a : Action) : Prop where
  | same (running : s'.running t = s.running t) (owns : ∀ v, s.Owns v t → s'.Owns v t)
  | owned (v : WorkerId) (owns : s'.Owns v t)
  | slept (running : s'.running t = false)
  | exits (status : s'.status t = .exiting)
  | left (v : WorkerId) (on : s.mode v = .thread t) (action : a = .user v .exitMain)

theorem OwnerStep.unchanged (running : s'.running = s.running) (mode : s'.mode = s.mode) :
    OwnerStep s s' t a :=
  .same (congrFun running t) fun v owns => by rwa [Owns, mode]

theorem OwnerStep.away {m : Mode} (running : s'.running = s.running)
    (mode : s'.mode = Function.update s.mode w m) (other : ¬ s.Owns w t) : OwnerStep s s' t a :=
  .same (congrFun running t) fun _ owns => owns.update mode other

theorem OwnerStep.selected (running : s'.running = Function.update s.running u true)
    (mode : s'.mode = Function.update s.mode w (.enter u)) (other : ¬ s.Owns w t) :
    OwnerStep s s' t a := by
  by_cases same : t = u
  · exact .owned w (.inl (by rw [mode, Function.update_self, same]))
  · exact .same (by rw [running, Function.update_of_ne same]) fun _ owns => owns.update mode other

private theorem not_owns_of_mode {m : Mode} (mode : s.mode w = m) (enter : m ≠ .enter t)
    (thread : m ≠ .thread t) : ¬ s.Owns w t := by
  rintro (owns | owns)
  · exact enter (mode.symm.trans owns)
  · exact thread (mode.symm.trans owns)

private theorem not_owns_other (on : s.mode w = .thread u) (other : t ≠ u) : ¬ s.Owns w t :=
  not_owns_of_mode on (by simp) (by simpa using Ne.symm other)

private theorem State.FrameEffect.ownerStep {f : Frame} (effect : FrameEffect s w u f s')
    (on : s.mode w = .thread u) : OwnerStep s s' t a := by
  rcases effect.flags t with ⟨flags, mode⟩ | ⟨_, running, mode⟩
  · exact .same flags.running fun v owns => by rwa [Owns, mode]
  · by_cases same : t = u
    · exact .slept (by rw [running, same, Function.update_self])
    · exact .same (by rw [running, Function.update_of_ne same])
        fun _ owns => owns.update mode (not_owns_other on same)

private theorem State.DieEffect.ownerStep (effect : DieEffect s w u s')
    (on : s.mode w = .thread u) :
    OwnerStep s s' t a := by
  cases effect with
  | settled _ => exact .unchanged rfl rfl
  | announced _ => exact .unchanged rfl rfl
  | exits s₁ _ added =>
      obtain ⟨_, rfl⟩ := addEventCr_ok added
      by_cases same : t = u
      · exact .exits (by simp [iwiImmediate, same])
      · exact .away rfl rfl (not_owns_other on same)

private theorem State.Effect.ownerStep (effect : s.Effect a s') (inv : SystemInv s) :
    OwnerStep s s' t a := by
  cases effect with
  | searched w scan _ => exact .unchanged rfl rfl
  | queued w scan x s₁ _ _ ran =>
      exact .unchanged (runOrQueue_running ran (.inl rfl) :) (runOrQueue_mode ran :)
  | reaped w scan x u s₁ sched _ exiting ran =>
      exact .away (runOrQueue_running ran (.inr exiting) :)
        (congrArg (Function.update · w (.free u)) (runOrQueue_mode ran))
        (not_owns_of_mode sched (by simp) (by simp))
  | chosen w scan x u s₁ immediateFd sched _ stays ran =>
      exact .selected (runOrQueue_selects ran stays).2
        (congrArg (Function.update · w (.enter u)) (runOrQueue_mode ran))
        (not_owns_of_mode sched (by simp) (by simp))
  | reported w g em sched _ =>
      obtain ⟨moved, choice, handled⟩ :=
        handleReport_spec (fun f => inv.lists.lists.nodup (.fd f)) w g em
      obtain ⟨errHup, fdEpEvents, equal⟩ := handled.effect
      rw [equal]
      cases choice with
      | none => exact .unchanged rfl rfl
      | some e => exact .away rfl rfl (not_owns_of_mode sched (by simp) (by simp))
  | reportQueued w g x s₁ report _ ran =>
      exact .away (runOrQueue_running ran (.inl rfl) :)
        (congrArg (Function.update · w .sched) (runOrQueue_mode ran))
        (not_owns_of_mode report (by simp) (by simp))
  | reportChosen w g x u s₁ report _ ran =>
      exact .selected (runOrQueue_selects ran (inv.report_stays report)).2
        (congrArg (Function.update · w (.enter u)) (runOrQueue_mode ran))
        (not_owns_of_mode report (by simp) (by simp))
  | entered w u enter =>
      by_cases same : t = u
      · exact .owned w (.inr (by simp [enterThread, same]))
      · exact .away rfl rfl (not_owns_of_mode enter (by simpa using Ne.symm same) (by simp))
  | left w u leave => exact .away rfl rfl (not_owns_of_mode leave (by simp) (by simp))
  | freed w u free => exact .away rfl rfl (not_owns_of_mode free (by simp) (by simp))
  | aio w q _ => exact .unchanged rfl rfl
  | user w u op _ on _ effect =>
      have running := funext fun t => (effect.sameFlags t).running
      rcases effect.mode with mode | ⟨rfl, mode⟩
      · exact .unchanged running mode
      · by_cases same : t = u
        · exact .left w (same ▸ on) rfl
        · exact .away running mode (not_owns_other on same)
  | returned w value u f rest q _ _ _ _ => exact .unchanged rfl rfl
  | evaluated w value u f rest pc _ _ _ _ => exact .unchanged rfl rfl
  | advanced w u f rest _ on _ effect => exact effect.ownerStep on
  | died w u _ on _ effect => exact effect.ownerStep on

/-- A thread that is marked as running and does not exit has a worker. The exception are the main
threads of the workers, which are not on the list of threads: they can return. -/
def OwnedInv (s : State) (t : Tid) : Prop :=
  s.running t = true → s.status t ≠ .exiting → s.status t ≠ .dead →
    (∃ w, s.Owns w t) ∨ s.listed t = false ∧ s.status t = .alive

private theorem act_exitMain (on : s.mode w = .thread t)
    (done : s.act (.user w .exitMain) = some (.ok s')) :
    (s.listed t = false ∧ s.status t = .alive) ∧
      s'.listed t = s.listed t ∧ s'.status t = s.status t := by
  simp only [act, on, userStep] at done
  split at done
  · split at done
    · next ready =>
      cases done
      exact ⟨⟨ready.2.2, ready.2.1⟩, rfl, rfl⟩
    · cases done
  · cases done

theorem LifeStep.gone (step : LifeStep s s' t)
    (before : s.status t = .exiting ∨ s.status t = .dead) :
    s'.status t = .exiting ∨ s'.status t = .dead := by
  cases step with
  | same status _ => rwa [status]
  | freed _ after _ => exact .inr after
  | made status _ => simp [status] at before
  | posted status _ _ => simp [status] at before
  | started status _ _ => simp [status] at before
  | unlinked status _ _ => simp [status] at before
  | settled status _ _ => simp [status] at before
  | announced status _ _ _ => simp [status] at before
  | exits status _ _ => simp [status] at before

theorem OwnedInv.step (owned : OwnedInv s t) (inv : SystemInv s) (stepped : s.step a = some s') :
    OwnedInv s' t := by
  rcases step_act stepped with done | ⟨fault, _, rfl⟩
  · intro runs stays lives
    have effect := act_ok done
    have life : LifeStep s s' t := effect.lifeStep inv
    have before : ¬ (s.status t = .exiting ∨ s.status t = .dead) :=
      fun gone => (life.gone gone).elim stays lives
    cases effect.ownerStep (t := t) inv with
    | same running owns =>
        by_cases held : ∃ v, s.Owns v t
        · obtain ⟨v, has⟩ := held
          exact .inl ⟨v, owns v has⟩
        · obtain has | ⟨off, alive⟩ := owned (running ▸ runs) (before ∘ .inl) (before ∘ .inr)
          · exact absurd has held
          · refine .inr ?_
            cases life with
            | same status listed => exact ⟨listed.trans off, status.trans alive⟩
            | unlinked _ after _ =>
                -- The thread would do that itself.
                rcases effect.dies inv (by rw [after]; rfl) with equal | ⟨v, on, _⟩
                · simp [after, alive] at equal
                · exact absurd ⟨v, .inr on⟩ held
            | made status _ => simp [alive] at status
            | posted status _ _ => simp [alive] at status
            | started status _ _ => simp [alive] at status
            | settled status _ _ => simp [alive] at status
            | announced status _ _ _ => simp [alive] at status
            | exits status _ _ => simp [alive] at status
            | freed status _ _ => simp [alive] at status
    | owned v owns => exact .inl ⟨v, owns⟩
    | slept running => simp [running] at runs
    | exits status => exact absurd status stays
    | left v on action =>
        subst action
        obtain ⟨⟨off, alive⟩, listed, status⟩ := act_exitMain on done
        exact .inr ⟨listed.trans off, status.trans alive⟩
  · exact owned

theorem OwnedInv.initial (workers : Nat) (domainOf : WorkerId → DomainId) :
    OwnedInv (.initial workers domainOf) t := by
  intro _ _ _
  by_cases main : t < workers
  · exact .inl ⟨t, .inr (by simp [State.initial, main])⟩
  · simp_all [State.initial]

end Owners

/-! ## Quiescent states -/

/-- Every worker is in the scheduler or has left it for good, and finds nothing to do there. -/
structure State.Quiescent (s : State) : Prop where
  idle : ∀ w, s.mode w = .sched ∨ s.mode w = .off
  empty : s.events .immediate = []

/-- What a sleeping call of thread `t` still waits for. -/
inductive State.Blocked (s : State) (t : Tid) : Call → Prop where
  | fd (f : FdId) : Blocked s t (.fd f)
  | waitq (n : Nat) : Blocked s t (.waitq n)
  | cond (n : Nat) : Blocked s t (.cond n)
  | thread (u : Tid) (stays : (s.status u).exited = false) : Blocked s t (.thread u)
  | mutex (m : MutexId) (u : Tid) (owner : s.owner m = some u) (other : u ≠ t)
      (held : s.held u m = true) : Blocked s t (.mutex m)

section Quiescent

variable {s : State} {t : Tid} {f : Frame} {rest : List Frame}

theorem State.Quiescent.not_owned (quiet : s.Quiescent) (w : WorkerId) : ¬ s.Owns w t := by
  rcases quiet.idle w with mode | mode <;> exact not_owns_of_mode mode (by simp) (by simp)

theorem State.Quiescent.away (quiet : s.Quiescent) (w : WorkerId) : (s.view t).place w = .away := by
  rcases quiet.idle w with mode | mode <;> simp [State.view, placeOf, mode]

private theorem State.Quiescent.not_immediate (quiet : s.Quiescent) (inv : SystemInv s)
    (e : EventId) : s.el e ≠ some .immediate := by
  intro on
  have member := inv.lists.mem_events.mpr on
  simp [quiet.empty] at member

private theorem State.view_el {e : EventId} (mine : e.owner = t) : (s.view t).el e = s.el e := by
  simp [State.view, State.el, mine]

private theorem SystemInv.frame_el (inv : SystemInv s) (frames : s.frames t = f :: rest) :
    (s.view t).el f.e = s.el f.e := by
  obtain ⟨n, auto⟩ := ((inv.thread t).frame f (by simp [State.view, frames])).1
  exact State.view_el (by rw [auto]; rfl)

private theorem State.Quiescent.at_home (quiet : s.Quiescent) (inv : SystemInv s)
    {base : Option EventId} (stack : StackInv base (s.view t)) (idle : s.running t = false)
    (frames : s.frames t = f :: rest) :
    f.pc = .asleep ∧ s.el f.e = some f.call.home := by
  have thread := inv.thread t
  have view : (s.view t).frames = f :: rest := frames
  obtain ⟨_, empty⟩ | ⟨_, g, rest', equal, pc, placed⟩ := thread.idle idle
  · simp [empty] at view
  obtain ⟨rfl, rfl⟩ := List.cons.inj (equal.symm.trans view)
  have here := inv.frame_el frames
  refine ⟨pc, ?_⟩
  rcases (thread.located g (by simp [equal])).placed placed with home | active | pending
  · rwa [here] at home
  · exact absurd (here ▸ active) (quiet.not_immediate inv g.e)
  · have top := (stack.first view (by simp [pc, Pc.onStack])).1
    exact absurd top (thread.sleep idle g.e pending).2.2

private theorem State.Quiescent.not_running (quiet : s.Quiescent) (custody : Custody t (s.view t))
    (calls : s.frames t ≠ []) : s.running t = false := by
  cases running : s.running t with
  | false => rfl
  | true =>
      obtain ⟨w, x, entering | on⟩ := custody.running running calls
      · simp [quiet.away w] at entering
      · simp [quiet.away w] at on

theorem State.Quiescent.blocked (quiet : s.Quiescent) (inv : SystemInv s) (exit : ExitInv s)
    (owners : ∀ m, OwnerInv s m) (custody : ∀ t, Custody t (s.view t))
    (nested : ∀ t, ∃ base, StackInv base (s.view t)) (frames : s.frames t = f :: rest)
    (pc : f.pc = .asleep) (home : s.el f.e = some f.call.home) : s.Blocked t f.call := by
  cases call : f.call with
  | yield =>
      rw [call] at home
      exact absurd home (quiet.not_immediate inv f.e)
  | fd g => exact .fd g
  | waitq k => exact .waitq k
  | cond k => exact .cond k
  | thread u =>
      refine .thread u ?_
      rw [call] at home
      cases exited : (s.status u).exited with
      | false => rfl
      | true => exact absurd home (exit.left u f.e exited)
  | mutex m =>
      have locking := (inv.mutex t).locking f rest m frames call
      have foreign : (s.view t).mutex m = .other := by
        simp only [Locking, pc, inv.frame_el frames, home] at locking
        simpa using locking.2
      obtain ⟨u, owner, other⟩ : ∃ u, s.owner m = some u ∧ u ≠ t := by
        cases owner : s.owner m with
        | none => simp [State.view, shareOf, owner] at foreign
        | some u =>
            refine ⟨u, rfl, fun same => ?_⟩
            simp [State.view, shareOf, owner, same] at foreign
      refine .mutex m u owner other ?_
      rcases owners m u owner with held | ⟨g, rest', calls, locks⟩
      · exact held
      · -- The owner would have been handed the mutex and taken off its queue.
        have idle := quiet.not_running (custody u) (by simp [calls])
        obtain ⟨base, stack⟩ := nested u
        obtain ⟨asleep, queued⟩ := quiet.at_home inv stack idle calls
        have waits := (inv.mutex u).locking g rest' m calls locks
        have granted : (s.view u).mutex m = .mine := by simp [State.view, shareOf, owner]
        simp [Locking, asleep, granted, inv.frame_el calls, queued] at waits

end Quiescent

section Runs

variable {workers : Nat} {domainOf : WorkerId → DomainId} {s : State}
  {ok : State → Action → Prop}

theorem Custody.run (run : Transition.Run State.step ok (.initial workers domainOf) s) (t : Tid) :
    Custody t (s.view t) :=
  (SystemInv.initial workers domainOf).view_later run t (Custody t) (.initial workers domainOf t)
    fun _ _ inv custody _ step => step.custody inv.thread custody

theorem OwnedInv.run (run : Transition.Run State.step ok (.initial workers domainOf) s) (t : Tid) :
    OwnedInv s t :=
  run.invariant_of_reached (fun s => OwnedInv s t) (.initial workers domainOf)
    fun reached owned _ stepped => owned.step (SystemInv.run reached) stepped

private theorem StackInv.run_outermost
    (run : Transition.Run State.step (fun s a => s.nestedSignalOnlyExit a = false)
      (.initial workers domainOf) s) (t : Tid) : ∃ base, StackInv base (s.view t) := by
  refine (SystemInv.initial workers domainOf).view_later run t (fun v => ∃ base, StackInv base v)
    ⟨none, rfl, trivial⟩ ?_
  intro base a v v' kind _ outermost inv ⟨below, stack⟩ special step
  refine ⟨_, step.stackInv inv.thread stack ?_⟩
  rintro rfl
  rcases special with plain | ⟨_, exits, inner⟩
  · cases plain
  · simp [nestedSignalOnlyExit, exits, ← inner] at outermost

/-- Nobody is forgotten. In a run in which no wait in the condition of another wait leaves its
event on the event stack: once every worker is in the scheduler and `common.immediate` is empty,
every thread that was started and has not been freed sleeps in a call, with its event on the list
of that call, until something happens that the call waits for. A thread whose exit is awaited has
not exited, and a mutex that is waited for is held by another thread. Apart from these there are
only main threads of workers that have returned. -/
theorem quiescent_threads_wait
    (run : Transition.Run State.step (fun s a => s.nestedSignalOnlyExit a = false)
      (.initial workers domainOf) s) (quiet : s.Quiescent) {t : Tid}
    (started : s.status t ≠ .unused ∧ s.status t ≠ .created) (lives : s.status t ≠ .dead) :
    (∃ f rest, s.frames t = f :: rest ∧ f.pc = .asleep ∧ s.running t = false ∧
        s.el f.e = some f.call.home ∧ s.Blocked t f.call) ∨
      s.frames t = [] ∧ s.listed t = false ∧ s.status t = .alive := by
  have inv := SystemInv.run run
  have custody := Custody.run run
  have nested := StackInv.run_outermost run
  have exit : ExitInv s := run.invariant_of_reached ExitInv (.initial workers domainOf)
    fun reached exit _ stepped => exit.step (SystemInv.run reached) stepped
  have owners (m : MutexId) : OwnerInv s m :=
    run.invariant_of_reached (fun s => OwnerInv s m) (.initial workers domainOf m)
      fun reached owned _ stepped => owned.step (SystemInv.run reached) stepped
  have self : (s.view t).el (.self t) ≠ some .immediate := by
    rw [State.view_el (show (EventId.self t).owner = t from rfl)]
    exact quiet.not_immediate inv _
  have stays : s.status t ≠ .exiting := by
    intro exiting
    rcases (custody t).exiting exiting with queued | ⟨w, freeing⟩
    · exact self queued
    · simp [quiet.away w] at freeing
  cases calls : s.frames t with
  | cons f rest =>
      have idle := quiet.not_running (custody t) (by simp [calls])
      obtain ⟨base, stack⟩ := nested t
      obtain ⟨pc, home⟩ := quiet.at_home inv stack idle calls
      exact .inl ⟨f, rest, rfl, pc, idle, home,
        quiet.blocked inv exit owners custody nested calls pc home⟩
  | nil =>
      refine .inr ⟨rfl, ?_⟩
      cases running : s.running t with
      | true =>
          rcases OwnedInv.run run t running stays lives with ⟨w, owns⟩ | main
          · exact absurd owns (quiet.not_owned w)
          · exact main
      | false =>
          -- A thread without a call that does not run has not begun.
          rcases (inv.thread t).idle running with ⟨newborn, _⟩ | ⟨_, f, rest, frames, _⟩
          · have posted : s.status t = .posted := by
              cases status : s.status t <;>
                simp_all [State.view, Status.newborn]
            exact absurd ((custody t).posted posted running) self
          · simp [State.view, calls] at frames

private theorem mode_off (run : Transition.Run State.step ok (.initial workers domainOf) s)
    {w : WorkerId} (off : (State.initial workers domainOf).mode w = .off) : s.mode w = .off := by
  refine run.invariant_of_reached (fun s => s.mode w = .off) off fun reached off _ stepped => ?_
  obtain ⟨_, effect | ⟨fault, _, rfl⟩⟩ := State.step_cases stepped
  · exact effect.stays_off (SystemInv.run reached).lists off
  · exact off

/-- The main thread holds a mutex and waits for a thread that waits for the mutex. -/
def lockedOut : List Action :=
  [.user 0 (.trylock 3), .user 0 (.threadNew 1 0 0 false), .user 0 (.threadPost 1),
    .user 0 (.threadWait 0 1 0 0), .advance 0, .leave 0, .runImmediate 0 .any, .enter 0,
    .user 0 (.lock 0 3)] ++ List.replicate 7 (.advance 0) ++ [.leave 0]

set_option maxRecDepth 10000 in
theorem quiescent_threads_wait_locked_out : ∃ s,
    Transition.Run State.step (fun s a => s.nestedSignalOnlyExit a = false)
        (.initial 1 fun _ => 0) s ∧
      s.el (.auto 1 0) = some (.waiters (.mutex 3)) ∧ s.Blocked 1 (.mutex 3) := by
  obtain ⟨s, run, shown⟩ := run_of_exec 1 (fun _ => 0)
    (fun s a => !s.nestedSignalOnlyExit a) lockedOut
    (fun s => (s.mode 0 = .sched ∧ s.events .immediate = [] ∧ s.status 1 = .alive ∧
      s.frames 1 = [⟨.mutex 3, .auto 1 0, .asleep, none⟩]))
    (by decide)
  obtain ⟨sched, empty, alive, frames⟩ := of_decide_eq_true shown
  simp only [Bool.not_eq_eq_eq_not, Bool.not_true] at run
  have quiet : s.Quiescent := by
    refine ⟨fun w => ?_, empty⟩
    cases w with
    | zero => exact .inl sched
    | succ w => exact .inr (mode_off run (by simp [State.initial]))
  obtain ⟨f, rest, calls, _, _, home, blocked⟩ | ⟨none, _⟩ :=
    quiescent_threads_wait run quiet (t := 1) (by simp [alive]) (by simp [alive])
  · obtain ⟨rfl, _⟩ := List.cons.inj (calls.symm.trans frames)
    exact ⟨s, run, home, blocked⟩
  · simp [frames] at none

/-- A wait in the condition of another wait is interrupted; then the other one sleeps, and is
woken. -/
def strandedWait : List Action :=
  [.user 0 (.subscribe 0 0), .user 0 (.waitEventLoop 0 0), .advance 0, .user 0 (.waitqWait 1 1),
    .advance 0, .leave 0, .user 1 (.fire 0), .runImmediate 0 .any, .enter 0, .advance 0,
    .condition 0 false, .advance 0, .leave 0, .user 1 (.wakeupAll 0), .runImmediate 0 .any,
    .user 1 (.waitqWait 0 5), .advance 1, .leave 1]

set_option maxRecDepth 10000 in
/-- After the exit that the runs above do not take, a wakeup stays on the pending list of a thread
that nobody will look at. -/
theorem interrupted_condition_strands_thread : ∃ s, Reachable 2 (fun _ => 0) s ∧ s.Quiescent ∧
    s.frames 0 = [⟨.cond 0, .auto 0 0, .asleep, none⟩] ∧ s.el (.auto 0 0) = some (.pending 0) := by
  obtain ⟨s, reached, shown⟩ := reachable_of_exec 2 (fun _ => 0) strandedWait
    (fun s => (s.mode 0 = .sched ∧ s.mode 1 = .sched ∧ s.events .immediate = [] ∧
      s.frames 0 = [⟨.cond 0, .auto 0 0, .asleep, none⟩] ∧
      s.el (.auto 0 0) = some (.pending 0)))
    (by decide)
  obtain ⟨first, second, empty, frames, pending⟩ := of_decide_eq_true shown
  refine ⟨s, reached, ⟨fun w => ?_, empty⟩, frames, pending⟩
  rcases w with - | - | w
  · exact .inl first
  · exact .inl second
  · exact .inr (mode_off reached (by simp [State.initial]))

end Runs

end Libtcr
