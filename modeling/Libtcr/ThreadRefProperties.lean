import Libtcr.ThreadRef
import Libtcr.ExitProperties
import Libtcr.MutexProperties

/-! Waiting for the exit of a thread through a reference: the call waits for that very
thread, and returns `RV_OK` only after its exit. -/

set_option autoImplicit false

namespace Libtcr

open State

/-! ## Ids -/

/-- `last_thread_id` after `k` threads: 32 bits, and never 0 again. -/
def lastIdAfter (k : Nat) : BitVec 32 :=
  if k = 0 then 0 else BitVec.ofNat 32 ((k - 1) % (2 ^ 32 - 1) + 1)

private theorem lastIdAfter_succ (k : Nat) : lastIdAfter (k + 1) =
    if lastIdAfter k + 1 = 0 then 1 else lastIdAfter k + 1 := by
  cases k with
  | zero => decide
  | succ m =>
      have bound := Nat.mod_lt m (show 0 < 2 ^ 32 - 1 by decide)
      have next : (m + 1) % (2 ^ 32 - 1) =
          if m % (2 ^ 32 - 1) = 2 ^ 32 - 2 then 0 else m % (2 ^ 32 - 1) + 1 := by
        split <;> omega
      simp only [lastIdAfter, Nat.add_sub_cancel, Nat.add_eq_zero_iff, one_ne_zero, and_false,
        if_false, next]
      by_cases wraps : m % (2 ^ 32 - 1) = 2 ^ 32 - 2
      · rw [if_pos wraps, wraps]
        decide
      · rw [if_neg wraps, if_neg]
        · apply BitVec.eq_of_toNat_eq
          simp
        · intro zero
          have value := congrArg BitVec.toNat zero
          simp at value
          omega

private theorem lastIdAfter_ne_zero {k : Nat} (positive : 0 < k) : lastIdAfter k ≠ 0 := by
  intro zero
  have value := congrArg BitVec.toNat zero
  rw [lastIdAfter, if_neg (by omega)] at value
  simp only [BitVec.toNat_ofNat] at value
  have bound := Nat.mod_lt (k - 1) (show 0 < 2 ^ 32 - 1 by decide)
  simp at value
  omega

private theorem lastIdAfter_injective {i j : Nat} (positive : 0 < i) (ordered : i ≤ j)
    (near : j - i < 2 ^ 32 - 1) (equal : lastIdAfter i = lastIdAfter j) : i = j := by
  have values := congrArg BitVec.toNat equal
  rw [lastIdAfter, lastIdAfter, if_neg (by omega), if_neg (by omega)] at values
  simp only [BitVec.toNat_ofNat] at values
  omega

/-! ## What the steps leave of names -/

/-- No thread gets another id or domain, and no domain another `last_thread_id`. -/
structure SameNames (s s' : State) : Prop where
  id : ∀ t, s'.threadId t = s.threadId t
  domain : ∀ t, s'.threadDomain t = s.threadDomain t
  last : ∀ d, s'.lastThreadId d = s.lastThreadId d

section Names

variable {s s' : State} {w : WorkerId} {t : Tid}

private theorem runOrQueue_names {e : EventId} {tcfd : Option FdId} {chosen : Option Tid}
    (ran : RunOrQueue (s.served w tcfd) w e chosen s') : SameNames s s' := by
  obtain ⟨_, _, _, _, _, _, _, rfl⟩ := ran.frame
  exact ⟨fun _ => rfl, fun _ => rfl, fun _ => rfl⟩

private theorem tcWaitqWakeupOne_names (s : State) (wq : Waitq) :
    SameNames s (s.tcWaitqWakeupOne wq).1 := by
  obtain ⟨_, _, _, frame⟩ := tcWaitqWakeupOne_frame s wq
  rw [frame]
  exact ⟨fun _ => rfl, fun _ => rfl, fun _ => rfl⟩

private theorem finishWait_names {e : EventId} {rv : Bool} (finished : FinishWait s w t e rv s') :
    SameNames s s' := by
  obtain ⟨_, _, _, _, _, _, _, rfl⟩ := finished.frame
  exact ⟨fun _ => rfl, fun _ => rfl, fun _ => rfl⟩

private theorem State.UserEffect.sameNames {op : UserOp} (effect : UserEffect s w t op s')
    (old : (Action.user w op).creates = false) : SameNames s s' := by
  cases effect with
  | wakeupOne q => exact tcWaitqWakeupOne_names s (.user q)
  | subscribe g n _ _ subscribed =>
      obtain ⟨_, rfl⟩ := tcSignalSubscribe_ok subscribed
      exact ⟨fun _ => rfl, fun _ => rfl, fun _ => rfl⟩
  | unlock m _ => exact { tcWaitqWakeupOne_names s (.mutex m) with }
  | threadNew v d nr affine _ => cases old
  | threadPost v s₁ _ added =>
      obtain ⟨_, rfl⟩ := addEventCr_ok added
      exact ⟨fun _ => rfl, fun _ => rfl, fun _ => rfl⟩
  | yield n s₁ _ added =>
      obtain ⟨_, rfl⟩ := addEventCr_ok added
      exact ⟨fun _ => rfl, fun _ => rfl, fun _ => rfl⟩
  | waitFdFailed n g mask priority ctl s₁ _ refused =>
      cases refused <;> exact ⟨fun _ => rfl, fun _ => rfl, fun _ => rfl⟩
  | waitFd n g mask priority ctl s₁ _ added =>
      cases added
      exact ⟨fun _ => rfl, fun _ => rfl, fun _ => rfl⟩
  | waitqWait n q s₁ _ prepared =>
      obtain ⟨_, rfl⟩ := tcWaitqPrepareToWait_ok prepared
      exact ⟨fun _ => rfl, fun _ => rfl, fun _ => rfl⟩
  | threadWait n v d id s₁ _ prepared =>
      obtain ⟨_, rfl⟩ := tcWaitqPrepareToWait_ok prepared
      exact ⟨fun _ => rfl, fun _ => rfl, fun _ => rfl⟩
  | _ => exact ⟨fun _ => rfl, fun _ => rfl, fun _ => rfl⟩

private theorem State.FrameEffect.sameNames {f : Frame} (effect : FrameEffect s w t f s') :
    SameNames s s' := by
  cases effect with
  | scheduled _ _ scheduled =>
      cases scheduled <;> exact ⟨fun _ => rfl, fun _ => rfl, fun _ => rfl⟩
  | interrupted s₁ _ _ finished => exact { finishWait_names finished with }
  | again s₁ _ _ finished => exact { finishWait_names finished with }
  | woken s₁ _ _ _ finished => exact { finishWait_names finished with }
  | prepared wq s₁ _ _ _ prepared =>
      obtain ⟨_, rfl⟩ := tcWaitqPrepareToWait_ok prepared
      exact ⟨fun _ => rfl, fun _ => rfl, fun _ => rfl⟩
  | held s₁ rv _ finished => exact { finishWait_names finished with }
  | _ => exact ⟨fun _ => rfl, fun _ => rfl, fun _ => rfl⟩

private theorem State.Effect.sameNames {a : Action} (effect : s.Effect a s') (inv : ListInv s)
    (old : a.creates = false) : SameNames s s' := by
  cases effect with
  | queued w scan x s₁ _ _ ran => exact runOrQueue_names ran
  | reaped w scan x u s₁ _ _ _ ran => exact { runOrQueue_names ran with }
  | chosen w scan x u s₁ immediateFd _ _ _ ran => exact { runOrQueue_names ran with }
  | reported w g em _ _ =>
      obtain ⟨moved, choice, handled⟩ := handleReport_spec (fun f => inv.lists.nodup (.fd f)) w g em
      obtain ⟨errHup, fdEpEvents, equal⟩ := handled.effect
      rw [equal]
      exact ⟨fun _ => rfl, fun _ => rfl, fun _ => rfl⟩
  | reportQueued w g x s₁ _ _ ran => exact { runOrQueue_names ran with }
  | reportChosen w g x u s₁ _ _ ran => exact { runOrQueue_names ran with }
  | user w u op _ _ _ effect => exact effect.sameNames old
  | advanced w u f rest _ _ _ effect => exact effect.sameNames
  | died w u _ _ _ effect =>
      cases effect with
      | settled _ => exact ⟨fun _ => rfl, fun _ => rfl, fun _ => rfl⟩
      | announced _ => exact ⟨fun _ => rfl, fun _ => rfl, fun _ => rfl⟩
      | exits s₁ _ added =>
          obtain ⟨_, rfl⟩ := addEventCr_ok added
          exact ⟨fun _ => rfl, fun _ => rfl, fun _ => rfl⟩
  | _ => exact ⟨fun _ => rfl, fun _ => rfl, fun _ => rfl⟩

end Names

theorem Action.creates_of_makes {a : Action} (makes : a.makes = false) : a.creates = false := by
  cases a with
  | user w op => cases op <;> first | rfl | cases makes
  | _ => rfl

theorem SystemInv.step_names {s s' : State} {a : Action} (inv : SystemInv s) (old : a.creates = false)
    (stepped : s.step a = some s') : SameNames s s' := by
  obtain ⟨_, effect | ⟨fault, _, rfl⟩⟩ := State.step_cases stepped
  · exact effect.sameNames inv.lists old
  · exact ⟨fun _ => rfl, fun _ => rfl, fun _ => rfl⟩

theorem SystemInv.step_threadNew {s s' : State} {w : WorkerId} {u : Tid} {d : DomainId} {nr : Int}
    {affine : Bool} (inv : SystemInv s) (stepped : s.step (.user w (.threadNew u d nr affine)) = some s') :
    s.status u = .unused ∧ s' = s.tcThreadNew u d nr affine := by
  rcases State.step_act stepped with done | ⟨fault, failed, _⟩
  · cases act_ok done with
    | user w t op _ _ _ effect =>
        cases effect with
        | threadNew u d nr affine unused => exact ⟨unused, rfl⟩
  · cases State.act_error inv failed

/-! ## The call -/

/-- The call whose event is `e` waits for thread `u` on its `exit_waiters`, has been moved
off them by the exit of `u`, or has returned. -/
def WaitsFor (s : State) (e : EventId) (u : Tid) : Prop :=
  (∃ f rest, s.frames e.owner = f :: rest ∧ f.e = e ∧ f.call = .thread u ∧
    (s.el e = some (.waiters (.exit u)) ∨ (s.status u).exited = true)) ∨
  ∃ rv, s.result e = some rv ∧ (rv = .ok → (s.status u).exited = true)

section Call

variable {s s' : State} {w : WorkerId} {t u : Tid} {f : Frame} {rest : List Frame}

/-- A call that `tc_scheduler` has returned to, and that is not interrupted, has been moved
off the queue it waited on. -/
theorem finished_off {s₁ : State} (inv : SystemInv s) (on : s.mode w = .thread t)
    (frames : s.frames t = f :: rest) (pc : f.pc = .woke) (finished : FinishWait s w t f.e false s₁) :
    s.el f.e ≠ some (.waiters (.exit u)) := by
  have thread := inv.thread t
  obtain ⟨⟨n, auto⟩, _⟩ := thread.frame f (by simp [State.view, frames])
  have own : (s.view t).el f.e = s.el f.e := by simp [State.view, State.el, auto]
  obtain ⟨y, woken, delivered⟩ := thread.delivered w (s.wokenByEvent w) f rest
    (by simp [State.view, frames]) (.inr ⟨by simp [State.view, placeOf, on], pc⟩)
  rw [own] at delivered
  cases finished with
  | expected _ expected =>
      rcases delivered with ⟨_, off⟩ | ⟨⟨m, sub⟩, _⟩
      · simp [off]
      · simp [woken, sub, auto] at expected
  | requeued x _ _ _ active =>
      rcases active with pending | immediate
      · simp [pending]
      · simp [immediate]

/-- The thread goes to sleep, or finds that it has been woken; after that, the call returns
`RV_INTR`, or `RV_OK` if its event is no longer on `exit_waiters`. -/
theorem act_threadWait (inv : SystemInv s) (on : s.mode w = .thread t)
    (frames : s.frames t = f :: rest) (call : f.call = .thread u)
    (done : s.act (.advance w) = some (.ok s')) :
    (∃ g, s'.frames t = g :: rest ∧ g.e = f.e ∧ g.call = .thread u ∧
      (s.el f.e = some (.waiters (.exit u)) → s'.el f.e = some (.waiters (.exit u)))) ∨
    s'.frames t = rest ∧ s'.result f.e = some .intr ∨
    s'.frames t = rest ∧ s'.result f.e = some .ok ∧ s.el f.e ≠ some (.waiters (.exit u)) := by
  have admits := (inv.control t).admits f rest (by simp [State.view, frames])
  simp only [act, on, frames] at done
  unfold advanceFrame at done
  cases pc : f.pc with
  | pushed =>
      simp only [pc, Option.some.injEq] at done
      have scheduled := tcScheduler_ok done
      refine .inl ?_
      cases scheduled with
      | slept _ =>
          exact ⟨{ f with pc := .asleep }, by simp [setFrame, frames], rfl, call, fun rests => rests⟩
      | signalled x _ pending _ _ =>
          refine ⟨{ f with pc := .woke }, by simp [setFrame, relocateEvent, unlinkEvent, frames], rfl,
            call, fun rests => ?_⟩
          refine stays_update (x := x) (l := some (.waiters (.signal (s.signal x)))) rests ?_ ?_
          · simp [setFrame, relocateEvent]
          · simp [inv.lists.mem_events.mp pending]
      | resumed x _ _ at_ _ _ =>
          exact ⟨{ f with pc := .woke }, by simp [setFrame, detachEvent, unlinkEvent, frames], rfl, call,
            fun rests => stays_update (x := x) (l := none) rests rfl (by simp [at_])⟩
  | woke =>
      simp only [pc, call, Option.some.injEq] at done
      unfold waitqWoke at done
      split at done
      · cases done
      · next s₁ finished =>
        cases done
        have same := (finishWait_calls (tcWaitqFinishWait_ok finished)).1
        exact .inr (.inl ⟨by simp [State.returnIntr, State.returnCall, same, frames],
          by simp [State.returnIntr, State.returnCall, endEvent]⟩)
      · next s₁ finished =>
        cases done
        have same := (finishWait_calls (tcWaitqFinishWait_ok finished)).1
        refine .inr (.inr ⟨by simp [State.returnCall, same, frames],
          by simp [State.returnCall, endEvent], ?_⟩)
        exact finished_off inv on frames pc (tcWaitqFinishWait_ok finished)
  | asleep => simp [pc, call] at done
  | prep => simp [pc, call] at done
  | _ => simp [pc, call, Call.admits] at admits

/-- The call whose event is `e` waits for thread `u`, or the exit of `u` has moved it off the queue. -/
def Awaits (s : State) (e : EventId) (u : Tid) : Prop :=
  ∃ f rest, s.frames e.owner = f :: rest ∧ f.e = e ∧ f.call = .thread u ∧
    (s.el e = some (.waiters (.exit u)) ∨ (s.status u).exited = true)

theorem Awaits.step {e : EventId} {a : Action} (awaits : Awaits s e u) (inv : SystemInv s)
    (stepped : s.step a = some s') : Awaits s' e u ∨ s'.result e = some .intr ∨
      s'.result e = some .ok ∧ (s'.status u).exited = true := by
  obtain ⟨_, effect | ⟨fault, _, rfl⟩⟩ := State.step_cases stepped
  · have life : LifeStep s s' u := effect.lifeStep inv
    obtain ⟨f, rest, frames, event, call, queued⟩ := awaits
    by_cases own : ∃ w, a = .advance w ∧ s.mode w = .thread e.owner
    · obtain ⟨w, rfl, on⟩ := own
      rcases State.step_act stepped with done | ⟨fault, _, rfl⟩
      · subst event
        rcases act_threadWait inv on frames call done with
          ⟨g, after, same, call', stays⟩ | ⟨_, result⟩ | ⟨_, result, off⟩
        · exact .inl ⟨g, rest, after, same, call', queued.imp stays life.exited⟩
        · exact .inr (.inl result)
        · exact .inr (.inr ⟨result, life.exited (queued.resolve_left off)⟩)
      · exact .inl ⟨f, rest, frames, event, call, queued⟩
    · have queued' : s'.el e = some (.waiters (.exit u)) ∨ (s'.status u).exited = true := by
        rcases queued with rests | exited
        · rcases effect.leaves_exit inv rests with stays | announced | ⟨w, _, _, step, on, _⟩
          · exact .inl stays
          · exact .inr (by simp [announced.2.2.1, Status.exited])
          · exact absurd ⟨w, step, on⟩ own
        · exact .inr (life.exited exited)
      rcases effect.inside inv frames (by simp [Frame.inCondition, call]) with
        same | ⟨w, _, _, rfl⟩ | ⟨w, step, on, _⟩
      · exact .inl ⟨f, rest, same.1.trans frames, event, call, queued'⟩
      · exact .inl ⟨{ f with pc := .woke }, rest, by simp [enterThread, frames], event, call,
          queued'⟩
      · exact absurd ⟨w, step, on⟩ own
  · exact .inl awaits

theorem WaitsFor.step {e : EventId} {n : Nat} {a : Action} (waits : WaitsFor s e u)
    (inv : SystemInv s) (auto : e = .auto t n) (stepped : s.step a = some s') : WaitsFor s' e u := by
  rcases waits with awaits | ⟨rv, result, ok⟩
  · rcases Awaits.step awaits inv stepped with still | intr | ⟨isOk, exited⟩
    · exact .inl still
    · exact .inr ⟨.intr, intr, by simp⟩
    · exact .inr ⟨.ok, isOk, fun _ => exited⟩
  · have life : LifeStep s s' u := inv.lifeStep stepped
    exact .inr ⟨rv, inv.result_stays stepped auto result, fun isOk => life.exited (ok isOk)⟩

/-- `tc_thread_wait_ref` answers that there is no such thread, or queues its event for the thread
that it has found on the list. -/
theorem SystemInv.threadWait_outcome {n : Nat} {d : DomainId} {id : BitVec 32} (inv : SystemInv s)
    (on : s.mode w = .thread t) (stepped : s.step (.user w (.threadWait n u d id)) = some s') :
    ¬ (s.listed u = true ∧ s.threadDomain u = d ∧ (id = 0 ∨ s.threadId u = id)) ∧
      s'.result (.auto t n) = some .threadNa ∧ s'.el (.auto t n) = none ∧ s'.frames t = s.frames t ∨
    (s.listed u = true ∧ s.threadDomain u = d ∧ (id = 0 ∨ s.threadId u = id)) ∧
      (∃ saved, s'.frames t = ⟨.thread u, .auto t n, .pushed, saved⟩ :: s.frames t) ∧
      s'.el (.auto t n) = some (.waiters (.exit u)) := by
  rcases State.step_act stepped with done | ⟨fault, failed, _⟩
  · simp only [act, on] at done
    split at done
    · simp only [userStep] at done
      split at done
      · next unused =>
        split at done
        · next valid =>
          split at done
          · cases done
          · next s₁ prepared =>
            cases done
            obtain ⟨_, rfl⟩ := tcWaitqPrepareToWait_ok prepared
            exact .inr ⟨valid, ⟨_, by simp [pushFrame, tcEventOnTcStack, attachEvent, tcEventInit]; rfl⟩,
              by simp [State.el, pushFrame, tcEventOnTcStack, attachEvent]⟩
        · next invalid =>
          cases done
          exact .inl ⟨invalid, by simp [endEvent], unused_off inv unused, rfl⟩
      · cases done
    · cases done
  · cases State.act_error inv failed

end Call

/-! ## The invariant -/

structure RefInv (s : RefState) : Prop where
  system : SystemInv s.sys
  exit : ExitInv s.sys
  last : ∀ d, s.sys.lastThreadId d = lastIdAfter (s.created d)
  ref : ∀ u r, s.refs u = some r → r.domain = s.sys.threadDomain u ∧ r.id = s.sys.threadId u
  named : ∀ u r, s.refs u = some r → s.sys.threadId u = lastIdAfter (s.born u) ∧ 0 < s.born u ∧
    s.born u ≤ s.created (s.sys.threadDomain u) ∧ s.sys.status u ≠ .unused
  number : ∀ u v r q, s.refs u = some r → s.refs v = some q →
    s.sys.threadDomain u = s.sys.threadDomain v → s.born u = s.born v → u = v
  present : ∀ u r, s.refs u = some r → s.sys.status u ≠ .dead → s.object r.thr = some u
  object : ∀ a v, s.object a = some v → ∃ r, s.refs v = some r ∧ r.thr = a
  /-- Who is at an address came after everybody else who was there. -/
  newest : ∀ u r v, s.refs u = some r → s.object r.thr = some v →
    s.sys.threadDomain u = s.sys.threadDomain v → s.born u ≤ s.born v
  waits : ∀ e u, s.waits e = some u → (∃ t n, e = .auto t n) ∧ WaitsFor s.sys e u

section Layer

variable {s : RefState} {sys : State}

theorem RefInv.keep {a : Action} {waits : EventId → Option Tid} (inv : RefInv s)
    (old : a.creates = false) (stepped : s.sys.step a = some sys)
    (waiting : ∀ e u, waits e = some u → (∃ t n, e = .auto t n) ∧ WaitsFor sys e u) :
    RefInv { s with sys := sys, waits := waits } := by
  have names : SameNames s.sys sys := inv.system.step_names old stepped
  have life : ∀ t, LifeStep s.sys sys t := fun t => inv.system.lifeStep stepped
  exact {
    system := inv.system.step stepped
    exit := inv.exit.step inv.system stepped
    last := fun d => (names.last d).trans (inv.last d)
    ref := fun u r made => by simpa only [names.domain, names.id] using inv.ref u r made
    named := fun u r made => by
      obtain ⟨id, positive, most, used⟩ := inv.named u r made
      simp only [names.id, names.domain]
      exact ⟨id, positive, most, (life u).used used⟩
    number := fun u v r q first second => by
      simpa only [names.domain] using inv.number u v r q first second
    present := fun u r made alive =>
      inv.present u r made fun dead => alive ((life u).dead dead)
    object := inv.object
    newest := fun u r v made at_ => by
      simpa only [names.domain] using inv.newest u r v made at_
    waits := waiting }

private theorem RefInv.system_step {a : Action} (inv : RefInv s) (old : a.creates = false)
    (stepped : s.sys.step a = some sys) : RefInv { s with sys := sys } := by
  refine inv.keep old stepped fun e u waits => ?_
  obtain ⟨⟨t, n, auto⟩, waiting⟩ := inv.waits e u waits
  exact ⟨⟨t, n, auto⟩, waiting.step inv.system auto stepped⟩

/-- The only thread with the id of the reference at its address is the one it was made
for. -/
theorem RefInv.same_thread {u v : Tid} {r : ThreadRef} (inv : RefInv s) (made : s.refs u = some r)
    (near : s.created (s.sys.threadDomain u) - s.born u < 2 ^ 32 - 1) (at_ : s.object r.thr = some v)
    (domain : s.sys.threadDomain v = r.domain) (id : s.sys.threadId v = r.id) : v = u := by
  obtain ⟨domain', id'⟩ := inv.ref u r made
  obtain ⟨q, made', _⟩ := inv.object r.thr v at_
  obtain ⟨named, positive, _, _⟩ := inv.named u r made
  obtain ⟨named', _, most, _⟩ := inv.named v q made'
  have together : s.sys.threadDomain u = s.sys.threadDomain v := by rw [domain, domain']
  rw [← together] at most
  refine inv.number v u q r made' made together.symm ?_
  refine (lastIdAfter_injective positive (inv.newest u r v made at_ together) (by omega) ?_).symm
  rw [← named, ← named', id, id']

/-- `tc_thread_wait_ref` answers that there is no such thread, or queues its event for the
thread that the reference was made for. -/
theorem RefInv.wait_outcome {w : WorkerId} {t u v : Tid} {n : Nat} {r : ThreadRef} (inv : RefInv s)
    (on : s.sys.mode w = .thread t) (made : s.refs u = some r) (at_ : s.object r.thr = some v)
    (near : s.created (s.sys.threadDomain u) - s.born u < 2 ^ 32 - 1)
    (stepped : s.sys.step (.user w (.threadWait n v r.domain r.id)) = some sys) :
    sys.result (.auto t n) = some .threadNa ∨
    (∃ saved, sys.frames t = ⟨.thread u, .auto t n, .pushed, saved⟩ :: s.sys.frames t) ∧
      sys.el (.auto t n) = some (.waiters (.exit u)) := by
  rcases inv.system.threadWait_outcome on stepped with ⟨_, na, _⟩ | ⟨⟨_, domain, id⟩, frames, queued⟩
  · exact .inl na
  · obtain ⟨named, positive, _, _⟩ := inv.named u r made
    have nonzero : r.id ≠ 0 := by
      rw [(inv.ref u r made).2, named]
      exact lastIdAfter_ne_zero positive
    obtain rfl := inv.same_thread made near at_ domain (id.resolve_left nonzero)
    exact .inr ⟨frames, queued⟩

theorem RefInv.wait {w : WorkerId} {t u v : Tid} {n : Nat} {r : ThreadRef} (inv : RefInv s)
    (on : s.sys.mode w = .thread t) (made : s.refs u = some r) (at_ : s.object r.thr = some v)
    (near : s.created (s.sys.threadDomain u) - s.born u < 2 ^ 32 - 1)
    (stepped : s.sys.step (.user w (.threadWait n v r.domain r.id)) = some sys) :
    RefInv { s with sys := sys, waits := Function.update s.waits (.auto t n) (some u) } := by
  refine inv.keep rfl stepped fun e u' waits => ?_
  by_cases same : e = .auto t n
  · subst same
    obtain rfl : u = u' := by simpa using waits
    refine ⟨⟨t, n, rfl⟩, ?_⟩
    rcases inv.wait_outcome on made at_ near stepped with na | ⟨⟨saved, frames⟩, queued⟩
    · exact .inr ⟨.threadNa, na, by simp⟩
    · exact .inl ⟨_, _, frames, rfl, rfl, .inl queued⟩
  · rw [Function.update_of_ne same] at waits
    obtain ⟨⟨t', n', auto⟩, waiting⟩ := inv.waits e u' waits
    exact ⟨⟨t', n', auto⟩, waiting.step inv.system auto stepped⟩

theorem RefInv.create {w : WorkerId} {u : Tid} {d : DomainId} {nr : Int} {affine : Bool}
    {address : Nat} (inv : RefInv s) (free : s.available address = true)
    (stepped : s.sys.step (.user w (.threadNew u d nr affine)) = some sys) :
    RefInv { s with
      sys := sys
      object := Function.update s.object address (some u)
      refs := Function.update s.refs u (some ⟨address, d, sys.threadId u⟩)
      created := Function.update s.created d (s.created d + 1)
      born := Function.update s.born u (s.created d + 1) } := by
  obtain ⟨unused, rfl⟩ := inv.system.step_threadNew stepped
  have fresh : ∀ {v : Tid} {r : ThreadRef}, s.refs v = some r → v ≠ u := by
    rintro v r made rfl
    exact (inv.named v r made).2.2.2 unused
  have id : (s.sys.tcThreadNew u d nr affine).threadId =
      Function.update s.sys.threadId u (lastIdAfter (s.created d + 1)) := by
    rw [lastIdAfter_succ, ← inv.last d]
    rfl
  have life : ∀ t, LifeStep s.sys (s.sys.tcThreadNew u d nr affine) t := fun t =>
    inv.system.lifeStep stepped
  have domain : (s.sys.tcThreadNew u d nr affine).threadDomain =
      Function.update s.sys.threadDomain u d := rfl
  -- the references as they were, and the new one
  have cases : ∀ {v : Tid} {r : ThreadRef},
      Function.update s.refs u (some ⟨address, d, (s.sys.tcThreadNew u d nr affine).threadId u⟩) v =
        some r →
      v = u ∧ r = ⟨address, d, lastIdAfter (s.created d + 1)⟩ ∨ v ≠ u ∧ s.refs v = some r := by
    intro v r made
    rw [id, Function.update_self] at made
    exact (Update.eq_cases made).imp_left fun ⟨same, new⟩ => ⟨same, (Option.some.inj new).symm⟩
  have earlier : ∀ {v : Tid} {r : ThreadRef}, s.refs v = some r → s.sys.threadDomain v = d →
      s.born v ≤ s.created d := by
    intro v r made same
    exact same ▸ (inv.named v r made).2.2.1
  exact {
    system := inv.system.step stepped
    exit := inv.exit.step inv.system stepped
    last := fun d' => by
      have last : (s.sys.tcThreadNew u d nr affine).lastThreadId =
          Function.update s.sys.lastThreadId d (lastIdAfter (s.created d + 1)) := by
        rw [lastIdAfter_succ, ← inv.last d]
        rfl
      by_cases same : d' = d
      · simp [last, same]
      · simp [last, same, inv.last d']
    ref := fun v r made => by
      rcases cases made with ⟨rfl, rfl⟩ | ⟨other, made⟩
      · simp [id, domain]
      · simpa [id, domain, other] using inv.ref v r made
    named := fun v r made => by
      rcases cases made with ⟨rfl, rfl⟩ | ⟨other, made⟩
      · exact ⟨by simp [id], by simp, by simp [domain], by simp [tcThreadNew]⟩
      · obtain ⟨named, positive, most, used⟩ := inv.named v r made
        refine ⟨by simpa [id, other] using named, by simpa [other] using positive, ?_,
          (life v).used used⟩
        dsimp only
        rw [domain, Function.update_of_ne other, Function.update_of_ne other]
        by_cases same : s.sys.threadDomain v = d
        · rw [same, Function.update_self]
          exact Nat.le_succ_of_le (earlier made same)
        · rwa [Function.update_of_ne same]
    number := fun v v' r q first second => by
      rw [domain]
      rcases cases first with ⟨rfl, rfl⟩ | ⟨other, before⟩
      · rcases cases second with ⟨rfl, rfl⟩ | ⟨other', before⟩
        · simp
        · simp only [Function.update_self, Function.update_of_ne other']
          intro together equal
          have most := earlier before together.symm
          omega
      · rcases cases second with ⟨rfl, rfl⟩ | ⟨other', second⟩
        · simp only [Function.update_self, Function.update_of_ne other]
          intro together equal
          have most := earlier before together
          omega
        · simpa [other, other'] using inv.number v v' r q before second
    present := fun v r made alive => by
      rcases cases made with ⟨rfl, rfl⟩ | ⟨other, made⟩
      · simp
      · have lives : s.sys.status v ≠ .dead := fun dead => alive ((life v).dead dead)
        have here := inv.present v r made lives
        by_cases same : r.thr = address
        · simp only [RefState.available, ← same, here, decide_eq_true_eq] at free
          exact absurd free lives
        · simpa [same] using here
    object := fun a v at_ => by
      by_cases same : a = address
      · obtain rfl : u = v := by simpa [same] using at_
        exact ⟨_, Function.update_self .., same.symm⟩
      · obtain ⟨r, made, equal⟩ := inv.object a v (by simpa [same] using at_)
        exact ⟨r, by simpa [fresh made] using made, equal⟩
    newest := fun v r v' made at_ => by
      rw [domain]
      rcases cases made with ⟨rfl, rfl⟩ | ⟨other, made⟩
      · obtain rfl : v = v' := by simpa using at_
        simp
      · by_cases same : r.thr = address
        · obtain rfl : u = v' := by simpa [same] using at_
          simp only [Function.update_self, Function.update_of_ne other]
          intro together
          exact Nat.le_succ_of_le (earlier made together)
        · have before : s.object r.thr = some v' := by simpa [same] using at_
          obtain ⟨q, made', _⟩ := inv.object r.thr v' before
          simpa [other, fresh made'] using inv.newest v r v' made before
    waits := fun e v waits => by
      obtain ⟨⟨t', n', auto⟩, waiting⟩ := inv.waits e v waits
      exact ⟨⟨t', n', auto⟩, waiting.step inv.system auto stepped⟩ }

theorem RefInv.step {s' : RefState} {a : RefAction} (inv : RefInv s) (near : s.recent a)
    (stepped : s.step a = some s') : RefInv s' := by
  cases a with
  | system a =>
      simp only [RefState.step] at stepped
      split at stepped
      · cases stepped
      · next old =>
        obtain ⟨sys, done, rfl⟩ := Option.map_eq_some_iff.mp stepped
        exact inv.system_step (by simpa using old) done
  | create w u d nr affine address =>
      simp only [RefState.step] at stepped
      split at stepped
      · next free =>
        obtain ⟨sys, done, rfl⟩ := Option.map_eq_some_iff.mp stepped
        exact inv.create free done
      · cases stepped
  | wait w n u =>
      simp only [RefState.step] at stepped
      split at stepped
      · next t r on made =>
        split at stepped
        · next v at_ =>
          obtain ⟨sys, done, rfl⟩ := Option.map_eq_some_iff.mp stepped
          exact inv.wait on made at_ near done
        · cases stepped
      · cases stepped

theorem RefInv.initial (workers : Nat) (domainOf : WorkerId → DomainId) :
    RefInv (.initial workers domainOf) where
  system := .initial workers domainOf
  exit := .initial workers domainOf
  last d := rfl
  ref u r made := by cases made
  named u r made := by cases made
  number u v r q made := by cases made
  present u r made := by cases made
  object a v at_ := by cases at_
  newest u r v made := by cases made
  waits e u waits := by cases waits

theorem RefInv.run {workers : Nat} {domainOf : WorkerId → DomainId}
    (reached : RefReachable workers domainOf s) : RefInv s :=
  Transition.Run.invariant reached RefInv (.initial workers domainOf) fun inv near stepped =>
    inv.step near stepped

/-- `_thread_valid` finds the address on the list of threads exactly if the thread that is
there now is on the list. -/
theorem RefInv.thread_valid {a : Nat} {v : Tid} {d : DomainId} (inv : RefInv s)
    (at_ : s.object a = some v) :
    (∃ u r, s.sys.listed u = true ∧ s.sys.threadDomain u = d ∧ s.refs u = some r ∧ r.thr = a) ↔
      s.sys.listed v = true ∧ s.sys.threadDomain v = d := by
  constructor
  · rintro ⟨u, r, listed, domain, made, rfl⟩
    have alive : s.sys.status u ≠ .dead := by
      have enlisted := inv.exit.enlisted u listed
      rintro dead
      simp [dead, Status.enlisted] at enlisted
    obtain rfl : u = v := Option.some.inj ((inv.present u r made alive).symm.trans at_)
    exact ⟨listed, domain⟩
  · rintro ⟨listed, domain⟩
    obtain ⟨r, made, equal⟩ := inv.object a v at_
    exact ⟨v, r, listed, domain, made, equal⟩

private theorem RefState.step_sys {s' : RefState} {a : RefAction} (stepped : s.step a = some s') :
    ∃ action, s.sys.step action = some s'.sys := by
  cases a with
  | system a =>
      simp only [RefState.step] at stepped
      split at stepped
      · cases stepped
      · obtain ⟨sys, done, rfl⟩ := Option.map_eq_some_iff.mp stepped
        exact ⟨_, done⟩
  | create w u d nr affine address =>
      simp only [RefState.step] at stepped
      split at stepped
      · obtain ⟨sys, done, rfl⟩ := Option.map_eq_some_iff.mp stepped
        exact ⟨_, done⟩
      · cases stepped
  | wait w n u =>
      simp only [RefState.step] at stepped
      split at stepped
      · split at stepped
        · obtain ⟨sys, done, rfl⟩ := Option.map_eq_some_iff.mp stepped
          exact ⟨_, done⟩
        · cases stepped
      · cases stepped

end Layer

/-! ## Results -/

/-- An event leaves `exit_waiters` because the thread wakes its waiters, or because its
call returns `RV_INTR`. -/
theorem SystemInv.leaves_exit {s s' : State} {a : Action} {e : EventId} {u : Tid}
    (inv : SystemInv s) (stepped : s.step a = some s') (rests : s.el e = some (.waiters (.exit u)))
    (off : s'.el e ≠ some (.waiters (.exit u))) :
    s.status u = .settled ∧ s'.status u = .announced ∧ s'.el e = some .immediate ∨
      s'.result e = some .intr := by
  obtain ⟨_, effect | ⟨fault, _, rfl⟩⟩ := State.step_cases stepped
  · rcases effect.leaves_exit inv rests with stays | ⟨_, announced⟩ | own
    · exact absurd stays off
    · exact .inl announced
    · obtain ⟨w, f, rest, rfl, on, frames, event, call, _⟩ := own
      rcases State.step_act stepped with done | ⟨fault, _, rfl⟩
      · rw [← event] at rests off ⊢
        rcases act_threadWait inv on frames call done with
          ⟨_, _, _, _, stays⟩ | ⟨_, result⟩ | ⟨_, _, gone⟩
        · exact absurd (stays rests) off
        · exact .inr result
        · exact absurd rests gone
      · exact absurd rests off
  · exact absurd rests off

/-- `tc_thread_wait_ref` with a reference after which fewer than `2^32 - 1` threads have
been created in the domain: it answers `RV_THREAD_NA` or waits for the thread that the
reference was made for, and returns `RV_OK` only after that thread has woken its waiters.
Who waits is moved off `exit_waiters` by that, unless it has returned `RV_INTR` before;
`exit_waiters` is empty from then on, and `tc_waitq_unregister` in `tc_thread_free` does not
end the process. -/
theorem thread_wait_exact {workers : Nat} {domainOf : WorkerId → DomainId} {s : RefState}
    (reached : RefReachable workers domainOf s) :
    (∀ w n t u s', s.sys.mode w = .thread t → s.recent (.wait w n u) →
      s.step (.wait w n u) = some s' → s'.sys.result (.auto t n) = some .threadNa ∨
        (∃ saved, s'.sys.frames t = ⟨.thread u, .auto t n, .pushed, saved⟩ :: s.sys.frames t) ∧
          s'.sys.el (.auto t n) = some (.waiters (.exit u))) ∧
    (∀ e u v, s.waits e = some u → s.sys.el e = some (.waiters (.exit v)) → v = u) ∧
    (∀ e u, s.waits e = some u → s.sys.result e = some .ok → (s.sys.status u).exited = true) ∧
    (∀ e u a s', s.sys.el e = some (.waiters (.exit u)) → s.step a = some s' →
      s'.sys.el e ≠ some (.waiters (.exit u)) →
      s.sys.status u = .settled ∧ s'.sys.status u = .announced ∧ s'.sys.el e = some .immediate ∨
        s'.sys.result e = some .intr) ∧
    (∀ u, (s.sys.status u).exited = true → s.sys.events (.waiters (.exit u)) = []) ∧
    (∀ w u, s.sys.mode w = .free u → s.sys.events (.waiters (.exit u)) = []) ∧
    ∀ a, s.sys.act a ≠ some (.error .exitWaitersLeft) := by
  have inv := RefInv.run reached
  refine ⟨?_, ?_, ?_, ?_, fun u => inv.exit.empty inv.system, ?_, ?_⟩
  · intro w n t u s' on near stepped
    simp only [RefState.step, on] at stepped
    split at stepped
    · next t' r same made =>
      cases same
      split at stepped
      · next v at_ =>
        obtain ⟨sys, done, rfl⟩ := Option.map_eq_some_iff.mp stepped
        exact inv.wait_outcome on made at_ near done
      · cases stepped
    · cases stepped
  · intro e u v waits rests
    obtain ⟨⟨t, n, auto⟩, waiting⟩ := inv.waits e u waits
    obtain ⟨_, g, rest', _, frames', event', call'⟩ := inv.system.exit_waiter rests
    rcases waiting with ⟨f, rest, frames, _, call, _⟩ | ⟨rv, result, _⟩
    · obtain ⟨rfl, _⟩ := List.cons.inj (frames.symm.trans frames')
      simpa [call] using call'.symm
    · have none := inv.system.result_none (f := g) (t := e.owner) (by simp [frames'])
      simp [event', result] at none
  · intro e u waits ok
    obtain ⟨_, ⟨f, rest, frames, event, _⟩ | ⟨rv, result, exited⟩⟩ := inv.waits e u waits
    · have none := inv.system.result_none (f := f) (t := e.owner) (by simp [frames])
      simp [event, ok] at none
    · exact exited (Option.some.inj (result.symm.trans ok))
  · intro e u a s' rests stepped off
    obtain ⟨action, done⟩ := RefState.step_sys stepped
    exact inv.system.leaves_exit done rests off
  · intro w u free
    have exiting := ((inv.system.thread u).freeing w (by simp [State.view, placeOf, free])).1
    refine inv.exit.empty inv.system ?_
    rw [show s.sys.status u = .exiting from exiting, Status.exited]
  · intro a failed
    exact inv.exit.act_error inv.system failed rfl

/-- Main thread 0 has waited for thread 1, whose memory then went to thread 2, and has asked
for thread 1 again. -/
def RefState.Reused (s : RefState) : Bool :=
  decide (s.waits (.auto 0 0) = some 1 ∧ s.sys.result (.auto 0 0) = some .ok ∧
    s.object 7 = some 2 ∧ s.waits (.auto 0 2) = some 1 ∧
    s.sys.result (.auto 0 2) = some .threadNa)

set_option maxRecDepth 20000 in
theorem thread_wait_exact_reused : ∃ s : RefState, RefReachable 1 (fun _ => 0) s ∧
    s.Reused = true ∧ (s.sys.status 1).exited = true := by
  obtain ⟨s, run, shown⟩ := Transition.exists_run
    (Transition.guarded RefState.step fun s a => decide (s.recent a)) (.initial 1 fun _ => 0)
    [.create 0 1 0 0 false 7, .system (.user 0 (.threadPost 1)), .wait 0 0 1, .system (.advance 0),
      .system (.leave 0), .system (.runImmediate 0 .any), .system (.enter 0),
      .system (.user 0 .dieUnlink), .system (.die 0), .system (.die 0), .system (.die 0),
      .system (.leave 0), .system (.runImmediate 0 .any), .system (.enter 0), .system (.advance 0),
      .system (.user 0 (.yield 1)), .system (.advance 0), .system (.advance 0), .system (.leave 0),
      .system (.runImmediate 0 .any), .system (.free 0), .system (.runImmediate 0 .any),
      .system (.enter 0), .system (.advance 0), .create 0 2 0 0 false 7, .wait 0 2 1]
    RefState.Reused (by decide)
  have reached : RefReachable 1 (fun _ => 0) s :=
    run.of_guarded.mono fun _ _ near => of_decide_eq_true near
  obtain ⟨_, _, ok, _⟩ := thread_wait_exact reached
  refine ⟨s, reached, shown, ok (.auto 0 0) 1 ?_ ?_⟩
  · simp only [RefState.Reused, decide_eq_true_eq] at shown
    exact shown.1
  · simp only [RefState.Reused, decide_eq_true_eq] at shown
    exact shown.2.1

end Libtcr
