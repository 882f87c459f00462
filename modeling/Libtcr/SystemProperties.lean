import Libtcr.ThreadView
import Libtcr.WaitqProperties
import Libtcr.FdProperties

/-! What a step can do, said once: the outcomes of every action with the guards under
which they happen. -/

set_option autoImplicit false

namespace Libtcr

@[simp] theorem shareOf_mine {t : Tid} {owner : Option Tid} :
    shareOf t owner = .mine ↔ owner = some t := by
  cases owner with
  | none => simp [shareOf]
  | some u => by_cases same : u = t <;> simp [shareOf, same]

@[simp] theorem shareOf_free {t : Tid} {owner : Option Tid} :
    shareOf t owner = .free ↔ owner = none := by
  cases owner with
  | none => simp [shareOf]
  | some u => by_cases same : u = t <;> simp [shareOf, same]

@[simp] theorem shareOf_none {t : Tid} : shareOf t none = .free := rfl

@[simp] theorem shareOf_self {t : Tid} : shareOf t (some t) = .mine := by simp

theorem shareOf_other {t u : Tid} (other : u ≠ t) : shareOf t (some u) = .other := by
  simp [shareOf, other]

namespace State

/-- The outcomes of a call of the library by thread `t` on worker `w`. -/
inductive UserEffect (s : State) (w : WorkerId) (t : Tid) : UserOp → State → Prop where
  | wakeupAll (k : Nat) : UserEffect s w t (.wakeupAll k) (s.tcWaitqWakeupAll (.user k))
  | wakeupOne (k : Nat) : UserEffect s w t (.wakeupOne k) (s.tcWaitqWakeupOne (.user k)).1
  | fire (g : SignalId) : UserEffect s w t (.fire g) (s.tcSignalFire g)
  | subscribe (g : SignalId) (n : Nat) (s₁ : State) (unused : s.life (.sub t n) = .unused)
      (subscribed : s.tcSignalSubscribe w t (.sub t n) g = .ok s₁) :
      UserEffect s w t (.subscribe g n) s₁
  | unsubscribe (u : Tid) (n : Nat) (live : s.life (.sub u n) = .live) :
      UserEffect s w t (.unsubscribe u n) (s.tcSignalUnsubscribe (.sub u n))
  | locked (m : MutexId) (free : s.owner m = none) :
      UserEffect s w t (.trylock m) { s with
        owner := Function.update s.owner m (some t)
        held := Function.update s.held t (Function.update (s.held t) m true) }
  | notLocked (m : MutexId) : UserEffect s w t (.trylock m) s
  | unlock (m : MutexId) (held : s.held t m = true) :
      UserEffect s w t (.unlock m) { (s.tcWaitqWakeupOne (.mutex m)).1 with
        owner := Function.update s.owner m ((s.tcWaitqWakeupOne (.mutex m)).2.map s.tc)
        held := Function.update s.held t (Function.update (s.held t) m false) }
  | threadNew (u : Tid) (d : DomainId) (nr : Int) (affine : Bool) (unused : s.status u = .unused) :
      UserEffect s w t (.threadNew u d nr affine) (s.tcThreadNew u d nr affine)
  | threadPost (u : Tid) (s₁ : State) (created : s.status u = .created)
      (added : s.addEventCr (.self u) .ready u = .ok s₁) :
      UserEffect s w t (.threadPost u) ({ s₁ with
        status := Function.update s₁.status u .posted }.iwiImmediate (s₁.threadDomain u))
  | rearm (f : FdId) : UserEffect s w t (.rearm f) (s.arm f)
  | unregisterFd (f : FdId) :
      UserEffect s w t (.unregisterFd f) { s with errHup := Function.update s.errHup f true }
  | yield (n : Nat) (s₁ : State) (unused : s.life (.auto t n) = .unused)
      (added : (s.tcEventInit (.auto t n) (s.workerDomain w)).addEventCr (.auto t n) .ready t =
        .ok s₁) :
      UserEffect s w t (.yield n) (s₁.pushFrame t .yield (.auto t n) .queued (s.eventStack t))
  | waitFdFailed (n : Nat) (f : FdId) (mask : Mask) (priority ctl : Bool) (s₁ : State)
      (unused : s.life (.auto t n) = .unused)
      (refused : AddEventFd (s.tcEventInit (.auto t n) (s.workerDomain w)) t (.auto t n) f
        (mask ||| EPOLLONESHOT) (if priority then .priority else .ready) false s₁) :
      UserEffect s w t (.waitFd n f mask priority ctl) (s₁.endEvent (.auto t n) .failed)
  | waitFd (n : Nat) (f : FdId) (mask : Mask) (priority ctl : Bool) (s₁ : State)
      (unused : s.life (.auto t n) = .unused)
      (added : AddEventFd (s.tcEventInit (.auto t n) (s.workerDomain w)) t (.auto t n) f
        (mask ||| EPOLLONESHOT) (if priority then .priority else .ready) true s₁) :
      UserEffect s w t (.waitFd n f mask priority ctl)
        (s₁.pushFrame t (.fd f) (.auto t n) .queued (s.eventStack t))
  | waitqWait (n k : Nat) (s₁ : State) (unused : s.life (.auto t n) = .unused)
      (prepared : (s.tcEventInit (.auto t n) (s.workerDomain w)).tcWaitqPrepareToWait w t
        (.auto t n) (.user k) = .ok s₁) :
      UserEffect s w t (.waitqWait n k)
        (s₁.pushFrame t (.waitq k) (.auto t n) .pushed (s.eventStack t))
  | threadWait (n : Nat) (u : Tid) (d : DomainId) (id : BitVec 32) (s₁ : State)
      (unused : s.life (.auto t n) = .unused)
      (prepared : (s.tcEventInit (.auto t n) (s.workerDomain w)).tcWaitqPrepareToWait w t
        (.auto t n) (.exit u) = .ok s₁) :
      UserEffect s w t (.threadWait n u d id)
        (s₁.pushFrame t (.thread u) (.auto t n) .pushed (s.eventStack t))
  | threadNa (n : Nat) (u : Tid) (d : DomainId) (id : BitVec 32)
      (unused : s.life (.auto t n) = .unused) :
      UserEffect s w t (.threadWait n u d id)
        ((s.tcEventInit (.auto t n) (s.workerDomain w)).endEvent (.auto t n) .threadNa)
  | waitEvent (n k : Nat) (unused : s.life (.auto t n) = .unused) :
      UserEffect s w t (.waitEvent n k)
        ((s.tcEventInit (.auto t n) (s.workerDomain w)).pushFrame t (.cond k) (.auto t n) .test0
          (s.eventStack t))
  | waitEventLoop (n k : Nat) (unused : s.life (.auto t n) = .unused) :
      UserEffect s w t (.waitEventLoop n k)
        ((s.tcEventInit (.auto t n) (s.workerDomain w)).pushFrame t (.cond k) (.auto t n) .prep
          (s.eventStack t))
  | lock (n : Nat) (m : MutexId) (unused : s.life (.auto t n) = .unused)
      (foreign : s.owner m ≠ some t) :
      UserEffect s w t (.lock n m)
        ((s.tcEventInit (.auto t n) (s.workerDomain w)).pushFrame t (.mutex m) (.auto t n) .cas0
          (s.eventStack t))
  | dieUnlink (empty : s.frames t = []) (alive : s.status t = .alive) :
      UserEffect s w t .dieUnlink { s with
        status := Function.update s.status t .unlinked
        listed := Function.update s.listed t false }
  | exitMain (empty : s.frames t = []) :
      UserEffect s w t .exitMain
        ({ s with mode := Function.update s.mode w .off }.iwiImmediate (s.workerDomain w))

section User

variable {s s' : State} {w : WorkerId} {t : Tid}

private theorem trylock_ok {m : MutexId} (done : s.userStep w t (.trylock m) = some (.ok s')) :
    UserEffect s w t (.trylock m) s' := by
  simp only [userStep, casOwner] at done
  split at done
  · next s₁ taken =>
    split at taken
    · next free =>
      cases taken
      cases done
      exact .locked m free
    · cases taken
  · cases done
    exact .notLocked m

private theorem unlock_ok {m : MutexId} (done : s.userStep w t (.unlock m) = some (.ok s')) :
    UserEffect s w t (.unlock m) s' := by
  simp only [userStep, tcMutexUnlock] at done
  split at done
  · next held =>
    split at done
    · cases done
    · cases done
      exact .unlock m held
  · cases done

private theorem threadPost_ok {u : Tid} (done : s.userStep w t (.threadPost u) = some (.ok s')) :
    UserEffect s w t (.threadPost u) s' := by
  simp only [userStep] at done
  split at done
  · next created =>
    split at done
    · cases done
    · next s₁ added =>
      cases done
      exact .threadPost u s₁ created added
  · cases done

private theorem unregisterFd_ok {f : FdId}
    (done : s.userStep w t (.unregisterFd f) = some (.ok s')) :
    UserEffect s w t (.unregisterFd f) s' := by
  simp only [userStep, tcFdUnregister] at done
  split at done
  · cases done
  · split at done
    · cases done
    · cases done
      exact .unregisterFd f

private theorem yield_ok {n : Nat} (done : s.userStep w t (.yield n) = some (.ok s')) :
    UserEffect s w t (.yield n) s' := by
  simp only [userStep] at done
  split at done
  · next unused =>
    split at done
    · cases done
    · next s₁ added =>
      cases done
      exact .yield n s₁ unused added
  · cases done

private theorem waitFd_ok {n : Nat} {f : FdId} {mask : Mask} {priority ctl : Bool}
    (done : s.userStep w t (.waitFd n f mask priority ctl) = some (.ok s')) :
    UserEffect s w t (.waitFd n f mask priority ctl) s' := by
  simp only [userStep] at done
  split at done
  · next ready =>
    split at done
    · cases done
    · next s₁ added =>
      cases done
      exact .waitFdFailed n f mask priority ctl s₁ ready.1 (addEventFd_ok added)
    · next s₁ added =>
      cases done
      exact .waitFd n f mask priority ctl s₁ ready.1 (addEventFd_ok added)
  · cases done

private theorem waitqWait_ok {n k : Nat} (done : s.userStep w t (.waitqWait n k) = some (.ok s')) :
    UserEffect s w t (.waitqWait n k) s' := by
  simp only [userStep] at done
  split at done
  · next unused =>
    split at done
    · cases done
    · next s₁ prepared =>
      cases done
      exact .waitqWait n k s₁ unused prepared
  · cases done

private theorem threadWait_ok {n : Nat} {u : Tid} {d : DomainId} {id : BitVec 32}
    (done : s.userStep w t (.threadWait n u d id) = some (.ok s')) :
    UserEffect s w t (.threadWait n u d id) s' := by
  simp only [userStep] at done
  split at done
  · next unused =>
    split at done
    · split at done
      · cases done
      · next s₁ prepared =>
        cases done
        exact .threadWait n u d id s₁ unused prepared
    · cases done
      exact .threadNa n u d id unused
  · cases done

private theorem lock_ok {n : Nat} {m : MutexId}
    (done : s.userStep w t (.lock n m) = some (.ok s')) :
    UserEffect s w t (.lock n m) s' := by
  simp only [userStep] at done
  split at done
  · next unused =>
    split at done
    · cases done
    · cases done
      exact .lock n m unused (by assumption)
  · cases done

private theorem userStep_ok {op : UserOp} (done : s.userStep w t op = some (.ok s')) :
    UserEffect s w t op s' := by
  cases op with
  | wakeupAll k =>
      cases done
      exact .wakeupAll k
  | wakeupOne k =>
      cases done
      exact .wakeupOne k
  | fire g =>
      cases done
      exact .fire g
  | subscribe g n =>
      simp only [userStep] at done
      split at done
      · exact .subscribe g n s' (by assumption) (Option.some.inj done)
      · cases done
  | unsubscribe u n =>
      simp only [userStep] at done
      split at done
      · cases done
        exact .unsubscribe u n (by assumption)
      · cases done
  | trylock m => exact trylock_ok done
  | unlock m => exact unlock_ok done
  | threadNew u d nr affine =>
      simp only [userStep] at done
      split at done
      · cases done
        exact .threadNew u d nr affine (by assumption)
      · cases done
  | threadPost u => exact threadPost_ok done
  | rearm f =>
      simp only [userStep] at done
      split at done
      · cases done
      · cases done
        exact .rearm f
  | unregisterFd f => exact unregisterFd_ok done
  | yield n => exact yield_ok done
  | waitFd n f mask priority ctl => exact waitFd_ok done
  | waitqWait n k => exact waitqWait_ok done
  | threadWait n u d id => exact threadWait_ok done
  | waitEvent n k =>
      simp only [userStep] at done
      split at done
      · cases done
        exact .waitEvent n k (by assumption)
      · cases done
  | waitEventLoop n k =>
      simp only [userStep] at done
      split at done
      · cases done
        exact .waitEventLoop n k (by assumption)
      · cases done
  | lock n m => exact lock_ok done
  | dieUnlink =>
      simp only [userStep] at done
      split at done
      · next ready =>
        cases done
        exact .dieUnlink ready.1 ready.2.1
      · cases done
  | exitMain =>
      simp only [userStep] at done
      split at done
      · next ready =>
        cases done
        exact .exitMain ready.1
      · cases done

end User

/-- The outcomes of a step of the top frame `f` of thread `t` on worker `w`. -/
inductive FrameEffect (s : State) (w : WorkerId) (t : Tid) (f : Frame) : State → Prop where
  | pushed (pc : f.pc = .queued) :
      FrameEffect s w t f ((s.tcEventOnTcStack f.e t).setFrame t
        { f with pc := .pushed, saved := s.eventStack t })
  | scheduled (s₁ : State) (pc : f.pc = .pushed) (scheduled : TcScheduler s w t f s₁) :
      FrameEffect s w t f s₁
  | yieldIntr (pc : f.pc = .woke) (call : f.call = .yield) (woken : s.wokenByEvent w ≠ some f.e)
      (on : s.el f.e ≠ none) (unlocked : ∀ g, s.el f.e = some (.fd g) → s.fdLock g = false) :
      FrameEffect s w t f ({ s.detachEvent f.e with
        eventStack := Function.update s.eventStack t (s.nextInStack f.e) }.returnIntr t f
          (s.wokenByEvent w))
  | yieldDone (pc : f.pc = .woke) (call : f.call = .yield) (woken : s.wokenByEvent w = some f.e) :
      FrameEffect s w t f ({ s with
        wokenByEvent := Function.update s.wokenByEvent w none
        eventStack := Function.update s.eventStack t (s.nextInStack f.e) }.returnCall t f .ok)
  | fdIntr (fd : FdId) (pc : f.pc = .woke) (call : f.call = .fd fd)
      (woken : s.wokenByEvent w ≠ some f.e) (on : s.el f.e ≠ none)
      (unlocked : ∀ g, s.el f.e = some (.fd g) → s.fdLock g = false) :
      FrameEffect s w t f ({ s.detachEvent f.e with
        wokenByEvent := Function.update s.wokenByEvent w none
        eventStack := Function.update s.eventStack t (s.nextInStack f.e)
        fdEpEvents := Function.update s.fdEpEvents fd 0 }.returnIntr t f (s.wokenByEvent w))
  | fdDone (fd : FdId) (rv : Rv) (pc : f.pc = .woke) (call : f.call = .fd fd)
      (woken : s.wokenByEvent w = some f.e) (notIntr : rv ≠ .intr) :
      FrameEffect s w t f ({ s with
        wokenByEvent := Function.update s.wokenByEvent w none
        eventStack := Function.update s.eventStack t (s.nextInStack f.e)
        fdEpEvents := Function.update s.fdEpEvents fd 0 }.returnCall t f rv)
  | interrupted (s₁ : State) (pc : f.pc = .woke) (queue : f.call.isLeaf = false)
      (finished : FinishWait s w t f.e true s₁) :
      FrameEffect s w t f (s₁.returnIntr t f (s.wokenByEvent w))
  | again (s₁ : State) (pc : f.pc = .woke) (queue : f.call.isLeaf = false)
      (finished : FinishWait s w t f.e false s₁) :
      FrameEffect s w t f (s₁.setFrame t { f with pc := .prep })
  | woken (s₁ : State) (pc : f.pc = .woke) (queue : f.call.isLeaf = false)
      (notMutex : ∀ m, f.call ≠ .mutex m) (finished : FinishWait s w t f.e false s₁) :
      FrameEffect s w t f (s₁.returnCall t f .ok)
  | prepared (wq : Waitq) (s₁ : State) (pc : f.pc = .prep) (queue : f.call.isLeaf = false)
      (home : f.call.home = .waiters wq) (prepared : s.tcWaitqPrepareToWait w t f.e wq = .ok s₁) :
      FrameEffect s w t f (s₁.setFrame t
        { f with pc := f.call.afterPrepare, saved := s.eventStack t })
  | held (s₁ : State) (rv : Bool) (pc : f.pc = .holds) (finished : FinishWait s w t f.e rv s₁) :
      FrameEffect s w t f (s₁.returnCall t f .ok)
  | acquired (m : MutexId) (pc : f.pc = .cas0 ∨ f.pc = .cas1) (call : f.call = .mutex m)
      (free : s.owner m = none) :
      FrameEffect s w t f ({ s with
        owner := Function.update s.owner m (some t) }.returnCall t f .ok)
  | owned (m : MutexId) (pc : f.pc = .own1) (call : f.call = .mutex m)
      (mine : s.owner m = some t) :
      FrameEffect s w t f (s.returnCall t f .ok)
  | taken (m : MutexId) (pc : f.pc = .cas) (call : f.call = .mutex m) (free : s.owner m = none) :
      FrameEffect s w t f ({ s with
        owner := Function.update s.owner m (some t) }.setFrame t { f with pc := .holds })
  | turned (pc : Pc) (turned : Turn (s.view t) f.call f.pc pc) :
      FrameEffect s w t f (s.setFrame t { f with pc := pc })

private theorem yieldWoke_effect {s s' : State} {w : WorkerId} {t : Tid} {f : Frame}
    (pc : f.pc = .woke) (call : f.call = .yield) (done : s.yieldWoke w t f = some s') :
    FrameEffect s w t f s' := by
  unfold yieldWoke at done
  dsimp only at done
  split at done
  · next woken =>
    obtain ⟨s₁, removed, rfl⟩ := Option.map_eq_some_iff.mp done
    obtain ⟨on, unlocked, rfl⟩ := removeEvent_some removed
    exact .yieldIntr pc call woken on unlocked
  · next woken =>
    cases done
    exact .yieldDone pc call (by simpa using woken)

private theorem waitFdWoke_effect {s s' : State} {w : WorkerId} {t : Tid} {f : Frame} {fd : FdId}
    (pc : f.pc = .woke) (call : f.call = .fd fd) (done : s.waitFdWoke w t f fd = some s') :
    FrameEffect s w t f s' := by
  unfold waitFdWoke at done
  dsimp only at done
  split at done
  · next woken =>
    obtain ⟨s₁, removed, rfl⟩ := Option.map_eq_some_iff.mp done
    obtain ⟨on, unlocked, rfl⟩ := removeEvent_some removed
    exact .fdIntr fd pc call woken on unlocked
  · next woken =>
    cases done
    refine .fdDone fd _ pc call (by simpa using woken) ?_
    split <;> simp

private theorem waitqWoke_effect {s s' : State} {w : WorkerId} {t : Tid} {f : Frame} {loop : Bool}
    (pc : f.pc = .woke) (queue : f.call.isLeaf = false)
    (notMutex : loop = false → ∀ m, f.call ≠ .mutex m)
    (done : s.waitqWoke w t f loop = .ok s') : FrameEffect s w t f s' := by
  unfold waitqWoke at done
  split at done
  · cases done
  · next s₁ finished =>
    cases done
    exact .interrupted s₁ pc queue (tcWaitqFinishWait_ok finished)
  · next s₁ finished =>
    cases done
    cases loop with
    | true => exact .again s₁ pc queue (tcWaitqFinishWait_ok finished)
    | false => exact .woken s₁ pc queue (notMutex rfl) (tcWaitqFinishWait_ok finished)

private theorem prepareFrame_effect {s s' : State} {w : WorkerId} {t : Tid} {f : Frame}
    {wq : Waitq} (pc : f.pc = .prep) (queue : f.call.isLeaf = false)
    (home : f.call.home = .waiters wq)
    (done : s.prepareFrame w t f wq f.call.afterPrepare = .ok s') : FrameEffect s w t f s' := by
  unfold prepareFrame at done
  split at done
  · cases done
  · next s₁ prepared =>
    cases done
    exact .prepared wq s₁ pc queue home prepared

theorem advanceFrame_ok {s s' : State} {w : WorkerId} {t : Tid} {f : Frame}
    (done : s.advanceFrame w t f = some (.ok s')) : FrameEffect s w t f s' := by
  obtain ⟨call, e, pc, saved⟩ := f
  cases pc with
  | queued =>
      cases done
      exact .pushed rfl
  | pushed => exact .scheduled s' rfl (tcScheduler_ok (Option.some.inj done))
  | asleep => cases call <;> cases done
  | woke =>
      cases call with
      | yield =>
          obtain ⟨s₁, woke, same⟩ := Option.map_eq_some_iff.mp done
          cases same
          exact yieldWoke_effect rfl rfl woke
      | fd fd =>
          obtain ⟨s₁, woke, same⟩ := Option.map_eq_some_iff.mp done
          cases same
          exact waitFdWoke_effect rfl rfl woke
      | waitq k => exact waitqWoke_effect rfl rfl (by simp) (Option.some.inj done)
      | thread u => exact waitqWoke_effect rfl rfl (by simp) (Option.some.inj done)
      | cond k => exact waitqWoke_effect rfl rfl (by simp) (Option.some.inj done)
      | mutex m => exact waitqWoke_effect rfl rfl (by simp) (Option.some.inj done)
  | test0 => cases call <;> cases done
  | prep =>
      cases call with
      | cond k => exact prepareFrame_effect rfl rfl rfl (Option.some.inj done)
      | mutex m => exact prepareFrame_effect rfl rfl rfl (Option.some.inj done)
      | yield => cases done
      | fd fd => cases done
      | waitq k => cases done
      | thread u => cases done
  | test => cases call <;> cases done
  | holds =>
      simp only [advanceFrame] at done
      split at done
      · cases done
      · next rv s₁ finished =>
        cases done
        exact .held s₁ rv rfl (tcWaitqFinishWait_ok finished)
  | cas0 =>
      cases call with
      | mutex m =>
          simp only [advanceFrame, casOwner] at done
          split at done
          · next s₁ swapped =>
            split at swapped
            · next free =>
              cases swapped
              cases done
              exact .acquired m (.inl rfl) rfl free
            · cases swapped
          · cases done
            exact .turned _ .taken
      | _ => cases done
  | own1 =>
      cases call with
      | mutex m =>
          simp only [advanceFrame] at done
          split at done
          · next mine =>
            cases done
            exact .owned m rfl rfl mine
          · next foreign =>
            cases done
            exact .turned _ (.notOwn1 (by simpa [view] using foreign))
      | _ => cases done
  | cas1 =>
      cases call with
      | mutex m =>
          simp only [advanceFrame, casOwner] at done
          split at done
          · next s₁ swapped =>
            split at swapped
            · next free =>
              cases swapped
              cases done
              exact .acquired m (.inr rfl) rfl free
            · cases swapped
          · cases done
            exact .turned _ .taken1
      | _ => cases done
  | own =>
      cases call with
      | mutex m =>
          cases done
          refine .turned _ ?_
          split
          · next mine => exact .isOwn (by simpa [view] using mine)
          · next foreign => exact .notOwn (by simpa [view] using foreign)
      | _ => cases done
  | cas =>
      cases call with
      | mutex m =>
          simp only [advanceFrame, casOwner] at done
          split at done
          · next s₁ swapped =>
            split at swapped
            · next free =>
              cases swapped
              cases done
              exact .taken m rfl rfl free
            · cases swapped
          · next swapped =>
            cases done
            refine .turned _ (.takenLoop ?_)
            simpa [view] using swapped
      | _ => cases done

private theorem conditionFrame_ok {s s' : State} {t : Tid} {f : Frame} {value : Bool}
    (done : s.conditionFrame t f value = some (.ok s')) :
    (∃ k, f.call = .cond k ∧ f.pc = .test0 ∧ s' = s.returnCall t f .ok) ∨
      ∃ pc, f.inCondition = true ∧ Turn (s.view t) f.call f.pc pc ∧
        s' = s.setFrame t { f with pc := pc } := by
  obtain ⟨call, e, pc, saved⟩ := f
  cases call with
  | cond k =>
      cases pc with
      | test0 =>
          cases value with
          | true =>
              cases done
              exact .inl ⟨k, rfl, rfl, rfl⟩
          | false =>
              cases done
              exact .inr ⟨_, rfl, .notYet, rfl⟩
      | test =>
          cases value with
          | true =>
              cases done
              exact .inr ⟨_, rfl, .isTrue, rfl⟩
          | false =>
              cases done
              exact .inr ⟨_, rfl, .isFalse, rfl⟩
      | _ => cases done
  | _ => cases pc <;> cases done

inductive DieEffect (s : State) (w : WorkerId) (t : Tid) : State → Prop where
  | settled (unlinked : s.status t = .unlinked) :
      DieEffect s w t { s with status := Function.update s.status t .settled }
  | announced (settled : s.status t = .settled) :
      DieEffect s w t { s.tcWaitqWakeupAll (.exit t) with
        status := Function.update s.status t .announced }
  | exits (s₁ : State) (announced : s.status t = .announced)
      (added : s.addEventCr (.self t) .exiting t = .ok s₁) :
      DieEffect s w t ({ s₁ with
        status := Function.update s₁.status t .exiting
        mode := Function.update s₁.mode w (.leave t) }.iwiImmediate (s₁.workerDomain w))

private theorem signalCancelPending_ok {s s' : State} {t : Tid}
    (cancelled : s.signalCancelPending t = .ok s') : s' = s := by
  unfold signalCancelPending at cancelled
  split at cancelled
  · cases cancelled
  · split at cancelled
    · cases cancelled
    · exact (Except.ok.inj cancelled).symm

private theorem dieStep_ok {s s' : State} {w : WorkerId} {t : Tid}
    (done : s.dieStep w t = some (.ok s')) : DieEffect s w t s' := by
  unfold dieStep at done
  split at done
  · next unlinked =>
    split at done
    · split at done
      · cases done
      · next s₁ cancelled =>
        obtain rfl := signalCancelPending_ok cancelled
        split at done <;> cases done
    · cases done
      exact .settled unlinked
  · next settled =>
    cases done
    exact .announced settled
  · next announced =>
    split at done
    · cases done
    · next s₁ added =>
      cases done
      exact .exits s₁ announced added
  · cases done

def served (s : State) (w : WorkerId) (tcfd : Option FdId) : State :=
  { s with wokenByTcfd := Function.update s.wokenByTcfd w tcfd }

inductive Effect (s : State) : Action → State → Prop where
  | searched (w : WorkerId) (scan : Scan) (sched : s.mode w = .sched) :
      Effect s (.runImmediate w scan) (s.served w none)
  | queued (w : WorkerId) (scan : Scan) (e : EventId) (s₁ : State) (sched : s.mode w = .sched)
      (found : e ∈ s.events .immediate) (ran : RunOrQueue (s.served w none) w e none s₁) :
      Effect s (.runImmediate w scan) s₁
  | reaped (w : WorkerId) (scan : Scan) (e : EventId) (t : Tid) (s₁ : State)
      (sched : s.mode w = .sched) (found : e ∈ s.events .immediate)
      (exiting : s.flags e = .exiting) (ran : RunOrQueue (s.served w none) w e (some t) s₁) :
      Effect s (.runImmediate w scan) { s₁ with mode := Function.update s₁.mode w (.free t) }
  | chosen (w : WorkerId) (scan : Scan) (e : EventId) (t : Tid) (s₁ : State)
      (immediateFd : DomainId → Nat) (sched : s.mode w = .sched)
      (found : e ∈ s.events .immediate) (stays : s.flags e ≠ .exiting)
      (ran : RunOrQueue (s.served w none) w e (some t) s₁) :
      Effect s (.runImmediate w scan) { s₁ with
        immediateFd := immediateFd
        mode := Function.update s₁.mode w (.enter t) }
  | reported (w : WorkerId) (f : FdId) (em : Mask) (sched : s.mode w = .sched)
      (unlocked : s.fdLock f = false) : Effect s (.report w f em) (s.handleReport w f em)
  | reportQueued (w : WorkerId) (f : FdId) (e : EventId) (s₁ : State)
      (report : s.mode w = .report f e) (live : s.life e = .live)
      (ran : RunOrQueue (s.served w (some f)) w e none s₁) :
      Effect s (.runReported w) { s₁ with
        fdLock := Function.update s₁.fdLock f false
        mode := Function.update s₁.mode w .sched }
  | reportChosen (w : WorkerId) (f : FdId) (e : EventId) (t : Tid) (s₁ : State)
      (report : s.mode w = .report f e) (live : s.life e = .live)
      (ran : RunOrQueue (s.served w (some f)) w e (some t) s₁) :
      Effect s (.runReported w) { s₁ with
        fdLock := Function.update s₁.fdLock f false
        mode := Function.update s₁.mode w (.enter t) }
  | entered (w : WorkerId) (t : Tid) (enter : s.mode w = .enter t) :
      Effect s (.enter w) (s.enterThread w t)
  | left (w : WorkerId) (t : Tid) (leave : s.mode w = .leave t) :
      Effect s (.leave w) { s with
        runningLock := Function.update s.runningLock t false
        mode := Function.update s.mode w .sched }
  | freed (w : WorkerId) (t : Tid) (free : s.mode w = .free t) :
      Effect s (.free w) ({ s with
        status := Function.update s.status t .dead
        life := Function.update s.life (.self t) .dead
        mode := Function.update s.mode w .sched }.iwiImmediate (s.threadDomain t))
  | aio (w : WorkerId) (k : Nat) (sched : s.mode w = .sched) :
      Effect s (.aio w k) (s.tcWaitqWakeupAll (.user k))
  | user (w : WorkerId) (t : Tid) (op : UserOp) (s' : State) (on : s.mode w = .thread t)
      (user : s.inUserCode t = true) (effect : UserEffect s w t op s') : Effect s (.user w op) s'
  | returned (w : WorkerId) (value : Bool) (t : Tid) (f : Frame) (rest : List Frame) (k : Nat)
      (on : s.mode w = .thread t) (frames : s.frames t = f :: rest) (call : f.call = .cond k)
      (pc : f.pc = .test0) : Effect s (.condition w value) (s.returnCall t f .ok)
  | evaluated (w : WorkerId) (value : Bool) (t : Tid) (f : Frame) (rest : List Frame) (pc : Pc)
      (on : s.mode w = .thread t) (frames : s.frames t = f :: rest)
      (condition : f.inCondition = true) (turned : Turn (s.view t) f.call f.pc pc) :
      Effect s (.condition w value) (s.setFrame t { f with pc := pc })
  | advanced (w : WorkerId) (t : Tid) (f : Frame) (rest : List Frame) (s' : State)
      (on : s.mode w = .thread t) (frames : s.frames t = f :: rest)
      (effect : FrameEffect s w t f s') : Effect s (.advance w) s'
  | died (w : WorkerId) (t : Tid) (s' : State) (on : s.mode w = .thread t)
      (empty : s.frames t = []) (effect : DieEffect s w t s') : Effect s (.die w) s'

private theorem runImmediate_ok {s s' : State} {w : WorkerId} {scan : Scan}
    (sched : s.mode w = .sched) (done : s.runImmediate w scan = .ok s') :
    Effect s (.runImmediate w scan) s' := by
  unfold runImmediate at done
  dsimp only at done
  split at done
  · cases done
  · cases done
    exact .searched w scan sched
  · next e searched =>
    have found := searchImmediate_mem searched
    split at done
    · cases done
    · next s₁ ran =>
      cases done
      exact .queued w scan e _ sched found (runOrQueue_ok ran)
    · next t s₁ ran =>
      split at done
      · next exiting =>
        cases done
        exact .reaped w scan e t s₁ sched found exiting (runOrQueue_ok ran)
      · next stays =>
        cases done
        exact .chosen w scan e t s₁ _ sched found stays (runOrQueue_ok ran)

private theorem runReported_ok {s s' : State} {w : WorkerId} {f : FdId} {e : EventId}
    (report : s.mode w = .report f e) (done : s.runReported w f e = .ok s') :
    Effect s (.runReported w) s' := by
  unfold runReported at done
  split at done
  · cases done
  · next live =>
    split at done
    · cases done
    · next chosen s₁ ran =>
      cases done
      have live : s.life e = .live := by simpa using live
      cases chosen with
      | none => exact .reportQueued w f e s₁ report live (runOrQueue_ok ran)
      | some t => exact .reportChosen w f e t s₁ report live (runOrQueue_ok ran)

private theorem tcThreadFree_ok {s s' : State} {w : WorkerId} {t : Tid} (free : s.mode w = .free t)
    (done : s.tcThreadFree w t = .ok s') : Effect s (.free w) s' := by
  unfold tcThreadFree at done
  split at done
  · cases done
  · cases done
    exact .freed w t free

theorem act_ok {s s' : State} {a : Action} (done : s.act a = some (.ok s')) : Effect s a s' := by
  cases a with
  | runImmediate w scan =>
      simp only [act] at done
      split at done
      · exact runImmediate_ok (by assumption) (Option.some.inj done)
      · cases done
  | report w f em =>
      simp only [act] at done
      split at done
      · next ready =>
        cases done
        exact .reported w f em ready.1 ready.2
      · cases done
  | runReported w =>
      simp only [act] at done
      split at done
      · next report => exact runReported_ok report (Option.some.inj done)
      · cases done
  | enter w =>
      simp only [act] at done
      split at done
      · next t enter =>
        split at done
        · cases done
        · cases done
          exact .entered w t enter
      · cases done
  | leave w =>
      simp only [act] at done
      split at done
      · next t leave =>
        cases done
        exact .left w t leave
      · cases done
  | free w =>
      simp only [act] at done
      split at done
      · next t free =>
        split at done
        · cases done
        · exact tcThreadFree_ok free (Option.some.inj done)
      · cases done
  | aio w k =>
      simp only [act] at done
      split at done
      · next sched =>
        cases done
        exact .aio w k sched
      · cases done
  | user w op =>
      simp only [act] at done
      split at done
      · next t on =>
        split at done
        · next user => exact .user w t op s' on user (userStep_ok done)
        · cases done
      · cases done
  | condition w value =>
      simp only [act] at done
      split at done
      · next t on =>
        split at done
        · next f rest frames =>
          rcases conditionFrame_ok done with ⟨k, call, pc, rfl⟩ | ⟨pc, condition, turned, rfl⟩
          · exact .returned w value t f rest k on frames call pc
          · exact .evaluated w value t f rest pc on frames condition turned
        · cases done
      · cases done
  | advance w =>
      simp only [act] at done
      split at done
      · next t on =>
        split at done
        · next f rest frames => exact .advanced w t f rest s' on frames (advanceFrame_ok done)
        · cases done
      · cases done
  | die w =>
      simp only [act] at done
      split at done
      · next t on =>
        split at done
        · next empty => exact .died w t s' on empty (dieStep_ok done)
        · cases done
      · cases done

end State

end Libtcr
