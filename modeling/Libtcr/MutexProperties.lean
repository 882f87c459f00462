import Libtcr.StepProperties
import Libtcr.FaultProperties

/-! Mutual exclusion, the hand-over of a mutex, and what an interrupted
`tc_mutex_lock` leaves behind. -/

set_option autoImplicit false

namespace Libtcr

open State

/-! ## Results of calls -/

theorem SystemInv.ended {s : State} (inv : SystemInv s) {t : Tid} {n : Nat} {rv : Rv}
    (result : s.result (.auto t n) = some rv) : s.life (.auto t n) = .dead := by
  by_contra lives
  have none := inv.results t n (by simpa [State.view] using lives)
  simp [State.view, result] at none

/-- An event whose call has returned is on no list from then on, and the result stays. -/
theorem SystemInv.returned {s s' : State} (inv : SystemInv s)
    (run : Transition.Run State.step Transition.always s s') {t : Tid} {n : Nat}
    (ended : s.life (.auto t n) = .dead) :
    s'.el (.auto t n) = none ∧ s'.result (.auto t n) = s.result (.auto t n) := by
  have later : (s'.view t).life (.auto t n) = .dead ∧
      (s'.view t).result (.auto t n) = s.result (.auto t n) := by
    refine inv.view_later run t (fun v => v.life (.auto t n) = .dead ∧
      v.result (.auto t n) = s.result (.auto t n)) ?_ fun _ _ inv before _ step => ?_
    · simpa [State.view] using ended
    · obtain ⟨life, result⟩ := step.returned inv.thread before.1
      exact ⟨life, result.trans before.2⟩
  refine ⟨?_, by simpa [State.view] using later.2⟩
  by_contra on
  have live := ((inv.later run).thread t).live (.auto t n) (by simpa [State.view, State.el] using on)
  simp [later.1] at live

/-! ## The hand-over -/

/-- Thread `t` owns the mutex `m` inside its call of `tc_mutex_lock` with frame `f`. -/
structure Granted (s : State) (t : Tid) (m : MutexId) (f : Frame) : Prop where
  top : ∃ rest, s.frames t = f :: rest
  call : f.call = .mutex m
  owner : s.owner m = some t

/-- How many steps of its own thread a call of `tc_mutex_lock` that has been given the
mutex takes at most before its last one. -/
def Pc.stepsLeft : Pc → Nat
  | .holds => 0
  | .own => 1
  | .prep => 2
  | .woke => 3
  | .asleep => 4
  | .pushed => 5
  | _ => 6

theorem returnCall_result (s : State) (t : Tid) (f : Frame) (rv : Rv) :
    (s.returnCall t f rv).result f.e = some rv := by
  simp [State.returnCall, State.endEvent]

theorem Granted.setFrame {s : State} {t : Tid} {m : MutexId} {g : Frame} (call : g.call = .mutex m)
    (owner : s.owner m = some t) : Granted (s.setFrame t g) t m g where
  top := ⟨(s.frames t).tail, by simp [State.setFrame]⟩
  call := call
  owner := owner

theorem Turn.stepsLeft {v : View} {f : Frame} {m : MutexId} {pc : Pc}
    (turned : Turn v f.call f.pc pc) (call : f.call = .mutex m) (locking : Locking v m f)
    (mine : v.mutex m = .mine) : pc.stepsLeft < f.pc.stepsLeft := by
  obtain ⟨call', e, before, saved⟩ := f
  subst call
  cases turned with
  | taken => exact absurd mine locking
  | notOwn1 foreign => exact absurd mine foreign
  | taken1 => exact absurd mine locking
  | isOwn _ => simp [Pc.stepsLeft]
  | notOwn foreign => exact absurd mine foreign
  | takenLoop _ => simp [Pc.stepsLeft]

section Hand

variable {s s' : State} {w : WorkerId} {t : Tid} {m : MutexId} {f : Frame}

theorem Granted.locking (granted : Granted s t m f) (inv : SystemInv s) :
    Locking (s.view t) m f := by
  obtain ⟨rest, frames⟩ := granted.top
  exact (inv.mutex t).locking f rest m (by simpa [State.view] using frames) granted.call

theorem Granted.mine (granted : Granted s t m f) : (s.view t).mutex m = .mine := by
  simpa [State.view] using granted.owner

theorem Granted.active (granted : Granted s t m f) (inv : SystemInv s) (pc : f.pc = .woke)
    (on : s.el f.e ≠ none) : s.el f.e = some (.pending t) ∨ s.el f.e = some .immediate := by
  obtain ⟨rest, frames⟩ := granted.top
  have member : f ∈ (s.view t).frames := by simp [State.view, frames]
  obtain ⟨⟨n, auto⟩, _⟩ := (inv.thread t).frame f member
  have here : (s.view t).el f.e = s.el f.e := by simp [State.view, State.el, auto]
  have locking := granted.locking inv
  simp only [Locking, pc, granted.mine, reduceCtorEq, and_false, and_true, false_or] at locking
  rcases ((inv.thread t).located f member).placed (here ▸ on) with home | active | pending
  · exact absurd home locking.2
  · exact .inr (here ▸ active)
  · exact .inl (here ▸ pending)

/-- What woke a call: its own event, which is then on no list, or a signal while its event
is still on a list. -/
theorem delivered_of_woke {rest : List Frame} (inv : SystemInv s) (on : s.mode w = .thread t)
    (frames : s.frames t = f :: rest) (pc : f.pc = .woke) :
    s.wokenByEvent w = some f.e ∧ s.flags f.e ≠ .signal ∧ s.el f.e = none ∨
      (∃ n, s.wokenByEvent w = some (.sub t n) ∧ s.flags (.sub t n) = .signal) ∧
        s.el f.e ≠ none := by
  have top := view_top on frames
  obtain ⟨⟨k, auto⟩, _⟩ := (inv.thread t).frame f (by simp [State.view, frames])
  obtain ⟨y, woken, ⟨rfl, off⟩ | ⟨⟨n, rfl⟩, placed⟩⟩ :=
    (inv.thread t).delivered w _ f rest top.2 (.inr ⟨top.1, pc⟩)
  · refine .inl ⟨woken, ?_, ?_⟩
    · simpa [State.view, auto] using ((inv.thread t).flagsAuto k).1
    · simpa [State.view, State.el, auto] using off
  · refine .inr ⟨⟨n, woken, ?_⟩, ?_⟩
    · simpa [State.view] using (inv.thread t).flagsSub n
    · simpa [State.view, State.el, auto] using placed

/-- A step of a call that has been given the mutex brings it nearer to its return. -/
theorem Granted.effect (granted : Granted s t m f) (inv : SystemInv s) (on : s.mode w = .thread t)
    (effect : FrameEffect s w t f s') : s'.result f.e = some .ok ∨
      ∃ g, Granted s' t m g ∧ g.e = f.e ∧ g.pc.stepsLeft < f.pc.stepsLeft := by
  have locking := granted.locking inv
  have mine := granted.mine
  obtain ⟨rest, frames⟩ := granted.top
  have call := granted.call
  have owner := granted.owner
  cases effect with
  | pushed pc => simp [Locking, pc] at locking
  | scheduled _ pc scheduled =>
      cases scheduled with
      | slept _ => exact .inr ⟨_, .setFrame call owner, rfl, by simp [pc, Pc.stepsLeft]⟩
      | signalled _ _ _ _ _ => exact .inr ⟨_, .setFrame call owner, rfl, by simp [pc, Pc.stepsLeft]⟩
      | resumed _ _ _ _ _ _ => exact .inr ⟨_, .setFrame call owner, rfl, by simp [pc, Pc.stepsLeft]⟩
  | yieldIntr _ yield _ _ _ => simp [call] at yield
  | yieldDone _ yield _ => simp [call] at yield
  | fdIntr _ _ fd _ _ _ => simp [call] at fd
  | fdDone _ _ _ fd _ _ => simp [call] at fd
  | interrupted s₁ pc _ finished =>
      cases finished with
      | interrupted x woken _ signal inactive =>
          have placed : s.el f.e ≠ none := by
            rcases delivered_of_woke inv on frames pc with ⟨own, event, _⟩ | ⟨_, placed⟩
            · rw [Option.some.inj (woken.symm.trans own)] at signal
              exact absurd signal event
            · exact placed
          rcases granted.active inv pc placed with pending | immediate
          · exact absurd pending inactive.1
          · exact absurd immediate inactive.2
  | again s₁ pc _ finished =>
      refine .inr ⟨_, .setFrame call ?_, rfl, by simp [pc, Pc.stepsLeft]⟩
      rwa [finishWait_owner finished]
  | woken _ _ _ notMutex _ => exact absurd call (notMutex m)
  | prepared wq s₁ pc _ _ prepared =>
      obtain ⟨_, rfl⟩ := tcWaitqPrepareToWait_ok prepared
      refine .inr ⟨_, .setFrame call owner, rfl, ?_⟩
      simp [pc, call, Call.afterPrepare, Pc.stepsLeft]
  | held s₁ rv _ _ => exact .inl (returnCall_result _ _ _ _)
  | acquired _ _ _ _ => exact .inl (returnCall_result _ _ _ _)
  | owned _ _ _ _ => exact .inl (returnCall_result _ _ _ _)
  | taken m' _ mutex free =>
      obtain rfl : m = m' := by simpa [call] using mutex
      simp [owner] at free
  | turned pc turned =>
      exact .inr ⟨_, .setFrame call owner, rfl, turned.stepsLeft call locking mine⟩

private theorem Granted.enabled (granted : Granted s t m f) (inv : SystemInv s)
    (on : s.mode w = .thread t) : ∃ r, s.advanceFrame w t f = some r := by
  have locking := granted.locking inv
  obtain ⟨rest, frames⟩ := granted.top
  have top := view_top on frames
  have awake := ((inv.thread t).executed top.1).awake f rest top.2
  have call := granted.call
  obtain ⟨call', e, pc, saved⟩ := f
  subst call
  cases pc with
  | queued => exact ⟨_, rfl⟩
  | pushed => exact ⟨_, rfl⟩
  | asleep => simp at awake
  | woke => exact ⟨_, rfl⟩
  | test0 => simp [Locking] at locking
  | prep => exact ⟨_, rfl⟩
  | test => simp [Locking] at locking
  | holds =>
      simp only [advanceFrame]
      split <;> exact ⟨_, rfl⟩
  | cas0 =>
      simp only [advanceFrame]
      split <;> exact ⟨_, rfl⟩
  | own1 =>
      simp only [advanceFrame]
      split <;> exact ⟨_, rfl⟩
  | cas1 =>
      simp only [advanceFrame]
      split <;> exact ⟨_, rfl⟩
  | own => exact ⟨_, rfl⟩
  | cas =>
      simp only [advanceFrame]
      split <;> exact ⟨_, rfl⟩

/-- The only failure of a call that has been given the mutex: the signal that woke it
has been unsubscribed meanwhile. -/
theorem Granted.failure (granted : Granted s t m f) (inv : SystemInv s)
    (on : s.mode w = .thread t) {fault : Fault} (failure : Failure s (.advance w) fault) :
    fault = .useAfterFree ∧
      ∃ n, s.wokenByEvent w = some (.sub t n) ∧ s.life (.sub t n) ≠ .live := by
  have locking := granted.locking inv
  have call := granted.call
  obtain ⟨rest, frames⟩ := granted.top
  cases failure with
  | finish _ u g rest' fault on' frames' finishes unexpected cause =>
      obtain rfl : t = u := by simpa using on.symm.trans on'
      obtain ⟨rfl, rfl⟩ := List.cons.inj (frames.symm.trans frames')
      have queue : f.call.isLeaf = false := by simp [call, Call.isLeaf]
      simp only [State.unexpected, Bool.not_eq_true'] at unexpected
      rcases (by simpa [Frame.finishes, queue] using finishes : f.pc = .woke ∨ f.pc = .holds)
        with pc | pc
      · have stack : s.eventStack t = some f.e := by
          simp only [Locking, pc] at locking
          simpa [State.view] using locking.1
        rcases delivered_of_woke inv on frames pc with ⟨own, _⟩ | ⟨⟨n, signal, flags⟩, _⟩
        · simp [stack, own] at unexpected
        · rcases cause with ⟨_, none⟩ | ⟨x, woken, ⟨free, gone⟩ | ⟨_, event⟩⟩
          · simp [signal] at none
          · obtain rfl := Option.some.inj (signal.symm.trans woken)
            exact ⟨free, n, signal, gone⟩
          · obtain rfl := Option.some.inj (signal.symm.trans woken)
            exact absurd flags event
      · have stack : s.eventStack t = some f.e := by
          simp only [Locking, pc] at locking
          simpa [State.view] using locking.1
        have top := view_top on frames
        have cleared := (inv.control t).cleared w _ f rest m top.1 top.2 call (.inr (.inr pc))
        simp [stack, cleared] at unexpected

/-- A thread that has been given the mutex and is executed goes on with its call. -/
theorem Granted.advance (granted : Granted s t m f) (inv : SystemInv s)
    (on : s.mode w = .thread t) (running : s.fault = none) :
    ∃ s', s.step (.advance w) = some s' ∧ (s'.result f.e = some .ok ∨
      (∃ g, Granted s' t m g ∧ g.e = f.e ∧ g.pc.stepsLeft < f.pc.stepsLeft) ∨
      s'.fault = some .useAfterFree ∧
        ∃ n, s.wokenByEvent w = some (.sub t n) ∧ s.life (.sub t n) ≠ .live) := by
  obtain ⟨rest, frames⟩ := granted.top
  obtain ⟨r, advanced⟩ := granted.enabled inv on
  have acts : s.act (.advance w) = some r := by simp [act, on, frames, advanced]
  cases r with
  | ok s' =>
      refine ⟨s', by simp [State.step, running, acts], ?_⟩
      exact (granted.effect inv on (advanceFrame_ok advanced)).imp_right .inl
  | error fault =>
      obtain ⟨rfl, cause⟩ := granted.failure inv on (act_error inv acts)
      refine ⟨{ s with fault := some .useAfterFree }, ?_, .inr (.inr ⟨rfl, cause⟩)⟩
      simp [State.step, running, acts]

/-- No step takes the mutex from a call it has been given to, and no step of another
thread sets the call back. -/
theorem Granted.step (granted : Granted s t m f) (inv : SystemInv s) {a : Action}
    (stepped : s.step a = some s') : s'.result f.e = some .ok ∨
      ∃ g, Granted s' t m g ∧ g.e = f.e ∧ g.pc.stepsLeft ≤ f.pc.stepsLeft := by
  obtain ⟨rest, frames⟩ := granted.top
  have inside : f.inCondition = false := by simp [Frame.inCondition, granted.call]
  obtain ⟨_, effect | ⟨fault, _, rfl⟩⟩ := State.step_cases stepped
  · rcases effect.inside inv frames inside with same | ⟨w, rfl, enter, rfl⟩ | ⟨w, rfl, on, effect⟩
    · have owner : s'.owner m = some t := by
        rcases effect.owner inv.lists m with kept | free | ⟨w, u, _, on, user, held⟩
        · exact kept.trans granted.owner
        · simp [granted.owner] at free
        · have mine : s.owner m = some u := by
            simpa [State.view] using (inv.mutex u).holder m (by simpa [State.view] using held)
          obtain rfl := Option.some.inj (mine.symm.trans granted.owner)
          simp [inUserCode, frames, inside] at user
      exact .inr ⟨f, ⟨⟨rest, same.1.trans frames⟩, granted.call, owner⟩, rfl, le_rfl⟩
    · have entering : (s.view t).place w = .entering (s.wokenByEvent w) := by
        simp [State.view, enter]
      rcases (inv.thread t).entering w _ entering with ⟨_, empty⟩ | ⟨_, g, rest', equal, pc⟩
      · simp [State.view, frames] at empty
      · obtain ⟨rfl, rfl⟩ := List.cons.inj (frames.symm.trans equal)
        refine .inr ⟨{ f with pc := .woke }, ⟨⟨rest, ?_⟩, granted.call, granted.owner⟩, rfl, ?_⟩
        · simp [enterThread, frames]
        · simp [pc, Pc.stepsLeft]
    · rcases granted.effect inv on effect with returned | ⟨g, next, same, less⟩
      · exact .inl returned
      · exact .inr ⟨g, next, same, less.le⟩
  · exact .inr ⟨f, ⟨⟨rest, frames⟩, granted.call, granted.owner⟩, rfl, le_rfl⟩

/-- A thread that sleeps although it has been given the mutex is about to be woken. -/
theorem Granted.asleep (granted : Granted s t m f) (inv : SystemInv s)
    (stopped : s.running t = false) :
    s.eventStack t = some f.e ∧ s.el f.e = some .immediate := by
  obtain ⟨rest, frames⟩ := granted.top
  have view : (s.view t).frames = f :: rest := by simpa [State.view] using frames
  have member : f ∈ (s.view t).frames := view ▸ .head _
  obtain ⟨⟨n, auto⟩, _⟩ := (inv.thread t).frame f member
  have locking := granted.locking inv
  have idle : (s.view t).running = false := by simpa [State.view] using stopped
  rcases (inv.thread t).idle idle with ⟨_, empty⟩ | ⟨_, g, rest', equal, pc, on⟩
  · simp [view] at empty
  · obtain ⟨rfl, rfl⟩ := List.cons.inj (view.symm.trans equal)
    simp only [Locking, pc, granted.mine, reduceCtorEq, and_false, and_true, false_or] at locking
    have stack : s.eventStack t = some f.e := by simpa [State.view] using locking.1
    refine ⟨stack, ?_⟩
    rcases ((inv.thread t).located f member).placed on with home | active | pending
    · exact absurd home locking.2
    · simpa [State.view, State.el, auto] using active
    · exact absurd locking.1 ((inv.thread t).sleep idle f.e pending).2.2

/-- `tc_mutex_unlock` hands the mutex to the call of the first event on its wait queue. -/
theorem Granted.of_unlock (inv : SystemInv s) (stepped : s.step (.user w (.unlock m)) = some s')
    (owner : s'.owner m = some t) :
    ∃ f, (s.tcWaitqWakeupOne (.mutex m)).2 = some f.e ∧ Granted s' t m f := by
  obtain ⟨_, effect | ⟨fault, failed, _⟩⟩ := State.step_cases stepped
  · cases effect with
    | user _ u _ _ _ _ effect =>
        cases effect with
        | unlock _ _ =>
            simp only [Function.update_self] at owner
            cases waiting : s.events (.waiters (.mutex m)) with
            | nil => simp [tcWaitqWakeupOne, waiting] at owner
            | cons e es =>
                have on := inv.lists.mem_events.mp (waiting ▸ List.mem_cons_self)
                have tc := inv.lists.owner e (by simp [on])
                obtain rfl : e.owner = t := by
                  simpa [tcWaitqWakeupOne, waiting, tc] using owner
                have here : (s.view e.owner).el e = some (.waiters (.mutex m)) := by
                  simpa [State.view, State.el] using on
                obtain ⟨f, rest, frames, same, call⟩ := (inv.thread e.owner).top_of_mutex here
                refine ⟨f, by simp [tcWaitqWakeupOne, waiting, same], ⟨rest, ?_⟩, call, ?_⟩
                · simpa [tcWaitqWakeupOne, waiting, State.iwiImmediate, State.view] using frames
                · simp [tcWaitqWakeupOne, waiting, tc]
  · cases act_error inv failed

/-- A call of `tc_mutex_lock` that returns `RV_INTR` has not been given the mutex. -/
theorem interrupted_foreign (inv : SystemInv s) {rest : List Frame} {a : Action}
    (frames : s.frames t = f :: rest) (call : f.call = .mutex m) (before : s.result f.e = none)
    (stepped : s.step a = some s') (intr : s'.result f.e = some .intr) :
    s'.owner m ≠ some t ∧ s'.life f.e = .dead := by
  have owner : f.e.owner = t := by
    obtain ⟨⟨n, auto⟩, _⟩ := (inv.thread t).frame f (by simp [State.view, frames])
    rw [auto, EventId.owner]
  have ok : ∀ {s₁ : State}, (s₁.returnCall t f .ok).result f.e ≠ some .intr := by
    intro s₁
    simp [returnCall_result]
  have unchanged : ∀ {s₁ : State}, s₁.result = s.result → s₁.result f.e ≠ some .intr := by
    intro s₁ same
    simp [same, before]
  have inside : f.inCondition = false := by simp [Frame.inCondition, call]
  obtain ⟨_, effect | ⟨fault, _, rfl⟩⟩ := State.step_cases stepped
  · rcases effect.inside inv frames inside with same | ⟨w, _, _, rfl⟩ | ⟨w, _, on, effect⟩
    · simp [same.2 f.e owner, before] at intr
    · exact absurd intr (unchanged rfl)
    · cases effect with
      | interrupted s₁ pc _ finished =>
          cases finished with
          | interrupted x woken _ signal inactive =>
              refine ⟨fun mine => ?_, by simp [State.returnIntr, State.returnCall, State.endEvent]⟩
              have granted : Granted s t m f := ⟨⟨rest, frames⟩, call, mine⟩
              rcases delivered_of_woke inv on frames pc with ⟨own, event, _⟩ | ⟨_, placed⟩
              · rw [Option.some.inj (woken.symm.trans own)] at signal
                exact absurd signal event
              · rcases granted.active inv pc placed with pending | immediate
                · exact absurd pending inactive.1
                · exact absurd immediate inactive.2
      | pushed _ => exact absurd intr (unchanged rfl)
      | scheduled _ _ scheduled => cases scheduled <;> exact absurd intr (unchanged rfl)
      | yieldIntr _ yield _ _ _ => simp [call] at yield
      | yieldDone _ yield _ => simp [call] at yield
      | fdIntr _ _ fd _ _ _ => simp [call] at fd
      | fdDone _ _ _ fd _ _ => simp [call] at fd
      | again s₁ _ _ finished => exact absurd intr (unchanged (finishWait_calls finished).2)
      | woken _ _ _ notMutex _ => exact absurd call (notMutex m)
      | prepared wq s₁ _ _ _ prepared =>
          obtain ⟨_, rfl⟩ := tcWaitqPrepareToWait_ok prepared
          exact absurd intr (unchanged rfl)
      | held _ _ _ _ => exact absurd intr ok
      | acquired _ _ _ _ => exact absurd intr ok
      | owned _ _ _ _ => exact absurd intr ok
      | taken _ _ _ _ => exact absurd intr (unchanged rfl)
      | turned _ _ => exact absurd intr (unchanged rfl)
  · exact absurd intr (unchanged rfl)

end Hand

/-- The call of `tc_mutex_lock` with event `e`, which has been given the mutex, has returned
`RV_OK`, or will: if its thread sleeps, its event is about to wake it; each step of its own
brings it nearer to the return, and no step of another thread sets it back. Only an
unsubscription of the signal that woke the thread can make it fail. -/
def Acquires (s : State) (t : Tid) (m : MutexId) (e : EventId) : Prop :=
  s.result e = some .ok ∨ ∃ f, f.e = e ∧ Granted s t m f ∧
    (s.running t = false → s.eventStack t = some e ∧ s.el e = some .immediate) ∧
    (∀ w, s.fault = none → s.mode w = .thread t → ∃ s', s.step (.advance w) = some s' ∧
      (s'.result e = some .ok ∨
        (∃ g, Granted s' t m g ∧ g.e = e ∧ g.pc.stepsLeft < f.pc.stepsLeft) ∨
        s'.fault = some .useAfterFree ∧
          ∃ n, s.wokenByEvent w = some (.sub t n) ∧ s.life (.sub t n) ≠ .live)) ∧
    ∀ a s', s.step a = some s' → s'.result e = some .ok ∨
      ∃ g, Granted s' t m g ∧ g.e = e ∧ g.pc.stepsLeft ≤ f.pc.stepsLeft

private theorem Granted.acquires {s : State} {t : Tid} {m : MutexId} {f : Frame}
    (granted : Granted s t m f) (inv : SystemInv s) : Acquires s t m f.e :=
  .inr ⟨f, rfl, granted, granted.asleep inv, fun _ running on => granted.advance inv on running,
    fun _ _ stepped => granted.step inv stepped⟩

theorem Granted.later {s s' : State} {t : Tid} {m : MutexId} {f : Frame}
    (granted : Granted s t m f) (inv : SystemInv s)
    (run : Transition.Run State.step Transition.always s s') : Acquires s' t m f.e := by
  obtain ⟨rest, frames⟩ := granted.top
  obtain ⟨⟨n, auto⟩, _⟩ := (inv.thread t).frame f (by simp [State.view, frames])
  have kept : s'.result f.e = some .ok ∨ ∃ g, Granted s' t m g ∧ g.e = f.e := by
    refine run.invariant_of_reached (fun s' => s'.result f.e = some .ok ∨
      ∃ g, Granted s' t m g ∧ g.e = f.e) (.inr ⟨f, granted, rfl⟩) ?_
    intro before after a reached held allowed stepped
    have inv := inv.later reached
    rcases held with returned | ⟨g, granted, same⟩
    · rw [auto] at returned ⊢
      have stays := (inv.returned (.next .refl allowed stepped) (inv.ended returned)).2
      exact .inl (stays.trans returned)
    · rw [← same]
      rcases granted.step inv stepped with returned | ⟨h, next, equal, _⟩
      · exact .inl returned
      · exact .inr ⟨h, next, equal⟩
  rcases kept with returned | ⟨g, granted, same⟩
  · exact .inl returned
  · exact same ▸ granted.acquires (inv.later run)

/-- Mutual exclusion, the hand-over, and the end of an interrupted call. -/
theorem mutex_exclusive_and_handed_over {workers : Nat} {domainOf : WorkerId → DomainId}
    {s : State} (reached : Reachable workers domainOf s) (m : MutexId) :
    (∀ t, s.held t m = true → s.owner m = some t ∧ ∀ u, s.held u m = true → u = t) ∧
    (∀ w t s₁, s.step (.user w (.unlock m)) = some s₁ → s₁.owner m = some t →
      ∃ e, (s.tcWaitqWakeupOne (.mutex m)).2 = some e ∧
        ∀ s₂, Transition.Run State.step Transition.always s₁ s₂ → Acquires s₂ t m e) ∧
    ∀ t f rest a s₁, s.frames t = f :: rest → f.call = .mutex m → s.step a = some s₁ →
      s₁.result f.e = some .intr → s₁.owner m ≠ some t ∧
        ∀ s₂, Transition.Run State.step Transition.always s₁ s₂ →
          (∀ k, f.e ∉ s₂.events k) ∧ (s₂.tcWaitqWakeupOne (.mutex m)).2 ≠ some f.e := by
  have inv := SystemInv.run reached
  have holder : ∀ t, s.held t m = true → s.owner m = some t := by
    intro t held
    simpa [State.view] using (inv.mutex t).holder m (by simpa [State.view] using held)
  refine ⟨fun t held => ⟨holder t held, fun u other => ?_⟩, ?_, ?_⟩
  · exact Option.some.inj ((holder u other).symm.trans (holder t held))
  · intro w t s₁ stepped owner
    obtain ⟨f, woken, granted⟩ := Granted.of_unlock inv stepped owner
    exact ⟨f.e, woken, fun s₂ run => granted.later (inv.step stepped) run⟩
  · intro t f rest a s₁ frames call stepped intr
    obtain ⟨⟨n, auto⟩, live⟩ := (inv.thread t).frame f (by simp [State.view, frames])
    have before : s.result f.e = none := by
      have none := inv.results t n (by simp [← auto, live])
      simpa [State.view, auto] using none
    obtain ⟨foreign, ended⟩ := interrupted_foreign inv frames call before stepped intr
    refine ⟨foreign, fun s₂ run => ?_⟩
    rw [auto] at ended ⊢
    have inv₁ := inv.step stepped
    have off := (inv₁.returned run ended).1
    have absent : ∀ k, EventId.auto t n ∉ s₂.events k := by
      intro k member
      simp [(inv₁.later run).lists.mem_events.mp member] at off
    refine ⟨absent, fun woken => ?_⟩
    unfold tcWaitqWakeupOne at woken
    split at woken
    · cases woken
    · next e es waiting =>
      obtain rfl := Option.some.inj woken
      exact absent (.waiters (.mutex m)) (waiting ▸ List.mem_cons_self)

set_option maxRecDepth 10000 in
/-- A mutex is handed over to a thread that a signal has just woken. -/
theorem mutex_exclusive_and_handed_over_signalled :
    ∃ s s₁ e, Reachable 2 (fun _ => 0) s ∧ s.step (.user 0 (.unlock 0)) = some s₁ ∧
      s₁.owner 0 = some 1 ∧ s₁.wokenByEvent 1 = some (.sub 1 0) ∧
      ∀ s₂, Transition.Run State.step Transition.always s₁ s₂ → Acquires s₂ 1 0 e := by
  obtain ⟨s, reached, shown⟩ := reachable_of_exec 2 (fun _ => 0)
    [.user 0 (.trylock 0), .user 1 (.subscribe 0 0), .user 1 (.lock 0 0), .advance 1, .advance 1,
      .advance 1, .advance 1, .advance 1, .advance 1, .advance 1, .leave 1, .user 0 (.fire 0),
      .runImmediate 1 .any, .enter 1]
    (fun s => (s.step (.user 0 (.unlock 0))).any fun s₁ =>
      s₁.owner 0 = some 1 ∧ s₁.wokenByEvent 1 = some (.sub 1 0)) (by decide)
  obtain ⟨s₁, stepped, shown⟩ := (Option.any_eq_true _ _).mp shown
  obtain ⟨owner, woken⟩ := of_decide_eq_true shown
  obtain ⟨e, _, acquires⟩ :=
    (mutex_exclusive_and_handed_over reached 0).2.1 0 1 s₁ stepped owner
  exact ⟨s, s₁, e, reached, stepped, owner, woken, acquires⟩

end Libtcr
