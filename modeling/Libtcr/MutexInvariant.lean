import Libtcr.ThreadInvariantProperties

/-! What a thread knows about a mutex that it holds or waits for. -/

set_option autoImplicit false

namespace Libtcr

/-- The state of a call of `tc_mutex_lock`: while the event of the call is on the wait
queue of the mutex, nobody has handed the mutex over, and a mutex that is not free has
an owner who will. -/
def Locking (v : View) (m : MutexId) (f : Frame) : Prop :=
  match f.pc with
  | .cas0 | .own1 | .cas1 => v.mutex m ≠ .mine
  | .prep => True
  | .own => v.stack = some f.e ∧ (v.el f.e = some f.call.home ∨ v.mutex m = .mine)
  | .cas => v.stack = some f.e ∧ (v.el f.e = some f.call.home ↔ v.mutex m ≠ .mine)
  | .pushed | .asleep | .woke => v.stack = some f.e ∧
      (v.el f.e = some f.call.home ∧ v.mutex m = .other ∨
        v.el f.e ≠ some f.call.home ∧ v.mutex m = .mine)
  | .holds => v.stack = some f.e ∧ v.mutex m = .mine
  | .queued | .test0 | .test => False

structure MutexInv (v : View) : Prop where
  holder : ∀ m, v.held m = true → v.mutex m = .mine
  locking : ∀ f rest m, v.frames = f :: rest → f.call = .mutex m → Locking v m f

namespace ThreadInv

variable {t : Tid} {v : View}

theorem top_of_mutex {e : EventId} {m : MutexId} (inv : ThreadInv t v)
    (on : v.el e = some (.waiters (.mutex m))) :
    ∃ f rest, v.frames = f :: rest ∧ f.e = e ∧ f.call = .mutex m := by
  have placed : v.el e ≠ none := by simp [on]
  have event : v.flags e ≠ .signal := by
    intro signal
    obtain ⟨n, rfl⟩ := inv.sub_of_signal (inv.owned e placed) signal
    have sub := inv.subs n (inv.live _ placed)
    simp [on] at sub
  rcases inv.frame_of_event placed event with ⟨f, member, rfl⟩ | rfl
  · have call : f.call = .mutex m := by
      have at_ := (inv.located f member).placed placed
      simp only [Placed, on, Option.some.injEq, reduceCtorEq, or_false] at at_
      cases call : f.call <;> simp_all [Call.home]
    cases frames : v.frames with
    | nil => simp [frames] at member
    | cons g rest =>
        rw [frames] at member
        rcases List.mem_cons.mp member with rfl | below
        · exact ⟨f, rest, rfl, rfl, call⟩
        · have condition := inv.lower g rest frames f below
          simp [Frame.inCondition, call] at condition
  · cases (inv.selfEvent _ on).1

end ThreadInv

/-- Only what the event of the call, the mutex and the event stack are matters. -/
theorem Locking.congr {v v' : View} {m : MutexId} {f : Frame} (locking : Locking v m f)
    (stack : v'.stack = v.stack)
    (home : v'.el f.e = some f.call.home ↔ v.el f.e = some f.call.home)
    (mutex : v'.mutex m = v.mutex m) : Locking v' m f := by
  unfold Locking at *
  rw [stack, mutex]
  cases pc : f.pc <;> simp_all

private theorem Call.home_of_mutex {call : Call} {m : MutexId} (mutex : call = .mutex m) :
    call.home = .waiters (.mutex m) := by
  rw [mutex, Call.home]

namespace MutexInv

variable {v : View}

theorem moved (inv : MutexInv v) {el : EventId → Option EventList}
    (home : ∀ e m, el e = some (.waiters (.mutex m)) ↔ v.el e = some (.waiters (.mutex m))) :
    MutexInv { v with el := el } where
  holder := inv.holder
  locking f rest m frames call := by
    refine (inv.locking f rest m frames call).congr rfl ?_ rfl
    rw [Call.home_of_mutex call]
    exact home f.e m

theorem update (inv : MutexInv v) {e : EventId} {k : Option EventList}
    (before : ∀ m, v.el e ≠ some (.waiters (.mutex m)))
    (after : ∀ m, k ≠ some (.waiters (.mutex m))) :
    MutexInv { v with el := Function.update v.el e k } := by
  refine inv.moved fun x m => ?_
  by_cases same : x = e
  · simp [same, before m, after m]
  · rw [Function.update_of_ne same]

theorem outside {v : View} (holder : ∀ m, v.held m = true → v.mutex m = .mine)
    (call : ∀ f rest m, v.frames = f :: rest → f.call ≠ .mutex m) : MutexInv v where
  holder := holder
  locking f rest m frames mutex := absurd mutex (call f rest m frames)

theorem setTop {v v' : View} (inv : MutexInv v) {g : Frame} {rest : List Frame}
    (held : v'.held = v.held) (mutex : ∀ m, v.mutex m = .mine → v'.mutex m = .mine)
    (frames : v'.frames = g :: rest) (locking : ∀ m, g.call = .mutex m → Locking v' m g) :
    MutexInv v' where
  holder m holds := mutex m (inv.holder m (held ▸ holds))
  locking f rest' m equal call := by
    obtain ⟨rfl, _⟩ := List.cons.inj (frames.symm.trans equal)
    exact locking m call

end MutexInv

private theorem Frame.inCondition_not_mutex {f : Frame} (condition : f.inCondition = true)
    (m : MutexId) : f.call ≠ .mutex m := by
  intro call
  simp [Frame.inCondition, call] at condition

private theorem ThreadInv.below_not_mutex {t : Tid} {v : View} {f : Frame} {rest : List Frame}
    (inv : ThreadInv t v) (frames : v.frames = f :: rest) (g : Frame) (rest' : List Frame)
    (m : MutexId) (below : rest = g :: rest') : g.call ≠ .mutex m :=
  Frame.inCondition_not_mutex (inv.lower f rest frames g (below ▸ .head _)) m

theorem View.InUserCode.not_mutex {v : View} {w : WorkerId} {x : Option EventId}
    (user : v.InUserCode w x) (f : Frame) (rest : List Frame) (m : MutexId)
    (frames : v.frames = f :: rest) : f.call ≠ .mutex m :=
  Frame.inCondition_not_mutex (user.condition f rest frames) m

theorem Locking.turn {v : View} {f : Frame} {m : MutexId} {pc : Pc} (locking : Locking v m f)
    (call : f.call = .mutex m) (turned : Turn v f.call f.pc pc) :
    Locking v m { f with pc := pc } := by
  obtain ⟨call', e, before, saved⟩ := f
  subst call
  cases turned with
  | taken => exact locking
  | notOwn1 foreign => exact foreign
  | taken1 => trivial
  | isOwn mine => exact ⟨locking.1, mine⟩
  | notOwn foreign =>
      exact ⟨locking.1, fun _ => foreign, fun _ => locking.2.resolve_right foreign⟩
  | takenLoop taken =>
      refine ⟨locking.1, ?_⟩
      by_cases mine : v.mutex m = .mine
      · exact .inr ⟨fun home => locking.2.mp home mine, mine⟩
      · refine .inl ⟨locking.2.mpr mine, ?_⟩
        cases share : v.mutex m <;> simp_all

theorem Locking.grant {v : View} {f : Frame} {m : MutexId} (locking : Locking v m f)
    (call : f.call = .mutex m) (queued : v.el f.e = some (.waiters (.mutex m)))
    (placed : f.pc.unplaced = false) :
    Locking { v with
      el := Function.update v.el f.e (some .immediate)
      mutex := Function.update v.mutex m .mine } m f := by
  unfold Locking at *
  cases pc : f.pc <;> simp_all [Call.home, Pc.unplaced]

theorem Locking.share {v : View} {f : Frame} {m : MutexId} {after : Share}
    (locking : Locking v m f) (foreign : v.mutex m ≠ .mine) (still : after ≠ .mine)
    (nobody : after = .free → v.mutex m = .free ∨ v.el f.e ≠ some f.call.home) :
    Locking { v with mutex := Function.update v.mutex m after } m f := by
  unfold Locking at *
  cases pc : f.pc <;> cases after <;> simp_all

private theorem EventList.ne_of_served {k : EventList} (served : k.served = true) (m : MutexId) :
    some k ≠ some (.waiters (.mutex m)) := by
  rintro ⟨⟩
  cases served

private theorem MutexInv.holder_update {v : View} (inv : MutexInv v) (m m' : MutexId)
    (held : Function.update v.held m true m' = true) :
    Function.update v.mutex m .mine m' = .mine := by
  by_cases same : m' = m
  · simp [same]
  · simpa [same] using inv.holder m' (by simpa [same] using held)

/-! ### The steps that concern a call of `tc_mutex_lock` -/

namespace MutexInv

variable {t : Tid} {v : View} {w : WorkerId} {x : Option EventId} {e : EventId} {f : Frame}
  {rest : List Frame} {m : MutexId}

theorem wake (mutex : MutexInv v) {woken : EventId → Bool}
    (queued : ∀ e, woken e = true → ∃ k, v.el e = some k ∧ k.wakes = true) :
    MutexInv { v with el := fun e => if woken e then some .immediate else v.el e } := by
  refine mutex.moved fun e m => ?_
  cases chosen : woken e with
  | true =>
      obtain ⟨k, on, wakes⟩ := queued e chosen
      have other : k ≠ .waiters (.mutex m) := by
        rintro rfl
        cases wakes
      simp [on, other]
  | false => simp

theorem fire (mutex : MutexInv v) {g : SignalId} : MutexInv { v with
    el := fun e => if v.el e = some (.waiters (.signal g)) then some .immediate else v.el e } := by
  refine mutex.moved fun e m => ?_
  by_cases armed : v.el e = some (.waiters (.signal g)) <;> simp [armed]

theorem grant (mutex : MutexInv v) (inv : ThreadInv t v)
    (queued : v.el e = some (.waiters (.mutex m))) :
    MutexInv { v with
      el := Function.update v.el e (some .immediate)
      mutex := Function.update v.mutex m .mine } := by
  obtain ⟨f, rest, frames, rfl, call⟩ := inv.top_of_mutex queued
  refine mutex.setTop rfl (fun m' mine => ?_) frames fun m' call' => ?_
  · by_cases same : m' = m
    · simp [same]
    · simpa [same] using mine
  · obtain rfl : m = m' := by simpa [call] using call'
    refine (mutex.locking f rest m frames call).grant call queued ?_
    cases unplaced : f.pc.unplaced with
    | true =>
        have off := (inv.located f (frames ▸ List.mem_cons_self)).unplaced unplaced
        simp [off] at queued
    | false => rfl

theorem share (mutex : MutexInv v) {after : Share} (foreign : v.mutex m ≠ .mine)
    (still : after ≠ .mine)
    (nobody : after = .free → v.mutex m = .free ∨ ∀ e, v.el e ≠ some (.waiters (.mutex m))) :
    MutexInv { v with mutex := Function.update v.mutex m after } := by
  refine ⟨fun m' held => ?_, fun f rest m' frames call => ?_⟩
  · have mine := mutex.holder m' held
    have different : m' ≠ m := by
      rintro rfl
      exact foreign mine
    simpa [different] using mine
  · by_cases same : m' = m
    · subst same
      have home := Call.home_of_mutex call
      exact (mutex.locking f rest m' frames call).share foreign still
        fun free => (nobody free).imp_right fun none => home ▸ none f.e
    · exact (mutex.locking f rest m' frames call).congr rfl .rfl (by simp [same])

theorem enter (mutex : MutexInv v) (inv : ThreadInv t v) (entering : v.place w = .entering x)
    (frames : v.frames = f :: rest) :
    MutexInv { v with
      place := Function.update v.place w (.on x)
      frames := { f with pc := .woke } :: rest } := by
  obtain ⟨_, empty⟩ | ⟨_, f', rest', equal, pc⟩ := inv.entering w x entering
  · simp [empty] at frames
  obtain ⟨rfl, rfl⟩ := List.cons.inj (equal.symm.trans frames)
  refine mutex.setTop rfl (fun _ mine => mine) rfl fun m call => ?_
  simpa [Locking, pc] using mutex.locking f' rest' m frames call

theorem begin {n : Nat} {call : Call} {pc : Pc} (mutex : MutexInv v) (begins : Begins v call pc) :
    MutexInv { v with
      frames := ⟨call, .auto t n, pc, v.stack⟩ :: v.frames
      life := Function.update v.life (.auto t n) .live
      next := Function.update v.next (.auto t n) none } := by
  refine mutex.setTop rfl (fun _ mine => mine) rfl fun m call => ?_
  cases begins with
  | plain notMutex => exact absurd call (notMutex m)
  | condition => cases call
  | lock foreign =>
      cases call
      exact foreign

theorem acquire (mutex : MutexInv v) (frames : v.frames = f :: rest) (call : f.call = .mutex m)
    (pc : f.pc = .cas) :
    MutexInv { v with
      mutex := Function.update v.mutex m .mine
      frames := { f with pc := .holds } :: rest } := by
  have locking := mutex.locking f rest m frames call
  refine mutex.setTop rfl (fun m' mine => ?_) rfl fun m' call' => ?_
  · by_cases same : m' = m
    · simp [same]
    · simpa [same] using mine
  · obtain rfl : m = m' := by simpa [call] using call'
    simp only [Locking, pc] at locking
    simpa [Locking] using locking.1

theorem resumeEvent (mutex : MutexInv v) (frames : v.frames = f :: rest) (pc : f.pc = .pushed)
    (pending : v.el e = some (.pending t)) (first : v.stack = none ∨ v.stack = some e) :
    MutexInv { v with
      el := Function.update v.el e none
      place := Function.update v.place w (.on (some e))
      frames := { f with pc := .woke } :: rest } := by
  refine mutex.setTop rfl (fun _ mine => mine) rfl fun m call => ?_
  have locking := mutex.locking f rest m frames call
  have home := Call.home_of_mutex call
  simp only [Locking, pc] at locking
  obtain rfl : f.e = e := by simpa [locking.1] using first
  simp [home, pending] at locking
  simp [Locking, locking]

theorem resumeSignal (mutex : MutexInv v) (inv : ThreadInv t v) (frames : v.frames = f :: rest)
    (pc : f.pc = .pushed) (owned : e.owner = t) (pending : v.el e = some (.pending t))
    (signal : v.flags e = .signal) :
    MutexInv { v with
      el := Function.update v.el e (some (.waiters (.signal (v.signal e))))
      place := Function.update v.place w (.on (some e))
      frames := { f with pc := .woke } :: rest } := by
  refine mutex.setTop rfl (fun _ mine => mine) rfl fun m call => ?_
  have locking := mutex.locking f rest m frames call
  have placed : v.el e ≠ none := by simp [pending]
  obtain ⟨n, rfl⟩ := inv.sub_of_signal owned signal
  have different := inv.auto_ne_sub (frames ▸ List.mem_cons_self : f ∈ v.frames) n
  simpa [Locking, pc, different] using locking

theorem unlock (mutex : MutexInv v) {after : Share} (user : v.InUserCode w x) :
    MutexInv { v with
      mutex := Function.update v.mutex m after
      held := Function.update v.held m false } := by
  refine .outside (fun m' held => ?_) user.not_mutex
  have different : m' ≠ m := by
    rintro rfl
    simp at held
  simpa [different] using mutex.holder m' (by simpa [different] using held)

end MutexInv

theorem ViewStep.mutexInv {t : Tid} {v v' : View} {kind : Kind} (step : ViewStep t v kind v')
    (inv : ThreadInv t v) (mutex : MutexInv v) : MutexInv v' := by
  cases step with
  | wake woken queued => exact mutex.wake queued
  | fire g fires _ => exact { mutex.fire with }
  | grant e m queued foreign => exact mutex.grant inv queued
  | share m after foreign still nobody => exact mutex.share foreign still nobody
  | cancel n live =>
      have updated := mutex.update (e := .sub t n) (k := none)
        (fun m on => by simpa [on] using inv.subs n live) (by simp)
      exact { updated with }
  | born unused => exact { mutex with }
  | post created free =>
      have updated := mutex.update (e := .self t) (k := some .immediate) (by simp [free]) (by simp)
      exact { updated with }
  | queue e k owned on served stays refused =>
      exact mutex.update (fun m => on ▸ EventList.ne_of_served served m) (by simp)
  | selectSignal w e k owned on served signal idle away =>
      have updated := mutex.update (k := some (.waiters (.signal (v.signal e))))
        (fun m => on ▸ EventList.ne_of_served served m) (by simp)
      exact { updated with }
  | selectEvent w e k owned on served event stays idle top away =>
      have updated := mutex.update (k := none)
        (fun m => on ▸ EventList.ne_of_served served m) (by simp)
      exact { updated with }
  | reap w e owned on exiting away =>
      have updated := mutex.update (e := e) (k := none) (by simp [on]) (by simp)
      exact { updated with }
  | freed w freeing => exact { mutex with }
  | enter w x f rest entering frames => exact mutex.enter inv entering frames
  | start w x entering frames posted => exact { mutex with }
  | begin w x n call pc user unused begins => exact mutex.begin begins
  | enqueue w x f rest flag top pc leaf waits =>
      refine mutex.setTop rfl (fun _ mine => mine) rfl fun m call => ?_
      simp only at call
      simp [call, Call.isLeaf] at leaf
  | push w x f rest top pc =>
      refine mutex.setTop rfl (fun _ mine => mine) rfl fun m call => ?_
      have locking := mutex.locking f rest m top.2 call
      simp [Locking, pc] at locking
  | prepare w x f rest top pc queue =>
      refine mutex.setTop rfl (fun _ mine => mine) rfl fun m call => ?_
      simp only at call
      simp [Locking, call, Call.afterPrepare]
  | turn w x f rest pc top turned =>
      exact mutex.setTop rfl (fun _ mine => mine) rfl fun m call =>
        (mutex.locking f rest m top.2 call).turn call turned
  | acquire w x f rest m top call pc free => exact mutex.acquire top.2 call pc
  | refused w x f rest rv top pc _ =>
      exact .outside mutex.holder (inv.below_not_mutex top.2)
  | returnPlain w x f rest rv top unplaced notMutex _ =>
      exact .outside mutex.holder (inv.below_not_mutex top.2)
  | returnLocked w x f rest m top unplaced call acquired =>
      exact .outside (mutex.holder_update m) (inv.below_not_mutex top.2)
  | sleep w x f rest top pc nothing =>
      refine mutex.setTop rfl (fun _ mine => mine) rfl fun m call => ?_
      simpa [Locking, pc] using mutex.locking f rest m top.2 call
  | resumeEvent w x f rest e top pc owned pending event first =>
      exact mutex.resumeEvent top.2 pc pending first
  | resumeSignal w x f rest e top pc owned pending signal =>
      exact mutex.resumeSignal inv top.2 pc owned pending signal
  | finishExpected w x f rest top pc queue first expected =>
      exact mutex.setTop rfl (fun _ mine => mine) rfl fun _ _ => trivial
  | finishRequeue w e f rest top pc queue owned live signal active =>
      exact mutex.setTop rfl (fun _ mine => mine) rfl fun _ _ => trivial
  | finishIgnored w e f rest top pc queue owned live signal inactive notMutex =>
      exact .outside mutex.holder (inv.below_not_mutex top.2)
  | finishIntr w e f rest top pc queue owned live signal inactive =>
      exact .outside mutex.holder (inv.below_not_mutex top.2)
  | leafDone w f rest rv top pc leaf notIntr =>
      exact .outside mutex.holder (inv.below_not_mutex top.2)
  | leafIntr w e after f rest top pc leaf owned other left =>
      exact .outside mutex.holder (inv.below_not_mutex top.2)
  | subscribe w x n g user unused => exact .outside mutex.holder user.not_mutex
  | trylock w x m user free => exact .outside (mutex.holder_update m) user.not_mutex
  | unlock w x m after user held passed nobody => exact mutex.unlock user
  | dying w x status on frames dies => exact { mutex with }
  | postExit w x on frames announced free =>
      exact .outside mutex.holder fun f rest m equal => by simp [frames] at equal
  | exitMain w x on frames => exact { mutex with }

end Libtcr
