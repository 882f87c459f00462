import Libtcr.ControlInvariant
import Libtcr.SignalInvariant
import Libtcr.StackInvariant

/-! What `woken_by_event` can be while a thread waits on a wait queue. -/

set_option autoImplicit false

namespace Libtcr

/-- The call has still to take its event off a wait queue with `tc_waitq_finish_wait`. -/
def Frame.waits (f : Frame) : Bool := f.pc.onStack && !f.call.isLeaf

/-- Outside `tc_scheduler`, `woken_by_event` can only be a signal. It is still subscribed
when a call of `tc_waitq_finish_wait` may look at it. -/
structure WokenInv (t : Tid) (v : View) : Prop where
  signal : ∀ w x, v.place w = .on (some x) → (∀ f rest, v.frames = f :: rest → f.pc ≠ .woke) →
    ∃ n, x = .sub t n
  subscribed : ∀ w n, v.place w = .entering (some (.sub t n)) ∨ v.place w = .on (some (.sub t n)) →
    (∃ f ∈ v.frames, f.waits = true) → v.life (.sub t n) = .live

namespace WokenInv

variable {t : Tid} {v v' : View}

theorem keep (inv : WokenInv t v)
    (entering : ∀ w x, v'.place w = .entering (some x) → v.place w = .entering (some x))
    (on : ∀ w x, v'.place w = .on (some x) → v.place w = .on (some x))
    (awake : ∀ w x, v'.place w = .on (some x) → (∀ f rest, v'.frames = f :: rest → f.pc ≠ .woke) →
      ∀ f rest, v.frames = f :: rest → f.pc ≠ .woke)
    (waits : ∀ f ∈ v'.frames, f.waits = true → ∃ g ∈ v.frames, g.waits = true)
    (life : ∀ n, v.life (.sub t n) = .live → v'.life (.sub t n) = .live) : WokenInv t v' where
  signal w x placed calm := inv.signal w x (on w x placed) (awake w x placed calm)
  subscribed w n placed := by
    rintro ⟨f, member, waiting⟩
    have before := placed.imp (entering w _) (on w _)
    exact life n (inv.subscribed w n before (waits f member waiting))

theorem same (inv : WokenInv t v) (place : v'.place = v.place) (frames : v'.frames = v.frames)
    (life : ∀ n, v'.life (.sub t n) = v.life (.sub t n)) : WokenInv t v' := by
  refine inv.keep (fun w x => ?_) (fun w x => ?_) (fun w x _ calm => ?_) (fun f member waits => ?_)
    fun n live => (life n).trans live
  · rw [place]
    exact id
  · rw [place]
    exact id
  · rwa [frames] at calm
  · exact ⟨f, frames ▸ member, waits⟩

theorem left (inv : WokenInv t v) {w : WorkerId} {p : Place}
    (place : v'.place = Function.update v.place w p) (nothing : p = .away ∨ p = .freeing)
    (frames : v'.frames = v.frames) (life : ∀ n, v'.life (.sub t n) = v.life (.sub t n)) :
    WokenInv t v' := by
  refine inv.keep (fun w' x entering => ?_) (fun w' x on => ?_) (fun _ _ _ calm => ?_)
    (fun f member waits => ⟨f, frames ▸ member, waits⟩) fun n live => (life n).trans live
  · by_cases here : w' = w
    · rcases nothing with rfl | rfl <;> simp [place, here] at entering
    · simpa [place, here] using entering
  · by_cases here : w' = w
    · rcases nothing with rfl | rfl <;> simp [place, here] at on
    · simpa [place, here] using on
  · rwa [frames] at calm

theorem selected (idle : ∀ w x, v.place w ≠ .entering x ∧ v.place w ≠ .on x) {w : WorkerId}
    {e : EventId} (place : v'.place = Function.update v.place w (.entering (some e)))
    (live : v'.life e = .live) : WokenInv t v' := by
  refine ⟨fun w' x on => ?_, fun w' n placed _ => ?_⟩
  · by_cases here : w' = w
    · simp [place, here] at on
    · exact absurd (by simpa [place, here] using on) (idle w' _).2
  · by_cases here : w' = w
    · obtain rfl : e = .sub t n := by simpa [place, here] using placed
      exact live
    · rcases placed with entering | on
      · exact absurd (by simpa [place, here] using entering) (idle w' _).1
      · exact absurd (by simpa [place, here] using on) (idle w' _).2

end WokenInv

section Executed

variable {t : Tid} {v v' : View} {w : WorkerId} {x : Option EventId}

/-- The worker that executes the thread has no `woken_by_event` any more, or has left it. -/
theorem WokenInv.cleared (act : Executed t v w x) {p : Place}
    (place : v'.place = Function.update v.place w p) (nothing : p = .on none ∨ p = .away) :
    WokenInv t v' := by
  have none : ∀ w' y, v'.place w' ≠ .entering (some y) ∧ v'.place w' ≠ .on (some y) := by
    intro w' y
    rw [place, act.moved]
    by_cases here : w' = w
    · rcases nothing with rfl | rfl <;> simp [here]
    · simp [here]
  refine ⟨fun w' y on => absurd on (none w' y).2, fun w' n placed => ?_⟩
  rcases placed with entering | on
  · exact absurd entering (none w' _).1
  · exact absurd on (none w' _).2

theorem WokenInv.step (inv : WokenInv t v) (place : v'.place = v.place)
    (before : ∀ f rest, v.frames = f :: rest → f.pc ≠ .woke)
    (waits : ∀ f ∈ v'.frames, f.waits = true → ∃ g ∈ v.frames, g.waits = true)
    (life : ∀ n, v'.life (.sub t n) = v.life (.sub t n)) : WokenInv t v' := by
  refine inv.keep (fun w x => ?_) (fun w x => ?_) (fun _ _ _ _ => before) waits
    fun n live => (life n).trans live
  · rw [place]
    exact id
  · rw [place]
    exact id

theorem WokenInv.woken (act : Executed t v w x) {e : EventId}
    (place : v'.place = Function.update v.place w (.on (some e)))
    (signal : (∀ f rest, v'.frames = f :: rest → f.pc ≠ .woke) → ∃ n, e = .sub t n)
    (subscribed : ∀ n, e = .sub t n → (∃ f ∈ v'.frames, f.waits = true) →
      v'.life (.sub t n) = .live) : WokenInv t v' := by
  have only : ∀ w' y, v'.place w' ≠ .entering (some y) ∧
      (v'.place w' = .on (some y) → y = e) := by
    intro w' y
    rw [place, act.moved]
    by_cases here : w' = w
    · simp [here, eq_comm]
    · simp [here]
  refine ⟨fun w' y on calm => ?_, fun w' n placed => ?_⟩
  · obtain rfl := (only w' y).2 on
    exact signal calm
  · rcases placed with entering | on
    · exact absurd entering (only w' _).1
    · exact subscribed n ((only w' _).2 on).symm

end Executed

/-- A subscription may not be cancelled while its event is `woken_by_event` of a worker that
executes its thread inside a wait. -/
def Safe (t : Tid) (v : View) (kind : Kind) : Prop :=
  ∀ n, kind = .cancel (.sub t n) →
    (∃ w, v.place w = .entering (some (.sub t n)) ∨ v.place w = .on (some (.sub t n))) →
    ∀ f ∈ v.frames, f.waits = false

private theorem waits_tail {frames rest : List Frame} {f : Frame} (equal : frames = f :: rest)
    (g : Frame) (member : g ∈ rest) (waits : g.waits = true) : ∃ h ∈ frames, h.waits = true :=
  ⟨g, equal ▸ .tail _ member, waits⟩

private theorem waits_setTop {frames rest : List Frame} {f g : Frame} (equal : frames = f :: rest)
    (same : g.waits = true → f.waits = true) (h : Frame) (member : h ∈ g :: rest)
    (waits : h.waits = true) : ∃ k ∈ frames, k.waits = true := by
  rcases List.mem_cons.mp member with rfl | below
  · exact ⟨f, equal ▸ .head _, same waits⟩
  · exact waits_tail equal h below waits

theorem ViewStep.wokenInv {t : Tid} {v v' : View} {kind : Kind} (step : ViewStep t v kind v')
    (inv : ThreadInv t v) (control : ControlInv v) (woken : WokenInv t v) (safe : Safe t v kind) :
    WokenInv t v' := by
  have apart : ∀ {f : Frame} {rest : List Frame}, v.frames = f :: rest → ∀ n, .sub t n ≠ f.e :=
    fun frames n equal => inv.auto_ne_sub (frames ▸ .head _) n equal.symm
  have idle : v.running = false → ∀ w x, v.place w ≠ .entering x ∧ v.place w ≠ .on x := by
    intro stopped w x
    refine ⟨fun entering => ?_, fun on => ?_⟩
    · simp [inv.occupied w x (.inl entering)] at stopped
    · simp [inv.occupied w x (.inr on)] at stopped
  have live : ∀ {e : EventId} {k : EventList}, v.el e = some k → v.life e = .live :=
    fun on => inv.live _ (by simp [on])
  cases step with
  | wake _ _ => exact woken.same rfl rfl fun _ => rfl
  | fire _ _ _ => exact woken.same rfl rfl fun _ => rfl
  | grant _ _ _ _ => exact woken.same rfl rfl fun _ => rfl
  | share _ _ _ _ _ => exact woken.same rfl rfl fun _ => rfl
  | cancel k _ =>
      refine ⟨woken.signal, fun w n placed => ?_⟩
      rintro ⟨f, member, waits⟩
      by_cases same : n = k
      · subst same
        simp [safe n rfl ⟨w, placed⟩ f member] at waits
      · simpa [same] using woken.subscribed w n placed ⟨f, member, waits⟩
  | born _ => exact woken.same rfl rfl (by simp)
  | post _ _ => exact woken.same rfl rfl fun _ => rfl
  | queue _ _ _ _ _ _ _ => exact woken.same rfl rfl fun _ => rfl
  | selectSignal w e k _ on _ _ stopped _ => exact .selected (idle stopped) rfl (live on)
  | selectEvent w e k _ on _ _ _ stopped _ _ => exact .selected (idle stopped) rfl (live on)
  | reap w e _ _ _ away => exact woken.left rfl (.inr rfl) rfl fun _ => rfl
  | freed w _ => exact woken.left rfl (.inl rfl) rfl (by simp)
  | enter w x f rest entering frames =>
      have pc : f.pc = .asleep := by
        obtain ⟨_, empty⟩ | ⟨_, g, rest', equal, pc⟩ := inv.entering w x entering
        · simp [empty] at frames
        · obtain ⟨rfl, _⟩ := List.cons.inj (equal.symm.trans frames)
          exact pc
      refine ⟨fun w' y _ calm => absurd rfl (calm _ _ rfl), fun w' n placed waits => ?_⟩
      have before : v.place w' = .entering (some (.sub t n)) ∨
          v.place w' = .on (some (.sub t n)) := by
        by_cases same : w' = w
        · obtain rfl : x = some (.sub t n) := by simpa [same] using placed
          exact .inl (same ▸ entering)
        · simpa [same] using placed
      obtain ⟨g, member, waiting⟩ := waits
      refine woken.subscribed w' n before (waits_setTop frames (fun waits => ?_) g member waiting)
      simpa [Frame.waits, pc, Pc.onStack] using waits
  | start w x entering frames posted =>
      have only : ∀ w', w' ≠ w → v.place w' = .away := by
        intro w' other
        by_contra busy
        exact other (inv.unique w' w busy (by simp [entering]))
      refine ⟨fun w' y on => ?_, fun w' n placed => ?_⟩
      · by_cases same : w' = w
        · simp [same] at on
        · simp [same, only w' same] at on
      · by_cases same : w' = w
        · simp [same] at placed
        · simp [same, only w' same] at placed
  | begin w x k call pc user _ begins =>
      refine woken.step rfl (fun g rest frames => ?_) (fun g member waits => ?_) (by simp)
      · exact Frame.awake_of_condition (user.condition g rest frames)
      · rcases List.mem_cons.mp member with rfl | below
        · have off : pc.onStack = false := by cases begins <;> rfl
          simp [Frame.waits, off] at waits
        · exact ⟨g, below, waits⟩
  | enqueue w x f rest _ top pc leaf _ =>
      refine woken.step rfl (top.awake (by simp [pc])) (waits_setTop top.2 ?_) fun _ => rfl
      simp [Frame.waits, Pc.onStack]
  | push w x f rest top pc =>
      refine woken.step rfl (top.awake (by simp [pc])) (waits_setTop top.2 ?_) fun _ => rfl
      have admits := control.admits f rest top.2
      have leaf : f.call.isLeaf = true := by
        rw [pc] at admits
        cases call : f.call <;> simp_all [Call.admits, Call.isLeaf]
      simp [Frame.waits, leaf]
  | prepare w x f rest top pc _ => exact .cleared (inv.executed top.1) rfl (.inl rfl)
  | turn w x f rest pc top turned =>
      refine woken.step rfl (top.awake turned.awake.1) (waits_setTop top.2 ?_) fun _ => rfl
      simp [Frame.waits, turned.onStack]
  | acquire w x f rest m top _ pc _ =>
      refine woken.step rfl (top.awake (by simp [pc])) (waits_setTop top.2 ?_) fun _ => rfl
      simp [Frame.waits, pc, Pc.onStack]
  | refused w x f rest rv top pc _ =>
      exact woken.step rfl (top.awake (by simp [pc])) (waits_tail top.2) (by simp [apart top.2])
  | returnPlain w x f rest rv top unplaced _ _ =>
      exact woken.step rfl (top.awake (Pc.awake_of_unplaced unplaced)) (waits_tail top.2)
        (by simp [apart top.2])
  | returnLocked w x f rest m top unplaced _ _ =>
      exact woken.step rfl (top.awake (Pc.awake_of_unplaced unplaced)) (waits_tail top.2)
        (by simp [apart top.2])
  | sleep w x f rest top _ _ => exact .cleared (inv.executed top.1) rfl (.inr rfl)
  | resumeEvent w x f rest e top _ _ pending _ _ =>
      refine .woken (inv.executed top.1) rfl (fun calm => absurd rfl (calm _ _ rfl)) ?_
      rintro n rfl _
      exact live pending
  | resumeSignal w x f rest e top _ _ pending _ =>
      refine .woken (inv.executed top.1) rfl (fun calm => absurd rfl (calm _ _ rfl)) ?_
      rintro n rfl _
      exact live pending
  | finishExpected w x f rest top _ _ _ _ => exact .cleared (inv.executed top.1) rfl (.inl rfl)
  | finishRequeue w e f rest top _ _ _ _ _ _ => exact .cleared (inv.executed top.1) rfl (.inl rfl)
  | finishIgnored w e f rest top pc _ owned alive signal _ _ =>
      have act := inv.executed top.1
      refine .woken act (Eq.symm (Function.update_eq_self_iff.mpr top.1.symm)) (fun _ => ?_) ?_
      · exact inv.sub_of_signal owned signal
      · rintro n rfl _
        simpa [apart top.2] using alive
  | finishIntr w e f rest top pc _ owned alive signal _ =>
      have act := inv.executed top.1
      refine .woken act (Eq.symm (Function.update_eq_self_iff.mpr top.1.symm)) (fun _ => ?_) ?_
      · exact inv.sub_of_signal owned signal
      · rintro n rfl _
        simpa [apart top.2] using alive
  | leafDone w f rest rv top _ _ _ => exact .cleared (inv.executed top.1) rfl (.inl rfl)
  | leafIntr w e after f rest top pc leaf owned other left =>
      have act := inv.executed top.1
      rcases left with rfl | rfl
      · obtain ⟨y, equal, delivered⟩ := inv.delivered w _ f rest top.2 (.inr ⟨top.1, pc⟩)
        obtain rfl := Option.some.inj equal
        obtain ⟨n, rfl⟩ : ∃ n, e = .sub t n := by
          rcases delivered with ⟨own, _⟩ | ⟨sub, _⟩
          · exact absurd own other
          · exact sub
        refine .woken act rfl (fun _ => ⟨n, rfl⟩) ?_
        rintro k equal ⟨g, member, waits⟩
        obtain rfl : n = k := by simpa using equal
        have alive := woken.subscribed w n (.inr top.1) (waits_tail top.2 g member waits)
        simpa [apart top.2] using alive
      · exact .cleared act rfl (.inl rfl)
  | subscribe w x n g user _ => exact .cleared (inv.executed user.1) rfl (.inl rfl)
  | trylock _ _ _ _ _ => exact woken.same rfl rfl fun _ => rfl
  | unlock _ _ _ _ _ _ _ _ => exact woken.same rfl rfl fun _ => rfl
  | dying _ _ _ _ _ _ => exact woken.same rfl rfl fun _ => rfl
  | postExit w x on _ _ _ => exact .cleared (inv.executed on) rfl (.inr rfl)
  | exitMain w x on _ => exact .cleared (inv.executed on) rfl (.inr rfl)

end Libtcr
