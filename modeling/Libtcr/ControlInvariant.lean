import Libtcr.ThreadInvariantProperties

/-! Which program counters the sleeping calls have. -/

set_option autoImplicit false

namespace Libtcr

def Call.admits : Call → Pc → Bool
  | _, .prep | _, .pushed | _, .asleep | _, .woke => true
  | .yield, .queued | .fd _, .queued => true
  | .cond _, .test0 | .cond _, .test | .cond _, .holds => true
  | .mutex _, .cas0 | .mutex _, .own1 | .mutex _, .cas1 => true
  | .mutex _, .own | .mutex _, .cas | .mutex _, .holds => true
  | _, _ => false

structure ControlInv (v : View) : Prop where
  admits : ∀ f rest, v.frames = f :: rest → f.call.admits f.pc = true
  /-- `tc_mutex_lock` runs no code of the application between
  `tc_waitq_prepare_to_wait`, which clears `woken_by_event`, and `tc_scheduler`. -/
  cleared : ∀ w x f rest m, v.place w = .on x → v.frames = f :: rest → f.call = .mutex m →
    f.pc = .own ∨ f.pc = .cas ∨ f.pc = .holds → x = none

namespace ControlInv

variable {v v' : View}

theorem keep (inv : ControlInv v) (frames : v'.frames = v.frames)
    (place : ∀ w x, v'.place w = .on x → v.place w = .on x) : ControlInv v' where
  admits f rest equal := inv.admits f rest (frames ▸ equal)
  cleared w x f rest m on equal := inv.cleared w x f rest m (place w x on) (frames ▸ equal)

theorem setTop {g : Frame} {rest : List Frame} (frames : v'.frames = g :: rest)
    (admits : g.call.admits g.pc = true)
    (cleared : ∀ w x m, v'.place w = .on x → g.call = .mutex m →
      g.pc = .own ∨ g.pc = .cas ∨ g.pc = .holds → x = none) : ControlInv v' where
  admits f rest' equal := by
    obtain ⟨rfl, _⟩ := List.cons.inj (frames.symm.trans equal)
    exact admits
  cleared w x f rest' m on equal := by
    obtain ⟨rfl, _⟩ := List.cons.inj (frames.symm.trans equal)
    exact cleared w x m on

private theorem setPlain {g : Frame} {rest : List Frame} (frames : v'.frames = g :: rest)
    (admits : g.call.admits g.pc = true) (pc : g.pc ≠ .own ∧ g.pc ≠ .cas ∧ g.pc ≠ .holds) :
    ControlInv v' :=
  setTop frames admits fun _ _ _ _ _ critical => by simp [pc] at critical

theorem condition (code : ∀ f rest, v'.frames = f :: rest → f.inCondition = true) :
    ControlInv v' where
  admits f rest frames := by
    have condition := code f rest frames
    unfold Frame.inCondition at condition
    split at condition <;> simp_all [Call.admits]
  cleared w x f rest m _ frames call := by
    have condition := code f rest frames
    simp [Frame.inCondition, call] at condition

end ControlInv

private theorem ThreadInv.below_condition {t : Tid} {v : View} {f : Frame} {rest : List Frame}
    (inv : ThreadInv t v) (frames : v.frames = f :: rest) (g : Frame) (rest' : List Frame)
    (below : rest = g :: rest') : g.inCondition = true :=
  inv.lower f rest frames g (below ▸ .head _)

theorem Turn.control {v : View} {call : Call} {before after : Pc}
    (turned : Turn v call before after) : call.admits after = true ∧
      ∀ m, call = .mutex m → after = .own ∨ after = .cas ∨ after = .holds →
        before = .own ∨ before = .cas ∨ before = .holds := by
  cases turned <;> simp [Call.admits]

theorem ViewStep.controlInv {t : Tid} {v v' : View} {kind : Kind} (step : ViewStep t v kind v')
    (inv : ThreadInv t v) (control : ControlInv v) : ControlInv v' := by
  cases step with
  | wake _ _ => exact control.keep rfl fun _ _ on => on
  | fire _ _ _ => exact control.keep rfl fun _ _ on => on
  | grant _ _ _ _ => exact control.keep rfl fun _ _ on => on
  | share _ _ _ _ _ => exact control.keep rfl fun _ _ on => on
  | cancel _ _ => exact control.keep rfl fun _ _ on => on
  | born _ => exact control.keep rfl fun _ _ on => on
  | post _ _ => exact control.keep rfl fun _ _ on => on
  | queue _ _ _ _ _ _ _ => exact control.keep rfl fun _ _ on => on
  | selectSignal w e k _ _ _ _ _ _ =>
      exact control.keep rfl fun w' x on => (Update.old_of_ne on (by simp)).2
  | selectEvent w e k _ _ _ _ _ _ _ _ =>
      exact control.keep rfl fun w' x on => (Update.old_of_ne on (by simp)).2
  | reap w e _ _ _ _ =>
      exact control.keep rfl fun w' x on => (Update.old_of_ne on (by simp)).2
  | freed w _ =>
      exact control.keep rfl fun w' x on => (Update.old_of_ne on (by simp)).2
  | enter w x f rest _ frames => exact .setPlain rfl (by cases f.call <;> rfl) (by simp)
  | start w x _ frames _ => exact .condition fun f rest equal => by simp [frames] at equal
  | begin w x n call pc user unused begins =>
      refine .setPlain rfl ?_ ?_
      · cases begins <;> rfl
      · cases begins <;> simp
  | enqueue w x f rest flag top pc leaf _ =>
      refine .setPlain rfl ?_ (by simp)
      cases call : f.call <;> simp_all [Call.isLeaf, Call.admits]
  | push w x f rest top pc => exact .setPlain rfl (by cases f.call <;> rfl) (by simp)
  | prepare w x f rest top pc queue =>
      refine .setTop rfl (by cases f.call <;> rfl) fun w' y m on _ _ => ?_
      have act := inv.executed top.1
      by_cases same : w' = w
      · simpa [same] using on.symm
      · have old : v.place w' = .on y := by simpa [same] using on
        exact absurd (act.placed old (by simp)).1 same
  | turn w x f rest pc top turned =>
      obtain ⟨admits, before⟩ := turned.control
      refine .setTop rfl admits fun w' y m on call critical => ?_
      exact control.cleared w' y f rest m on top.2 call (before m call critical)
  | acquire w x f rest m top call pc _ =>
      refine .setTop rfl (by simp [call, Call.admits]) fun w' y m' on _ _ => ?_
      exact control.cleared w' y f rest m on top.2 call (.inr (.inl pc))
  | refused w x f rest rv top pc _ => exact .condition (inv.below_condition top.2)
  | returnPlain w x f rest rv top _ _ _ => exact .condition (inv.below_condition top.2)
  | returnLocked w x f rest m top _ _ _ => exact .condition (inv.below_condition top.2)
  | sleep w x f rest top pc _ => exact .setPlain rfl (by cases f.call <;> rfl) (by simp)
  | resumeEvent w x f rest e top pc _ _ _ _ =>
      exact .setPlain rfl (by cases f.call <;> rfl) (by simp)
  | resumeSignal w x f rest e top pc _ _ _ =>
      exact .setPlain rfl (by cases f.call <;> rfl) (by simp)
  | finishExpected w x f rest top pc _ _ _ =>
      exact .setPlain rfl (by cases f.call <;> rfl) (by simp)
  | finishRequeue w e f rest top pc _ _ _ _ _ =>
      exact .setPlain rfl (by cases f.call <;> rfl) (by simp)
  | finishIgnored w e f rest top _ _ _ _ _ _ _ => exact .condition (inv.below_condition top.2)
  | finishIntr w e f rest top _ _ _ _ _ _ => exact .condition (inv.below_condition top.2)
  | leafDone w f rest rv top _ _ _ => exact .condition (inv.below_condition top.2)
  | leafIntr w e after f rest top _ _ _ _ _ => exact .condition (inv.below_condition top.2)
  | subscribe w x n g user _ => exact .condition user.condition
  | trylock _ _ _ _ _ => exact control.keep rfl fun _ _ on => on
  | unlock _ _ _ _ _ _ _ _ => exact control.keep rfl fun _ _ on => on
  | dying _ _ _ _ _ _ => exact control.keep rfl fun _ _ on => on
  | postExit w x _ frames _ _ => exact .condition fun f rest equal => by simp [frames] at equal
  | exitMain w x _ frames => exact .condition fun f rest equal => by simp [frames] at equal

end Libtcr
