import Libtcr.ThreadInvariantProperties

/-! The event stack of a thread whose sleeping calls all take their event off the stack. -/

set_option autoImplicit false

namespace Libtcr

/-- The top of the event stack of a thread with these calls. `base` is what lies below the
event of the outermost call. -/
def topOf (base : Option EventId) : List Frame → Option EventId
  | [] => base
  | f :: rest => if f.pc.onStack then some f.e else topOf base rest

/-- Every call found the event stack as the calls around it had left it, and has linked its
event to it. -/
def Nested (base : Option EventId) (next : EventId → Option EventId) : List Frame → Prop
  | [] => True
  | f :: rest => f.saved = topOf base rest ∧ (f.pc.onStack = true → next f.e = f.saved) ∧
      Nested base next rest

structure StackInv (base : Option EventId) (v : View) : Prop where
  top : v.stack = topOf base v.frames
  nested : Nested base v.next v.frames

section Nested

variable {base : Option EventId} {next after : EventId → Option EventId} {f g : Frame}
  {rest frames : List Frame}

private theorem topOf_on (pc : f.pc.onStack = true) : topOf base (f :: rest) = some f.e := by
  simp [topOf, pc]

private theorem topOf_off (pc : f.pc.onStack = false) :
    topOf base (f :: rest) = topOf base rest := by
  simp [topOf, pc]

theorem Nested.congr (nested : Nested base next frames)
    (same : ∀ f ∈ frames, after f.e = next f.e) : Nested base after frames := by
  induction frames with
  | nil => trivial
  | cons f rest ih =>
      obtain ⟨saved, linked, below⟩ := nested
      refine ⟨saved, fun pc => (same f (.head _)).trans (linked pc), ih below ?_⟩
      exact fun g member => same g (.tail _ member)

end Nested

namespace StackInv

variable {base : Option EventId} {v : View} {f g : Frame} {rest : List Frame}

theorem keep {v' : View} (inv : StackInv base v) (frames : v'.frames = v.frames)
    (stack : v'.stack = v.stack) (next : ∀ f ∈ v.frames, v'.next f.e = v.next f.e) :
    StackInv base v' where
  top := by rw [stack, frames, inv.top]
  nested := by
    rw [frames]
    exact inv.nested.congr next

theorem saved (inv : StackInv base v) (frames : v.frames = f :: rest) :
    f.saved = topOf base rest := by
  have nested := inv.nested
  rw [frames] at nested
  exact nested.1

theorem below (inv : StackInv base v) (frames : v.frames = f :: rest) :
    Nested base v.next rest := by
  have nested := inv.nested
  rw [frames] at nested
  exact nested.2.2

theorem first (inv : StackInv base v) (frames : v.frames = f :: rest)
    (pc : f.pc.onStack = true) : v.stack = some f.e ∧ v.next f.e = topOf base rest := by
  have nested := inv.nested
  rw [frames] at nested
  refine ⟨?_, (nested.2.1 pc).trans nested.1⟩
  rw [inv.top, frames, topOf_on pc]

theorem setPc {pc : Pc} (inv : StackInv base v) (frames : v.frames = f :: rest)
    (same : pc.onStack = f.pc.onStack) {v' : View} (frames' : v'.frames = { f with pc := pc } :: rest)
    (stack : v'.stack = v.stack) (next : v'.next = v.next) : StackInv base v' where
  top := by
    rw [stack, inv.top, frames, frames', topOf, topOf, same]
  nested := by
    rw [frames', next]
    have nested := inv.nested
    rw [frames] at nested
    refine ⟨nested.1, ?_, nested.2.2⟩
    dsimp only
    rw [same]
    exact nested.2.1

theorem push {pc : Pc} (inv : StackInv base v) (frames : v.frames = f :: rest)
    (off : f.pc.onStack = false) (on : pc.onStack = true) (fresh : ∀ g ∈ rest, g.e ≠ f.e)
    {v' : View} (frames' : v'.frames = { f with pc := pc, saved := v.stack } :: rest)
    (stack : v'.stack = some f.e) (next : v'.next = Function.update v.next f.e v.stack) :
    StackInv base v' where
  top := by
    rw [stack, frames']
    simp [topOf, on]
  nested := by
    rw [frames', next]
    refine ⟨?_, fun _ => Function.update_self _ _ _, ?_⟩
    · dsimp only
      rw [inv.top, frames, topOf_off off]
    · exact (inv.below frames).congr fun g member => Function.update_of_ne (fresh g member) _ _

theorem pop {pc : Pc} (inv : StackInv base v) (frames : v.frames = f :: rest)
    (on : f.pc.onStack = true) (off : pc.onStack = false)
    {v' : View} (frames' : v'.frames = { f with pc := pc } :: rest)
    (stack : v'.stack = v.next f.e) (next : v'.next = v.next) : StackInv base v' where
  top := by
    rw [stack, (inv.first frames on).2, frames']
    simp [topOf, off]
  nested := by
    rw [frames', next]
    have saved := inv.saved frames
    refine ⟨saved, fun pc => ?_, inv.below frames⟩
    simp [off] at pc

theorem leave (inv : StackInv base v) (frames : v.frames = f :: rest)
    (off : f.pc.onStack = false) {v' : View} (frames' : v'.frames = rest)
    (stack : v'.stack = v.stack) (next : v'.next = v.next) : StackInv base v' where
  top := by rw [stack, inv.top, frames, frames', topOf_off off]
  nested := by
    rw [frames', next]
    exact inv.below frames

private theorem popLeave (inv : StackInv base v) (frames : v.frames = f :: rest)
    (on : f.pc.onStack = true) {v' : View} (frames' : v'.frames = rest)
    (stack : v'.stack = v.next f.e) (next : v'.next = v.next) : StackInv base v' where
  top := by rw [stack, (inv.first frames on).2, frames']
  nested := by
    rw [frames', next]
    exact inv.below frames

end StackInv

private theorem Pc.off_of_unplaced {pc : Pc} (unplaced : pc.unplaced = true) :
    pc.onStack = false := by
  cases pc <;> simp_all [Pc.unplaced, Pc.onStack]

theorem Turn.onStack {v : View} {call : Call} {before after : Pc} (turned : Turn v call before after) :
    after.onStack = before.onStack := by
  cases turned <;> rfl

private theorem Call.afterPrepare_onStack (call : Call) : call.afterPrepare.onStack = true := by
  cases call <;> rfl

/-- Unless `tc_waitq_finish_wait` leaves an event on the stack, the stack is as the calls
of the thread say; an outermost call may leave its event at the bottom. -/
theorem ViewStep.stackInv {t : Tid} {v v' : View} {kind : Kind} {base : Option EventId}
    (step : ViewStep t v kind v') (inv : ThreadInv t v) (stack : StackInv base v)
    (allowed : kind ≠ .signalOnly true) :
    StackInv (if kind = .signalOnly false then v.stack else base) v' := by
  have woken : ∀ {f : Frame}, f.pc = .woke ∨ f.pc = .holds → f.pc.onStack = true := by
    rintro f (pc | pc) <;> simp [pc, Pc.onStack]
  cases step with
  | enter w x f rest entering frames =>
      obtain ⟨_, empty⟩ | ⟨_, f', rest', equal, pc⟩ := inv.entering w x entering
      · simp [empty] at frames
      obtain ⟨rfl, rfl⟩ := List.cons.inj (equal.symm.trans frames)
      exact stack.setPc frames (by simp [pc, Pc.onStack]) rfl rfl rfl
  | born _ =>
      exact stack.keep rfl rfl fun f member => Function.update_of_ne (inv.auto_ne_self member) _ _
  | begin w x n call pc _ unused begins =>
      have off : pc.onStack = false := by cases begins <;> rfl
      have fresh : ∀ g ∈ v.frames, g.e ≠ .auto t n := by
        intro g member equal
        have live := (inv.frame g member).2
        simp [equal, unused] at live
      refine ⟨?_, ?_, fun on => ?_, ?_⟩
      · exact stack.top.trans (topOf_off off).symm
      · exact stack.top
      · simp [off] at on
      · exact stack.nested.congr fun g member => Function.update_of_ne (fresh g member) _ _
  | enqueue w x f rest flag top pc _ _ =>
      exact stack.setPc top.2 (by simp [pc, Pc.onStack]) rfl rfl rfl
  | push w x f rest top pc =>
      exact stack.push top.2 (by simp [pc, Pc.onStack]) rfl (inv.fresh_below top.2) rfl rfl rfl
  | prepare w x f rest top pc _ =>
      exact stack.push top.2 (by simp [pc, Pc.onStack]) (Call.afterPrepare_onStack _)
        (inv.fresh_below top.2) rfl rfl rfl
  | turn w x f rest pc top turned => exact stack.setPc top.2 turned.onStack rfl rfl rfl
  | acquire w x f rest m top _ pc _ =>
      exact stack.setPc top.2 (by simp [pc, Pc.onStack]) rfl rfl rfl
  | refused w x f rest rv top pc _ =>
      exact stack.leave top.2 (by simp [pc, Pc.onStack]) rfl rfl rfl
  | returnPlain w x f rest rv top unplaced _ _ =>
      exact stack.leave top.2 (Pc.off_of_unplaced unplaced) rfl rfl rfl
  | returnLocked w x f rest m top unplaced _ _ =>
      exact stack.leave top.2 (Pc.off_of_unplaced unplaced) rfl rfl rfl
  | sleep w x f rest top pc _ => exact stack.setPc top.2 (by simp [pc, Pc.onStack]) rfl rfl rfl
  | resumeEvent w x f rest e top pc _ _ _ _ =>
      exact stack.setPc top.2 (by simp [pc, Pc.onStack]) rfl rfl rfl
  | resumeSignal w x f rest e top pc _ _ _ =>
      exact stack.setPc top.2 (by simp [pc, Pc.onStack]) rfl rfl rfl
  | finishExpected w x f rest top pc _ _ _ => exact stack.pop top.2 (woken pc) rfl rfl rfl rfl
  | finishRequeue w e f rest top pc _ _ _ _ _ =>
      have kept : (if (if f.pc = .holds then Kind.staleRequeue else .plain) = .signalOnly false
          then v.stack else base) = base := by
        by_cases holds : f.pc = .holds <;> simp [holds]
      rw [kept]
      exact stack.pop top.2 (woken pc) rfl rfl rfl rfl
  | finishIgnored w e f rest top _ _ _ _ _ _ _ =>
      cases rest with
      | nil =>
          simp only [List.isEmpty_nil, Bool.not_true, ↓reduceIte]
          exact ⟨rfl, trivial⟩
      | cons g rest => exact absurd rfl allowed
  | finishIntr w e f rest top _ _ _ _ _ _ =>
      cases rest with
      | nil =>
          simp only [List.isEmpty_nil, Bool.not_true, ↓reduceIte]
          exact ⟨rfl, trivial⟩
      | cons g rest => exact absurd rfl allowed
  | leafDone w f rest rv top pc _ _ =>
      exact stack.popLeave top.2 (by simp [pc, Pc.onStack]) rfl rfl rfl
  | leafIntr w e after f rest top pc _ _ _ _ =>
      exact stack.popLeave top.2 (by simp [pc, Pc.onStack]) rfl rfl rfl
  | subscribe w x n g _ _ =>
      exact stack.keep rfl rfl fun f member => Function.update_of_ne (inv.auto_ne_sub member n) _ _
  | _ => exact stack.keep rfl rfl fun _ _ => rfl

end Libtcr
