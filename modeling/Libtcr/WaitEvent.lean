import Libtcr.CallSteps

/-! `tc_waitq_wait_event` loses no wakeup. The conditions are functions of the data of the
application, which any thread may change at any time; `changed` notes for every wait queue
whether that has happened since the last `tc_waitq_wakeup_all` of the queue. -/

set_option autoImplicit false

namespace Libtcr

open State

structure DataState (Data : Type) where
  sys : State
  data : Data
  changed : Nat → Bool

inductive DataAction (Data : Type) where
  | act (a : Action)
  | write (data : Data)

/-- The wait queue of the application on which the step calls `tc_waitq_wakeup_all`. -/
def Action.wakesAll : Action → Option Nat
  | .aio _ k | .user _ (.wakeupAll k) => some k
  | _ => none

namespace DataState

variable {Data : Type} (holds : EventId → Data → Bool)

/-- A condition that is evaluated has the value that it has for the data. -/
def evaluates (s : DataState Data) : Action → Bool
  | .condition w value =>
    match s.sys.mode w with
    | .thread t =>
      match s.sys.frames t with
      | f :: _ => value == holds f.e s.data
      | [] => true
    | _ => true
  | _ => true

def changedAfter (s : DataState Data) (a : Action) (sys : State) : Nat → Bool :=
  match a.wakesAll with
  | some k => if sys.fault = none then Function.update s.changed k false else s.changed
  | none => s.changed

def step (s : DataState Data) : DataAction Data → Option (DataState Data)
  | .act a =>
    if s.evaluates holds a then
      (s.sys.step a).map fun sys => { s with
        sys := sys
        changed := s.changedAfter a sys }
    else none
  | .write data => some { s with data := data, changed := fun _ => true }

def initial (workers : Nat) (domainOf : WorkerId → DomainId) (data : Data) : DataState Data where
  sys := .initial workers domainOf
  data := data
  changed _ := false

def Reached (workers : Nat) (domainOf : WorkerId → DomainId) (data : Data) : DataState Data → Prop :=
  Transition.Run (step holds) Transition.always (.initial workers domainOf data)

end DataState

/-! ## The invariant -/

/-- A call that has found its condition false after it queued its event. -/
def Pc.decided : Pc → Bool
  | .pushed | .asleep => true
  | _ => false

section Invariant

variable {Data : Type} {holds : EventId → Data → Bool}

/-- The condition of a call that rests on its queue is false, or the data has been changed
since the last wakeup of the queue. -/
def DataState.Decided (holds : EventId → Data → Bool) (s : DataState Data) : Prop :=
  ∀ t f k, f ∈ s.sys.frames t → f.call = .cond k → f.pc.decided = true →
    s.sys.el f.e = some (.waiters (.user k)) → holds f.e s.data = false ∨ s.changed k = true

structure DataInv (holds : EventId → Data → Bool) (s : DataState Data) : Prop where
  sys : SystemInv s.sys
  decided : s.Decided holds

variable {s s' : State} {t : Tid} {e : EventId} {k : Nat} {a : Action}

theorem wakesAll_empties (inv : SystemInv s) (effect : s.Effect a s') (wakes : a.wakesAll = some k) :
    s'.el e ≠ some (.waiters (.user k)) := by
  have emptied : (s.tcWaitqWakeupAll (.user k)).el e ≠ some (.waiters (.user k)) := by
    intro stays
    have before := came_wakeupAll stays rfl rfl
    have member : e ∈ s.events (.waiters (.user k)) := inv.lists.mem_events.mpr before
    rw [State.el, tcWaitqWakeupAll_lists,
      (IntrusiveLists.movesTo_front EventList.immediate).foldl_el s.lists _ e] at stays
    simp [member] at stays
  cases effect with
  | aio w q _ =>
      cases wakes
      exact emptied
  | user w u op _ _ _ effect =>
      cases effect with
      | wakeupAll q =>
          cases wakes
          exact emptied
      | _ => cases wakes
  | _ => cases wakes

theorem rested_before (inv : SystemInv s) (effect : s.Effect a s') {f : Frame}
    (member : f ∈ s.frames t) (decided : f.pc.decided = true)
    (rests : s'.el f.e = some (.waiters (.user k))) : s.el f.e = some (.waiters (.user k)) := by
  have thread := inv.thread t
  have mine : f ∈ (s.view t).frames := by simpa [State.view] using member
  obtain ⟨⟨n, auto⟩, live⟩ := thread.frame f mine
  have home : f.e.owner = t := thread.event_owner mine
  rcases effect.arrives inv.lists rests rfl with before | arrives
  · exact before
  · cases arrives with
    | waitFd _ _ _ _ _ _ _ _ _ list => cases list
    | threadWait _ _ _ _ _ _ _ _ list => cases list
    | waitqWait w u m q on event list =>
        -- the event of a new call has not lived before
        cases effect with
        | user _ u' _ _ on' _ effect =>
            cases effect with
            | waitqWait _ _ _ unused _ =>
                cases on.symm.trans on'
                rw [← event] at unused
                simp [State.view, own, home, unused] at live
    | prepared w u g rest on frames pc queue event list =>
        have owner : g.e.owner = u := (inv.thread u).event_owner (by simp [State.view, frames])
        obtain rfl : u = t := by rw [← owner, ← event, home]
        have same := thread.frame_unique mine (by simp [State.view, frames]) event
        simp [same, pc, Pc.decided] at decided

/-- A call of `tc_waitq_wait_event` begins with the condition still to be evaluated. -/
theorem State.UserEffect.begun_undecided {w : WorkerId} {op : UserOp} {n : Nat} {pc : Pc}
    {saved : Option EventId} {rest : List Frame} (effect : UserEffect s w t op s')
    (begins : op.begins = some (.cond k))
    (frames : s'.frames t = ⟨.cond k, .auto t n, pc, saved⟩ :: rest) : pc.decided = false := by
  cases effect with
  | waitEvent m q _ =>
      simp only [pushFrame, tcEventInit, Function.update_self, List.cons.injEq, Frame.mk.injEq]
        at frames
      rw [← frames.1.2.2.1]
      rfl
  | waitEventLoop m q _ =>
      simp only [pushFrame, tcEventInit, Function.update_self, List.cons.injEq, Frame.mk.injEq]
        at frames
      rw [← frames.1.2.2.1]
      rfl
  | _ => cases begins

/-- What a step does to the calls that have decided to sleep: they had decided before, or
have just found their condition false. -/
theorem decided_before (inv : SystemInv s) (done : s.act a = some (.ok s')) {f : Frame}
    (member : f ∈ s'.frames t) (call : f.call = .cond k) (decided : f.pc.decided = true) :
    (∃ g ∈ s.frames t, g.e = f.e ∧ g.call = .cond k ∧ g.pc.decided = true) ∨
      ∃ w g rest, a = .condition w false ∧ s.mode w = .thread t ∧ s.frames t = g :: rest ∧
        g.e = f.e ∧ g.call = .cond k ∧ g.pc = .test := by
  have old : f ∈ s.frames t →
      ∃ g ∈ s.frames t, g.e = f.e ∧ g.call = .cond k ∧ g.pc.decided = true :=
    fun before => ⟨f, before, rfl, call, decided⟩
  cases State.act_callStep inv done t with
  | idle _ _ calls _ => exact .inl (old (calls.1 ▸ member))
  | entered w g rest _ _ frames after _ _ _ =>
      rw [after] at member
      rcases List.mem_cons.mp member with rfl | below
      · cases decided
      · exact .inl (old (frames ▸ .tail _ below))
  | user w op _ on _ effect =>
      rcases effect.frames with same | ⟨begun, n, pc, begins, frames⟩
      · exact .inl (old (same ▸ member))
      · rw [frames] at member
        rcases List.mem_cons.mp member with rfl | below
        · cases call
          exact absurd decided (by simp [effect.begun_undecided begins frames])
        · exact .inl (old below)
  | moved w g h rest _ _ on by_ frames after event same cond _ _ =>
      rw [after] at member
      rcases List.mem_cons.mp member with rfl | below
      · have move := cond k (same ▸ call)
        rcases by_ with rfl | ⟨value, rfl⟩
        · generalize before : g.pc = pc at move
          generalize now : f.pc = pc' at move
          cases move with
          | slept _ =>
              exact .inl ⟨g, frames ▸ .head _, event.symm, same ▸ call, by simp [before, Pc.decided]⟩
          | _ => simp [now, Pc.decided] at decided
        · generalize before : g.pc = pc at move
          generalize now : f.pc = pc' at move
          cases move with
          | isFalse _ =>
              exact .inr ⟨w, g, rest, rfl, on, frames, event.symm, same ▸ call, before⟩
          | _ => simp [now, Pc.decided] at decided
      · exact .inl (old (frames ▸ .tail _ below))
  | returned w g rest rv _ _ on by_ frames after _ _ _ _ _ =>
      exact .inl (old (frames ▸ .tail _ (after ▸ member)))

theorem SystemInv.asleep_cond (inv : SystemInv s) {f : Frame} (member : f ∈ s.frames t)
    (call : f.call = .cond k) (asleep : f.pc = .asleep) :
    s.el f.e = some (.waiters (.user k)) ∨ s.el f.e = some .immediate ∨
      s.el f.e = some (.pending t) ∨ s.running t = true := by
  have thread := inv.thread t
  have mine : f ∈ (s.view t).frames := by simpa [State.view] using member
  have home : f.e.owner = t := thread.event_owner mine
  have list : (s.view t).el f.e = s.el f.e := by simp [State.view, own, home, State.el]
  have located := thread.located f mine
  rw [Located, if_neg (by simp [asleep, Pc.unplaced]), Placed, list] at located
  rcases located with (rests | active | pending) | ⟨taken, _⟩
  · rw [call] at rests
    exact .inl rests
  · exact .inr (.inl active)
  · exact .inr (.inr (.inl pending))
  · -- the event of a sleeping thread that nobody has selected is on a list
    refine .inr (.inr (.inr ?_))
    by_contra stopped
    rcases thread.idle (by simpa [State.view] using stopped) with
      ⟨_, empty⟩ | ⟨_, g, rest, frames, _, on⟩
    · simp [empty] at mine
    · rw [frames] at mine
      rcases List.mem_cons.mp mine with rfl | below
      · exact on (list.trans taken)
      · have inside := thread.lower g rest frames f below
        simp [Frame.inCondition, call, asleep] at inside

private theorem changedAfter_eq {s : DataState Data} {sys : State}
    (kept : a.wakesAll = some k → sys.fault ≠ none) : s.changedAfter a sys k = s.changed k := by
  unfold DataState.changedAfter
  cases wakes : a.wakesAll with
  | none => rfl
  | some q =>
      by_cases running : sys.fault = none
      · have other : k ≠ q := fun same => kept (same ▸ wakes) running
        simp [running, other]
      · simp [running]

theorem DataInv.act {s s' : DataState Data} (inv : DataInv holds s)
    (stepped : s.step holds (.act a) = some s') : DataInv holds s' := by
  simp only [DataState.step] at stepped
  split at stepped
  · next evaluates =>
    obtain ⟨sys, moved, rfl⟩ := Option.map_eq_some_iff.mp stepped
    refine ⟨inv.sys.step moved, ?_⟩
    intro t f k member call decided rests
    rcases State.step_act moved with done | ⟨fault, failed, rfl⟩
    · have effect := act_ok done
      have same : s.changedAfter a sys k = s.changed k :=
        changedAfter_eq fun wakes => absurd rests (wakesAll_empties inv.sys effect wakes)
      rcases decided_before inv.sys done member call decided with
        ⟨g, old, event, calls, was⟩ | ⟨w, g, rest, rfl, on, frames, event, calls, pc⟩
      · rw [← event] at rests
        have before := rested_before inv.sys effect old was rests
        simp only [same, ← event]
        exact inv.decided t g k old calls was before
      · simp only [DataState.evaluates, on, frames, beq_iff_eq] at evaluates
        exact .inl (event ▸ evaluates.symm)
    · have same : s.changedAfter a { s.sys with fault := some fault } k = s.changed k :=
        changedAfter_eq fun _ => by simp
      simp only [same]
      exact inv.decided t f k member call decided rests
  · cases stepped

theorem DataInv.reached {workers : Nat} {domainOf : WorkerId → DomainId} {data : Data}
    {s : DataState Data} (reached : s.Reached holds workers domainOf data) : DataInv holds s := by
  refine Transition.Run.invariant reached (DataInv holds) ⟨.initial workers domainOf, ?_⟩ ?_
  · intro t f k member
    simp [DataState.initial, State.initial] at member
  · intro before after label inv _ stepped
    cases label with
    | act a => exact inv.act stepped
    | write data =>
        cases stepped
        exact ⟨inv.sys, fun _ _ _ _ _ _ _ => .inr rfl⟩

end Invariant

/-! ## Results -/

section Results

variable {Data : Type} {holds : EventId → Data → Bool} {workers : Nat}
  {domainOf : WorkerId → DomainId} {data : Data} {s : DataState Data}

/-- A thread that sleeps in `tc_waitq_wait_event` although its condition holds is on its way
to run, unless the data has been changed after the last `tc_waitq_wakeup_all` of its queue:
its event is active, or a worker has taken it. -/
theorem no_lost_wakeup (reached : s.Reached holds workers domainOf data) {t : Tid} {f : Frame}
    {k : Nat} (member : f ∈ s.sys.frames t) (call : f.call = .cond k) (asleep : f.pc = .asleep)
    (condition : holds f.e s.data = true) (announced : s.changed k = false) :
    s.sys.el f.e = some .immediate ∨ s.sys.el f.e = some (.pending t) ∨
      s.sys.running t = true := by
  have inv := DataInv.reached reached
  rcases inv.sys.asleep_cond member call asleep with rests | woken
  · have late := inv.decided t f k member call (by simp [asleep, Pc.decided]) rests
    simp [condition, announced] at late
  · exact woken

/-- Thread 0 sleeps on queue 0 until the data is true, which thread 1 announces. -/
def announcedRun : List (DataAction Bool) :=
  [.act (.user 0 (.waitEvent 0 0)), .act (.condition 0 false), .act (.advance 0),
    .act (.condition 0 false), .act (.advance 0), .write true, .act (.user 1 (.wakeupAll 0))]

def sleepsAnnounced (s : DataState Bool) : Bool :=
  decide (s.data = true ∧ s.changed 0 = false ∧
    s.sys.frames 0 = [⟨.cond 0, .auto 0 0, .asleep, none⟩] ∧ s.sys.running 0 = false)

set_option maxRecDepth 20000 in
theorem no_lost_wakeup_announced : ∃ s : DataState Bool,
    s.Reached (fun _ data => data) 2 (fun _ => 0) false ∧ sleepsAnnounced s = true ∧
      (s.sys.el (.auto 0 0) = some .immediate ∨ s.sys.el (.auto 0 0) = some (.pending 0) ∨
        s.sys.running 0 = true) := by
  obtain ⟨s, reached, sleeps⟩ := Transition.exists_run (DataState.step fun _ data => data)
    (.initial 2 (fun _ => 0) false) announcedRun sleepsAnnounced (by decide)
  have shown := sleeps
  simp only [sleepsAnnounced, decide_eq_true_eq] at shown
  obtain ⟨data, changed, frames, _⟩ := shown
  exact ⟨s, reached, sleeps, no_lost_wakeup reached
    (f := ⟨.cond 0, .auto 0 0, .asleep, none⟩) (k := 0) (by simp [frames]) rfl rfl data changed⟩

end Results

end Libtcr
