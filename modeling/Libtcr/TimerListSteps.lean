import Libtcr.TimerListInvariant
import Libtcr.OwnerProperties

/-! Every step keeps the invariant of `timer_list`, and while there are threads on the list
somebody has `timer_mutex` or is going to try and lock it. -/

set_option autoImplicit false

namespace Libtcr

open State HeadedList

def InLoop (s : TimerState) (t : Tid) (e : EventId) : Prop :=
  ∃ f rest, s.sys.frames t = f :: rest ∧ f.e = e ∧ f.call = .cond t ∧ f.pc ≠ .test0 ∧ f.pc ≠ .holds

def InTest (s : TimerState) (t : Tid) (e : EventId) : Prop :=
  ∃ f rest, s.sys.frames t = f :: rest ∧ f.e = e ∧ f.call = .cond t ∧ f.pc = .test

def SleepCall (s : TimerState) (t : Tid) : Prop :=
  match s.pc t with
  | .waiting e => (∃ n, e = .auto t n) ∧ (InLoop s t e ∨ s.sys.result e ≠ none)
  | .trying e => InTest s t e
  | .decided e haveLock value => InTest s t e ∧ (haveLock = true → value = true)
  | _ => True

structure SleeperInv (m : MutexId) (s : TimerState) (t : Tid) : Prop where
  held : s.sys.held t m = (s.pc t).holdsMutex
  noLock : ∀ f ∈ s.sys.frames t, f.call ≠ .mutex m
  call : SleepCall s t

/-- Thread `t` has found `timer_mutex` locked, and has not been woken since. -/
def Parked (s : TimerState) (t : Tid) : Prop :=
  ∃ e, s.sys.el e = some (.waiters (.user t)) ∧
    ((∃ haveLock, s.pc t = .decided e haveLock false) ∨
      s.pc t = .waiting e ∧ ∃ f rest, s.sys.frames t = f :: rest ∧ f.e = e ∧
        (f.pc = .pushed ∨ f.pc = .asleep))

/-- The wait of thread `t` is over, but the thread has not yet executed the wakeup in
`remove_from_timer_list_wakeup`. -/
def PastWait (s : TimerState) (t : Tid) : Prop :=
  match s.pc t with
  | .waiting e => s.sys.result e ≠ none
  | .decided _ _ value => value = true
  | .leaving _ _ | .quit _ _ | .removing _ | .removed _ => True
  | _ => False

/-- Somebody looks after the timer, or will do so. -/
def Attended (s : TimerState) (xs : List Tid) : Prop :=
  xs ≠ [] → (∀ t, (s.pc t).holdsMutex = false) → (∃ t ∈ xs, ¬ Parked s t) ∨ ∃ t, PastWait s t

structure SleepInv (m : MutexId) (s : TimerState) (xs : List Tid) : Prop where
  list : TimerInv s xs
  sys : SystemInv s.sys
  owner : OwnerInv s.sys m
  sleeper : ∀ t, SleeperInv m s t
  attended : Attended s xs

/-! ## `timer_mutex` -/

section Mutex

variable {m : MutexId} {s : TimerState} {xs : List Tid} {t u : Tid}

theorem SleepInv.owner_iff (inv : SleepInv m s xs) :
    s.sys.owner m = some t ↔ (s.pc t).holdsMutex = true := by
  rw [← (inv.sleeper t).held]
  refine ⟨fun owner => ?_, owner_of_held inv.sys⟩
  rcases inv.owner t owner with held | ⟨f, rest, frames, call⟩
  · exact held
  · exact absurd call ((inv.sleeper t).noLock f (by simp [frames]))

theorem SleepInv.owner_none (inv : SleepInv m s xs) :
    s.sys.owner m = none ↔ ∀ t, (s.pc t).holdsMutex = false := by
  rw [Option.eq_none_iff_forall_ne_some]
  refine forall_congr' fun t => ?_
  rw [ne_eq, inv.owner_iff, Bool.not_eq_true]

theorem SleepInv.master_unique (inv : SleepInv m s xs) (first : (s.pc t).holdsMutex = true)
    (second : (s.pc u).holdsMutex = true) : t = u :=
  Option.some.inj ((inv.owner_iff.mpr first).symm.trans (inv.owner_iff.mpr second))

end Mutex

/-! ## Steps of the library and of the rest of the application -/

section System

variable {m : MutexId} {s : TimerState} {xs : List Tid} {t : Tid} {a : Action} {sys : State}

private theorem TimerState.outside_iff {w : WorkerId} (on : s.sys.mode w = .thread t)
    (outside : s.outside w = true) : s.pc t = .outside := by
  simpa [TimerState.outside, on] using outside

theorem TimerState.allows_user {w : WorkerId} {op : UserOp} (allowed : s.allows m (.user w op) = true)
    (on : s.sys.mode w = .thread t) : s.pc t = .outside ∧ op.usesMutex m = false := by
  simp only [TimerState.allows, Bool.and_eq_true, Bool.not_eq_true'] at allowed
  exact ⟨TimerState.outside_iff on allowed.1, allowed.2⟩

theorem SleepCall.outside (outside : s.pc t = .outside) : SleepCall s t := by
  simp [SleepCall, outside]

theorem InTest.callStep {e : EventId} (test : InTest s t e) (inside : s.pc t ≠ .outside)
    (allowed : s.allows m a = true) (step : CallStep s.sys t a sys) :
    InTest { s with sys := sys } t e := by
  obtain ⟨f, rest, frames, event, call, pc⟩ := test
  cases step with
  | idle _ _ calls _ => exact ⟨f, rest, calls.1.trans frames, event, call, pc⟩
  | entered w g rest' _ _ again _ asleep _ _ =>
      obtain ⟨rfl, _⟩ := List.cons.inj (frames.symm.trans again)
      simp [pc] at asleep
  | user w op _ on _ _ => exact absurd (TimerState.allows_user allowed on).1 inside
  | moved w g h rest' _ _ on by_ again _ _ _ cond _ _ =>
      obtain ⟨rfl, _⟩ := List.cons.inj (frames.symm.trans again)
      have move := cond t call
      rw [pc] at move
      rcases by_ with rfl | ⟨value, rfl⟩
      · cases move
      · exact absurd (TimerState.outside_iff on allowed) inside
  | returned w g rest' rv _ _ on by_ again _ cond _ _ _ _ =>
      obtain ⟨rfl, _⟩ := List.cons.inj (frames.symm.trans again)
      have back := cond t call
      rw [pc] at back
      cases back

theorem InLoop.callStep {e : EventId} (loop : InLoop s t e) (inside : s.pc t ≠ .outside)
    (allowed : s.allows m a = true) (step : CallStep s.sys t a sys) :
    InLoop { s with sys := sys } t e ∨ sys.result e ≠ none := by
  obtain ⟨f, rest, frames, event, call, first, holds⟩ := loop
  cases step with
  | idle _ _ calls _ => exact .inl ⟨f, rest, calls.1.trans frames, event, call, first, holds⟩
  | entered w g rest' _ _ again after _ _ _ =>
      obtain ⟨rfl, _⟩ := List.cons.inj (frames.symm.trans again)
      exact .inl ⟨_, rest', after, event, call, by simp, by simp⟩
  | user w op _ on _ _ => exact absurd (TimerState.allows_user allowed on).1 inside
  | moved w g h rest' _ _ on by_ again after same call' cond _ _ =>
      obtain ⟨rfl, _⟩ := List.cons.inj (frames.symm.trans again)
      refine .inl ⟨h, rest', after, same.trans event, call'.trans call, ?_⟩
      have move := cond t call
      rcases by_ with rfl | ⟨value, rfl⟩
      · generalize f.pc = p, h.pc = q at *
        cases move <;> simp
      · exact absurd (TimerState.outside_iff on allowed) inside
  | returned w g rest' rv _ _ on by_ again _ _ _ result _ _ =>
      obtain ⟨rfl, _⟩ := List.cons.inj (frames.symm.trans again)
      exact .inr (by simp [result, event])

theorem SleepCall.system (inv : SleepInv m s xs) (allowed : s.allows m a = true)
    (stepped : s.sys.step a = some sys) (done : s.sys.act a = some (.ok sys)) :
    SleepCall { s with sys := sys } t := by
  have call := (inv.sleeper t).call
  have step := act_callStep inv.sys done t
  unfold SleepCall at *
  dsimp only
  cases pc : s.pc t with
  | waiting e =>
      simp only [pc] at call
      obtain ⟨⟨n, auto⟩, loop | returned⟩ := call
      · exact ⟨⟨n, auto⟩, loop.callStep (by simp [pc]) allowed step⟩
      · obtain ⟨rv, result⟩ := Option.ne_none_iff_exists'.mp returned
        exact ⟨⟨n, auto⟩, .inr (by simp [inv.sys.result_stays stepped auto result])⟩
  | trying e =>
      simp only [pc] at call
      exact call.callStep (by simp [pc]) allowed step
  | decided e haveLock value =>
      simp only [pc] at call
      exact ⟨call.1.callStep (by simp [pc]) allowed step, call.2⟩
  | _ => trivial

theorem SleeperInv.system (inv : SleepInv m s xs) (allowed : s.allows m a = true)
    (stepped : s.sys.step a = some sys) (done : s.sys.act a = some (.ok sys)) :
    SleeperInv m { s with sys := sys } t := by
  have step := act_callStep inv.sys done t
  have noLock := (inv.sleeper t).noLock
  have other : ∀ w op, a = .user w op → op.usesMutex m = false := by
    rintro w op rfl
    simp only [TimerState.allows, Bool.and_eq_true, Bool.not_eq_true'] at allowed
    exact allowed.2
  refine ⟨(step.held_same noLock fun w _ => ⟨?_, ?_⟩).trans (inv.sleeper t).held, ?_,
    .system inv allowed stepped done⟩
  · intro equal
    simpa [UserOp.usesMutex] using other w _ equal
  · intro equal
    simpa [UserOp.usesMutex] using other w _ equal
  · refine step.calls_all (· ≠ .mutex m) noLock ?_
    rintro w op call equal _ begins rfl
    have uses := other w op equal
    cases op <;> simp_all [UserOp.begins, UserOp.usesMutex]

/-- Only a thread outside `tc_sleep` and a sleeper that prepares to wait put events on the wait
queue of a timer waiter. -/
theorem TimerState.stays_off {k : Nat} {f : Frame} {rest : List Frame} (inv : SleepInv m s xs)
    (allowed : s.allows m a = true) (done : s.sys.act a = some (.ok sys))
    (inside : s.pc t ≠ .outside) (frames : s.sys.frames t = f :: rest) (pc : f.pc ≠ .prep)
    (on : sys.el f.e = some (.waiters (.user k))) : s.sys.el f.e = some (.waiters (.user k)) := by
  have owner : f.e.owner = t := (inv.sys.thread t).event_owner (by simp [State.view, frames])
  rcases (act_ok done).arrives inv.sys.lists on rfl with before | arrives
  · exact before
  · cases arrives with
    | waitFd w u n g mask priority ctl _ _ list => cases list
    | waitqWait w u n q on' event _ =>
        obtain rfl : u = t := by rw [← owner, event, EventId.owner]
        exact absurd (TimerState.allows_user allowed on').1 inside
    | threadWait w u n v d id _ _ list => cases list
    | prepared w u g rest' _ again prep _ event _ =>
        have owner' : g.e.owner = u := (inv.sys.thread u).event_owner (by simp [State.view, again])
        obtain rfl : u = t := by rw [← owner, event, owner']
        obtain ⟨rfl, _⟩ := List.cons.inj (again.symm.trans frames)
        exact absurd prep pc

theorem PastWait.system (inv : SleepInv m s xs) (stepped : s.sys.step a = some sys)
    (past : PastWait s t) : PastWait { s with sys := sys } t := by
  have call := (inv.sleeper t).call
  unfold PastWait SleepCall at *
  dsimp only
  cases pc : s.pc t with
  | waiting e =>
      simp only [pc] at past call
      obtain ⟨rv, result⟩ := Option.ne_none_iff_exists'.mp past
      obtain ⟨⟨n, auto⟩, _⟩ := call
      simp [inv.sys.result_stays stepped auto result]
  | _ => rwa [pc] at past

private theorem Parked.of_system (inv : SleepInv m s xs) (allowed : s.allows m a = true)
    (stepped : s.sys.step a = some sys) (done : s.sys.act a = some (.ok sys))
    (waits : ¬ PastWait { s with sys := sys } t) (parked : Parked { s with sys := sys } t) :
    Parked s t := by
  have call := (inv.sleeper t).call
  obtain ⟨e, on, ⟨haveLock, pc⟩ | ⟨pc, f, rest, frames, event, sleeps⟩⟩ := parked
  · have pc : s.pc t = .decided e haveLock false := pc
    simp only [SleepCall, pc] at call
    obtain ⟨⟨f, rest, frames, rfl, _, test⟩, _⟩ := call
    refine ⟨f.e, ?_, .inl ⟨haveLock, pc⟩⟩
    exact TimerState.stays_off inv allowed done (by simp [pc]) frames (by simp [test]) on
  · have pc : s.pc t = .waiting e := pc
    have running : sys.result e = none := by simpa [PastWait, pc] using waits
    simp only [SleepCall, pc] at call
    obtain ⟨⟨n, auto⟩, ⟨g, rest', again, rfl, cond, first, _⟩ | returned⟩ := call
    · have earlier : g.pc = .pushed ∨ g.pc = .asleep := by
        cases act_callStep inv.sys done t with
        | idle _ _ calls _ =>
            obtain ⟨rfl, _⟩ := List.cons.inj (frames.symm.trans (calls.1.trans again))
            exact sleeps
        | entered w g' rest' _ _ _ after _ _ _ =>
            obtain ⟨rfl, _⟩ := List.cons.inj (frames.symm.trans after)
            simp at sleeps
        | user w op _ on' _ _ =>
            have outside := (TimerState.allows_user allowed on').1
            simp [pc] at outside
        | moved w g' h rest' _ _ on' by_ again' after _ _ move _ _ =>
            obtain ⟨rfl, _⟩ := List.cons.inj (again.symm.trans again')
            obtain ⟨rfl, _⟩ := List.cons.inj (frames.symm.trans after)
            have move := move t cond
            rcases by_ with rfl | ⟨value, rfl⟩
            · generalize g.pc = p, f.pc = q at *
              cases move <;> simp_all
            · have outside := TimerState.outside_iff on' allowed
              simp [pc] at outside
        | returned w g' rest' rv _ _ _ _ again' _ _ _ result _ _ =>
            obtain ⟨rfl, _⟩ := List.cons.inj (again.symm.trans again')
            simp [result] at running
      refine ⟨g.e, ?_, .inr ⟨pc, g, rest', again, rfl, earlier⟩⟩
      refine TimerState.stays_off inv allowed done (by simp [pc]) again ?_ on
      rcases earlier with at_ | at_ <;> simp [at_]
    · obtain ⟨rv, result⟩ := Option.ne_none_iff_exists'.mp returned
      simp [inv.sys.result_stays stepped auto result] at running

theorem Attended.system (inv : SleepInv m s xs) (allowed : s.allows m a = true)
    (stepped : s.sys.step a = some sys) (done : s.sys.act a = some (.ok sys)) :
    Attended { s with sys := sys } xs := by
  intro some free
  rcases inv.attended some free with ⟨t, member, awake⟩ | ⟨t, past⟩
  · by_cases past : PastWait { s with sys := sys } t
    · exact .inr ⟨t, past⟩
    · exact .inl ⟨t, member, fun parked => awake (parked.of_system inv allowed stepped done past)⟩
  · exact .inr ⟨t, past.system inv stepped⟩

theorem SleepInv.system (inv : SleepInv m s xs) (allowed : s.allows m a = true)
    (stepped : s.sys.step a = some sys) (done : s.sys.act a = some (.ok sys)) :
    SleepInv m { s with sys := sys } xs where
  list := inv.list.system sys
  sys := inv.sys.step stepped
  owner := inv.owner.step inv.sys stepped
  sleeper _ := .system inv allowed stepped done
  attended := .system inv allowed stepped done

theorem SleepInv.fault (inv : SleepInv m s xs) (fault : Fault) :
    SleepInv m { s with sys := { s.sys with fault := some fault } } xs where
  list := inv.list.system _
  sys := inv.sys.fault _
  owner := inv.owner
  sleeper t := { inv.sleeper t with }
  attended := inv.attended

end System

/-! ## What a step of one sleeper is for the others -/

section Own

variable {m : MutexId} {f : FdId} {s s' : TimerState} {xs ys : List Tid} {w : WorkerId} {t : Tid}
  {before next : SleepPc}

structure SleeperStep (m : MutexId) (s s' : TimerState) (t : Tid) : Prop where
  sys : SystemInv s'.sys
  owner : OwnerInv s'.sys m
  others : ∀ u, u ≠ t → s'.pc u = s.pc u
  calls : ∀ u, u ≠ t → SameCallsOf u s.sys s'.sys ∧ s'.sys.held u = s.sys.held u
  listed : ∀ e k, e.owner ≠ t → s'.sys.el e = some (.waiters (.user k)) →
    s.sys.el e = some (.waiters (.user k))

theorem SleeperStep.plain (inv : SleepInv m s xs) (same : s'.sys = s.sys)
    (others : ∀ u, u ≠ t → s'.pc u = s.pc u) : SleeperStep m s s' t where
  sys := same ▸ inv.sys
  owner := same ▸ inv.owner
  others := others
  calls u _ := by
    rw [same]
    exact ⟨.unchanged rfl rfl, rfl⟩
  listed e k _ on := by rwa [same] at on

theorem SleeperStep.call {a : Action} {sys : State} (inv : SleepInv m s xs)
    (on : s.sys.mode w = .thread t)
    (by_ : (∃ op, a = .user w op) ∨ ∃ value, a = .condition w value)
    (done : s.sys.act a = some (.ok sys)) (stepped : s.sys.step a = some sys) (same : s'.sys = sys)
    (others : ∀ u, u ≠ t → s'.pc u = s.pc u) : SleeperStep m s s' t where
  sys := same ▸ inv.sys.step stepped
  owner := same ▸ inv.owner.step inv.sys stepped
  others := others
  calls u other := by
    rw [same]
    exact (act_callStep inv.sys done u).idle_other on other by_
  listed e k other listed := by
    rw [same] at listed
    rcases (act_ok done).arrives inv.sys.lists listed rfl with before | arrives
    · exact before
    · cases arrives with
      | waitFd _ _ _ _ _ _ _ _ _ list => cases list
      | waitqWait w' u n q on' event _ =>
          obtain rfl : w' = w := by
            rcases by_ with ⟨_, equal⟩ | ⟨_, equal⟩ <;> cases equal
            rfl
          refine absurd ?_ other
          rw [event, EventId.owner, ← Mode.thread.inj (on'.symm.trans on)]
      | threadWait _ _ _ _ _ _ _ _ list => cases list
      | prepared _ _ _ _ _ _ _ _ _ _ => rcases by_ with ⟨_, equal⟩ | ⟨_, equal⟩ <;> cases equal

theorem SleeperStep.sleeper (own : SleeperStep m s s' t) (inv : SleepInv m s xs) {u : Tid}
    (other : u ≠ t) : SleeperInv m s' u := by
  obtain ⟨⟨frames, result⟩, held⟩ := own.calls u other
  have sleeper := inv.sleeper u
  refine ⟨by rw [held, own.others u other, sleeper.held], by rw [frames]; exact sleeper.noLock, ?_⟩
  have call := sleeper.call
  unfold SleepCall InLoop InTest at *
  rw [own.others u other, frames]
  cases pc : s.pc u with
  | waiting e =>
      simp only [pc] at call
      obtain ⟨⟨n, rfl⟩, loop⟩ := call
      refine ⟨⟨n, rfl⟩, ?_⟩
      rwa [result (.auto u n) rfl]
  | _ => rwa [pc] at call

theorem SleeperStep.past (own : SleeperStep m s s' t) (inv : SleepInv m s xs) {u : Tid}
    (other : u ≠ t) (past : PastWait s u) : PastWait s' u := by
  obtain ⟨⟨_, result⟩, _⟩ := own.calls u other
  have call := (inv.sleeper u).call
  unfold PastWait SleepCall at *
  rw [own.others u other]
  cases pc : s.pc u with
  | waiting e =>
      simp only [pc] at call past
      obtain ⟨⟨n, rfl⟩, _⟩ := call
      show s'.sys.result (.auto u n) ≠ none
      rwa [result (.auto u n) rfl]
  | _ => rwa [pc] at past

theorem SleeperStep.parked (own : SleeperStep m s s' t) (inv : SleepInv m s xs) {u : Tid}
    (other : u ≠ t) (parked : Parked s' u) : Parked s u := by
  obtain ⟨⟨same, _⟩, _⟩ := own.calls u other
  have call := (inv.sleeper u).call
  obtain ⟨e, on, at_⟩ := parked
  rw [own.others u other, same] at at_
  have owner : e.owner = u := by
    rcases at_ with ⟨haveLock, pc⟩ | ⟨_, g, rest, frames, rfl, _⟩
    · simp only [SleepCall, pc] at call
      obtain ⟨⟨g, rest, frames, rfl, _⟩, _⟩ := call
      exact (inv.sys.thread u).event_owner (by simp [State.view, frames])
    · exact (inv.sys.thread u).event_owner (by simp [State.view, frames])
  exact ⟨e, own.listed e u (owner ▸ other) on, at_⟩

theorem SleeperStep.inv (own : SleeperStep m s s' t) (inv : SleepInv m s xs) (list : TimerInv s' ys)
    (mine : SleeperInv m s' t) (attended : Attended s' ys) : SleepInv m s' ys where
  list := list
  sys := own.sys
  owner := own.owner
  sleeper u := by
    by_cases same : u = t
    · exact same ▸ mine
    · exact own.sleeper inv same
  attended := attended

/-! ### Who attends to the timer -/

theorem Attended.of_master (master : (s.pc t).holdsMutex = true) : Attended s xs := by
  intro _ free
  simp [free t] at master

theorem Attended.of_past (past : PastWait s t) : Attended s xs :=
  fun _ _ => .inr ⟨t, past⟩

theorem Attended.of_awake (member : t ∈ xs) (awake : ¬ Parked s t) : Attended s xs :=
  fun _ _ => .inl ⟨t, member, awake⟩

/-- Thread `t` does not go to sleep, and was not the one who had to wake somebody. -/
theorem SleeperStep.attended (own : SleeperStep m s s' t) (inv : SleepInv m s xs)
    (slave : (s.pc t).holdsMutex = false) (waits : ¬ PastWait s t)
    (mine : t ∈ xs → Parked s' t → Parked s t) : Attended s' xs := by
  intro some free
  have free' : ∀ u, (s.pc u).holdsMutex = false := by
    intro u
    by_cases same : u = t
    · exact same ▸ slave
    · rw [← own.others u same]
      exact free u
  rcases inv.attended some free' with ⟨u, member, awake⟩ | ⟨u, past⟩
  · refine .inl ⟨u, member, fun parked => awake ?_⟩
    by_cases same : u = t
    · subst same
      exact mine member parked
    · exact own.parked inv same parked
  · by_cases same : u = t
    · exact absurd (same ▸ past) waits
    · exact .inr ⟨u, own.past inv same past⟩

theorem Parked.not_of_pc (loop : ∀ e, s.pc t ≠ .waiting e)
    (test : ∀ e haveLock value, s.pc t ≠ .decided e haveLock value) : ¬ Parked s t := by
  rintro ⟨e, _, ⟨haveLock, pc⟩ | ⟨pc, _⟩⟩
  · exact test _ _ _ pc
  · exact loop _ pc

/-! ### Steps that leave the list alone -/

@[simp] theorem TimerState.setPc_self (s : TimerState) (t : Tid) (next : SleepPc) :
    (s.setPc t next).pc t = next :=
  Function.update_self ..

theorem Advance.own (goes : Advance s s' t next) : s'.pc t = next := by
  rw [goes.pc, Function.update_self]

theorem Advance.setPc (inv : TimerInv s xs) (pc : s.pc t = before) (sys : State)
    (locks : next.locks = before.locks) :
    Advance s ({ s with sys := sys }.setPc t next) t next where
  pc := rfl
  timers := rfl
  absEnd := rfl
  number := rfl
  insertions := rfl
  crashed := rfl
  lock := by
    rw [locks, ← pc]
    exact inv.lock t
  others _ _ := .rfl

theorem Advance.locks (free : s.timerLock = none) (locks : next.locks = true) :
    Advance s { s.setPc t next with timerLock := some t } t next where
  pc := rfl
  timers := rfl
  absEnd := rfl
  number := rfl
  insertions := rfl
  crashed := rfl
  lock := by simp [locks]
  others u other := by simp [free, Ne.symm other]

theorem Advance.unlocks (inv : TimerInv s xs) (pc : s.pc t = before) (sys : State)
    (locked : before.locks = true) (unlocked : next.locks = false) :
    Advance s { { s with sys := sys }.setPc t next with timerLock := none } t next where
  pc := rfl
  timers := rfl
  absEnd := rfl
  number := rfl
  insertions := rfl
  crashed := rfl
  lock := by simp [unlocked]
  others u other := by
    rw [(inv.lock t).mpr (pc ▸ locked)]
    simp [Ne.symm other]

/-- From `before` to `next` nothing is put on the list or taken off it. -/
structure SleepPc.Goes (before next : SleepPc) : Prop where
  inside : next.inside = before.inside
  linked : before.isUnlinked = false
  links : next.isUnlinked = false

theorem SleeperStep.advance (own : SleeperStep m s s' t) (inv : SleepInv m s xs)
    (goes : Advance s s' t next) (pc : s.pc t = before) (path : SleepPc.Goes before next)
    (known : PcInv s' xs t) (mine : SleeperInv m s' t) (attended : Attended s' xs) :
    SleepInv m s' xs := by
  refine own.inv inv (inv.list.advance goes ?_ ?_ path.links known) mine attended
  · rw [pc]
    exact .inl path.inside
  · rw [pc]
    exact path.linked

theorem SleepInv.advance (inv : SleepInv m s xs) (goes : Advance s s' t next)
    (same : s'.sys = s.sys) (pc : s.pc t = before) (path : SleepPc.Goes before next)
    (mutex : next.holdsMutex = before.holdsMutex) (known : PcInv s' xs t) (call : SleepCall s' t)
    (attended : SleeperStep m s s' t → Attended s' xs) : SleepInv m s' xs := by
  have own : SleeperStep m s s' t := .plain inv same fun u other => by
    rw [goes.pc, Function.update_of_ne other]
  refine own.advance inv goes pc path known ⟨?_, ?_, call⟩ (attended own)
  · rw [same, goes.own, mutex, ← pc]
    exact (inv.sleeper t).held
  · rw [same]
    exact (inv.sleeper t).noLock

theorem SleepInv.setPc (inv : SleepInv m s xs) (pc : s.pc t = before)
    (path : SleepPc.Goes before next) (locks : next.locks = before.locks)
    (mutex : next.holdsMutex = before.holdsMutex) (known : PcInv (s.setPc t next) xs t)
    (call : SleepCall (s.setPc t next) t)
    (attended : SleeperStep m s (s.setPc t next) t → Attended (s.setPc t next) xs) :
    SleepInv m (s.setPc t next) xs :=
  inv.advance (.setPc inv.list pc s.sys locks) rfl pc path mutex known call attended

theorem SleeperStep.attended_running (own : SleeperStep m s s' t) (inv : SleepInv m s xs)
    (pc : s.pc t = before) (slave : before.holdsMutex = false) (waits : ¬ PastWait s t)
    (after : s'.pc t = next) (loop : ∀ e, next ≠ .waiting e)
    (test : ∀ e haveLock value, next ≠ .decided e haveLock value) : Attended s' xs := by
  subst after
  exact own.attended inv (pc ▸ slave) waits fun _ parked => absurd parked (Parked.not_of_pc loop test)

private theorem UserOp.begins_other {op : UserOp} {call : Call} (other : op.usesMutex m = false)
    (begins : op.begins = some call) : call ≠ .mutex m := by
  rintro rfl
  cases op <;> simp_all [UserOp.begins, UserOp.usesMutex]

theorem SleepInv.call_mutex {op : UserOp} {sys : State} (inv : SleepInv m s xs)
    (done : s.sys.act (.user w op) = some (.ok sys)) (other : op.usesMutex m = false) :
    sys.held t m = s.sys.held t m ∧ ∀ g ∈ sys.frames t, g.call ≠ .mutex m := by
  have step := act_callStep inv.sys done t
  have noLock := (inv.sleeper t).noLock
  constructor
  · refine step.held_same noLock fun w' _ => ⟨?_, ?_⟩
    · rintro equal
      cases equal
      simp [UserOp.usesMutex] at other
    · rintro equal
      cases equal
      simp [UserOp.usesMutex] at other
  · refine step.calls_all (· ≠ .mutex m) noLock fun w' op' call equal _ => ?_
    cases equal
    exact UserOp.begins_other other

theorem SleepInv.call {op : UserOp} {sys : State} (inv : SleepInv m s xs)
    (on : s.sys.mode w = .thread t) (done : s.sys.act (.user w op) = some (.ok sys))
    (stepped : s.sys.step (.user w op) = some sys) (other : op.usesMutex m = false)
    (goes : Advance s s' t next) (same : s'.sys = sys) (pc : s.pc t = before)
    (path : SleepPc.Goes before next) (mutex : next.holdsMutex = before.holdsMutex)
    (known : PcInv s' xs t) (call : SleepCall s' t)
    (attended : SleeperStep m s s' t → Attended s' xs) : SleepInv m s' xs := by
  have own : SleeperStep m s s' t := .call inv on (.inl ⟨op, rfl⟩) done stepped same fun u apart => by
    rw [goes.pc, Function.update_of_ne apart]
  obtain ⟨held, noLock⟩ := inv.call_mutex (t := t) done other
  refine own.advance inv goes pc path known ⟨?_, same ▸ noLock, call⟩ (attended own)
  rw [same, goes.own, mutex, ← pc, ← (inv.sleeper t).held]
  exact held

end Own

end Libtcr
