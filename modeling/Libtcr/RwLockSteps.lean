import Libtcr.RwLockInvariant

/-! Every step keeps the invariant of a reader/writer lock. -/

set_option autoImplicit false

namespace Libtcr

open State

/-! ## Steps of the library and of the rest of the application -/

section System

variable {m : MutexId} {k : Nat} {s : RwState} {t : Tid} {a : Action} {sys : State}

private theorem current_eq_some {s : State} {w : WorkerId} {t : Tid} :
    s.current w = some t ↔ s.mode w = .thread t := by
  unfold State.current
  split <;> simp_all

/-- No step of the library puts an event on `wr_wq` behind the back of the lock. -/
theorem RwState.allows_arrives {e : EventId} (allowed : s.allows m k a = true)
    (arrives : Arrives s.sys e (.waiters (.user k)) a) :
    ∃ w u f rest, a = .advance w ∧ s.sys.mode w = .thread u ∧ s.sys.frames u = f :: rest ∧
      f.pc = .prep ∧ f.e = e := by
  cases arrives with
  | waitFd w u n f mask priority ctl _ _ list => cases list
  | waitqWait w u n q _ _ list =>
      obtain rfl : k = q := by simpa using list
      simp [RwState.allows, UserOp.usesRwLock] at allowed
  | threadWait w u n v d id _ _ list => cases list
  | prepared w u f rest on frames pc _ event _ => exact ⟨w, u, f, rest, rfl, on, frames, pc, event.symm⟩

theorem RwState.stays_off {f : Frame} {rest : List Frame} (inv : RwInv m k s)
    (allowed : s.allows m k a = true) (done : s.sys.act a = some (.ok sys))
    (frames : s.sys.frames t = f :: rest) (pc : f.pc ≠ .prep)
    (on : sys.el f.e = some (.waiters (.user k))) : s.sys.el f.e = some (.waiters (.user k)) := by
  rcases (act_ok done).arrives inv.sys.lists on rfl with before | arrives
  · exact before
  · obtain ⟨w, u, g, rest', _, _, again, prep, event⟩ := RwState.allows_arrives allowed arrives
    have owner : ∀ {v : Tid} {h : Frame} {rest : List Frame}, s.sys.frames v = h :: rest →
        h.e.owner = v :=
      fun frames => (inv.sys.thread _).event_owner (by simp [State.view, frames])
    obtain rfl : u = t := (owner again).symm.trans ((congrArg _ event).trans (owner frames))
    obtain ⟨rfl, _⟩ := List.cons.inj (again.symm.trans frames)
    exact absurd prep pc

private theorem UserOp.begins_clean {op : UserOp} {call : Call} (other : op.usesRwLock m k = false)
    (begins : op.begins = some call) : call ≠ .mutex m ∧ call ≠ .cond k ∧ call ≠ .waitq k := by
  cases op <;> simp_all [UserOp.begins, UserOp.usesRwLock] <;> subst begins <;> simp_all

theorem Clean.callStep (clean : Clean m k (s.sys.frames t)) (allowed : s.allows m k a = true)
    (step : CallStep s.sys t a sys) :
    Clean m k (sys.frames t) ∧ sys.held t m = s.sys.held t m := by
  have other : ∀ w op, a = .user w op → op.usesRwLock m k = false := by
    rintro w op rfl
    simp only [RwState.allows, Bool.and_eq_true, Bool.not_eq_true'] at allowed
    exact allowed.2
  have noLock : ∀ f ∈ s.sys.frames t, f.call ≠ .mutex m := fun f member => (clean f member).1
  refine ⟨step.calls_all (fun call => call ≠ .mutex m ∧ call ≠ .cond k ∧ call ≠ .waitq k) clean
    fun w op call equal _ => UserOp.begins_clean (other w op equal),
    step.held_same noLock fun w _ => ⟨?_, ?_⟩⟩
  · intro equal
    simpa [UserOp.usesRwLock] using other w _ equal
  · intro equal
    simpa [UserOp.usesRwLock] using other w _ equal

theorem InLock.callStep {e : EventId} {n : Nat} (inv : RwInv m k s) (auto : e = .auto t n)
    (lock : InLock m k s.sys t e) (allowed : s.allows m k a = true)
    (stepped : s.sys.step a = some sys) (step : CallStep s.sys t a sys) :
    InLock m k sys t e := by
  rcases lock with ⟨f, rest, frames, event, call, held, clean⟩ | ⟨rv, result, held, clean⟩
  · cases step with
    | idle _ _ calls same =>
        exact .inl ⟨f, rest, calls.1.trans frames, event, call, (congrFun same m).trans held, clean⟩
    | entered w g rest' _ _ again after _ _ same =>
        obtain ⟨rfl, rfl⟩ := List.cons.inj (frames.symm.trans again)
        exact .inl ⟨_, rest, after, event, call, (congrFun (congrFun same t) m).trans held, clean⟩
    | user w op _ _ code _ => simp [inUserCode, frames, Frame.inCondition, call] at code
    | moved w g h rest' _ _ _ _ again after event' call' _ _ same =>
        obtain ⟨rfl, rfl⟩ := List.cons.inj (frames.symm.trans again)
        exact .inl ⟨h, rest, after, event'.trans event, call'.trans call,
          (congrFun (congrFun same t) m).trans held, clean⟩
    | returned w g rest' rv _ _ _ _ again after _ _ result locked same =>
        obtain ⟨rfl, rfl⟩ := List.cons.inj (frames.symm.trans again)
        refine .inr ⟨rv, by rw [result, event, Function.update_self], ?_, after.symm ▸ clean⟩
        by_cases ok : rv = .ok
        · simp [locked m call ok, ok]
        · simp [same m (.inr ok), held, ok]
  · obtain ⟨clean', held'⟩ := clean.callStep allowed step
    exact .inr ⟨rv, inv.sys.result_stays stepped auto result, held' ▸ held, clean'⟩

private theorem RwState.allows_condition {w w' : WorkerId} {value : Bool} {f : Frame}
    {rest : List Frame} (allowed : s.allows m k (.condition w' value) = true)
    (on : s.sys.mode w = .thread t)
    (by_ : Action.condition w' value = .advance w ∨ ∃ v, Action.condition w' value = .condition w v)
    (frames : s.sys.frames t = f :: rest) (call : f.call = .cond k) :
    value = decide (s.readers = 0) := by
  obtain rfl : w' = w := by
    rcases by_ with equal | ⟨v, equal⟩
    · cases equal
    · exact (Action.condition.inj equal).1
  simpa [RwState.allows, current_eq_some.mpr on, frames, call] using allowed

theorem InWait.callStep {e : EventId} {n : Nat} (inv : RwInv m k s) (auto : e = .auto t n)
    (wait : InWait m k s t e) (pc : s.pc t = .wWaiting e) (allowed : s.allows m k a = true)
    (stepped : s.sys.step a = some sys) (done : s.sys.act a = some (.ok sys))
    (step : CallStep s.sys t a sys) : InWait m k { s with sys := sys } t e := by
  rcases wait with ⟨f, rest, frames, event, call, clean, holds, parked⟩ | ⟨rv, result, ok, clean⟩
  · subst event
    have off : f.pc ≠ .prep → sys.el f.e = some (.waiters (.user k)) →
        s.sys.el f.e = some (.waiters (.user k)) :=
      fun pc on => RwState.stays_off inv allowed done frames pc on
    cases step with
    | idle _ _ calls _ =>
        refine .inl ⟨f, rest, calls.1.trans frames, rfl, call, clean, holds, fun sleeps on => ?_⟩
        exact parked sleeps (off (by rintro prep; simp [prep, Pc.parked] at sleeps) on)
    | entered w g rest' _ _ again after asleep _ _ =>
        obtain ⟨rfl, rfl⟩ := List.cons.inj (frames.symm.trans again)
        refine .inl ⟨_, rest, after, rfl, call, clean, by simp, fun _ on => ?_⟩
        exact parked (by simp [asleep, Pc.parked]) (off (by simp [asleep]) on)
    | user w op _ on _ _ =>
        simp only [RwState.allows, current_eq_some.mpr on, Option.any_some, Bool.and_eq_true,
          decide_eq_true_eq] at allowed
        simp [allowed.1] at pc
    | moved w g h rest' _ _ on by_ again after event' call' cond _ _ =>
        obtain ⟨rfl, rfl⟩ := List.cons.inj (frames.symm.trans again)
        refine .inl ⟨h, rest, after, event', call'.trans call, clean, ?_, ?_⟩
        all_goals
          have move := cond k call
          generalize f.pc = p, h.pc = q at *
        · intro held
          subst held
          cases move with
          | isTrue w' => simpa using RwState.allows_condition allowed on by_ frames call
        · intro sleeps listed
          cases move with
          | isFalse w' =>
              have some : s.readers ≠ 0 := by
                simpa using RwState.allows_condition allowed on by_ frames call
              exact .inl (lt_of_le_of_ne inv.nonneg (Ne.symm some))
          | slept w' => exact parked rfl (off (by simp) listed)
          | resumed w' => exact parked rfl (off (by simp) listed)
          | _ => simp [Pc.parked] at sleeps
    | returned w g rest' rv _ _ on by_ again after cond _ result _ _ =>
        obtain ⟨rfl, rfl⟩ := List.cons.inj (frames.symm.trans again)
        refine .inr ⟨rv, by simp [result], fun ok => ?_, after.symm ▸ clean⟩
        subst ok
        have move := cond k call
        generalize before : f.pc = p at move
        cases move with
        | atOnce w' => simpa using RwState.allows_condition allowed on by_ frames call
        | held w' => exact holds before
  · obtain ⟨clean', _⟩ := clean.callStep allowed step
    exact .inr ⟨rv, inv.sys.result_stays stepped auto result, ok, clean'⟩

theorem InWait.held {e : EventId} (wait : InWait m k s t e) (pc : s.pc t = .wWaiting e)
    (allowed : s.allows m k a = true) (step : CallStep s.sys t a sys) :
    sys.held t m = s.sys.held t m := by
  rcases wait with ⟨f, rest, frames, _, call, _⟩ | ⟨_, _, _, clean⟩
  · cases step with
    | idle _ _ _ held => exact congrFun held m
    | entered w g rest' _ _ _ _ _ _ held => exact congrFun (congrFun held t) m
    | user w op _ on _ _ =>
        simp only [RwState.allows, current_eq_some.mpr on, Option.any_some, Bool.and_eq_true,
          decide_eq_true_eq] at allowed
        simp [allowed.1] at pc
    | moved w g h rest' _ _ _ _ _ _ _ _ _ _ held => exact congrFun (congrFun held t) m
    | returned w g rest' rv _ _ _ _ again _ _ _ _ _ held =>
        obtain ⟨rfl, rfl⟩ := List.cons.inj (frames.symm.trans again)
        exact held m (.inl (by simp [call]))
  · exact (clean.callStep allowed step).2

theorem RwThreadInv.system (inv : RwInv m k s) (allowed : s.allows m k a = true)
    (stepped : s.sys.step a = some sys) (done : s.sys.act a = some (.ok sys)) :
    RwThreadInv m k { s with sys := sys } t := by
  have thread := inv.thread t
  have step := act_callStep inv.sys done t
  unfold RwThreadInv at *
  dsimp only
  cases pc : s.pc t with
  | outside =>
      simp only [pc] at thread
      obtain ⟨clean, held⟩ := thread.2.callStep allowed step
      exact ⟨held.trans thread.1, clean⟩
  | rReleased =>
      simp only [pc] at thread
      obtain ⟨clean, held⟩ := thread.2.callStep allowed step
      exact ⟨held.trans thread.1, clean⟩
  | rLocking e =>
      simp only [pc] at thread
      obtain ⟨writing, ⟨n, auto⟩, lock⟩ := thread
      exact ⟨writing, ⟨n, auto⟩, lock.callStep inv auto allowed stepped step⟩
  | wLocking e =>
      simp only [pc] at thread
      obtain ⟨writing, ⟨n, auto⟩, lock⟩ := thread
      exact ⟨writing, ⟨n, auto⟩, lock.callStep inv auto allowed stepped step⟩
  | wWaiting e =>
      simp only [pc] at thread
      obtain ⟨writing, ⟨n, auto⟩, held, wait⟩ := thread
      exact ⟨writing, ⟨n, auto⟩, (wait.held pc allowed step).trans held,
        wait.callStep inv auto pc allowed stepped done step⟩
  | _ =>
      simp only [pc] at thread
      obtain ⟨clean, held⟩ := thread.2.2.callStep allowed step
      exact ⟨thread.1, held.trans thread.2.1, clean⟩

end System

/-! ## Steps of the functions of the lock -/

section Own

variable {m : MutexId} {k : Nat} {s s' : RwState} {t : Tid} {w : WorkerId}

theorem RwInv.fault (inv : RwInv m k s) (fault : Fault) :
    RwInv m k { s with sys := { s.sys with fault := some fault } } where
  sys := inv.sys.fault _
  owner := inv.owner
  thread := inv.thread
  count := inv.count
  write := inv.write
  returned := inv.returned

structure OwnStep (m : MutexId) (k : Nat) (s s' : RwState) (t : Tid) : Prop where
  sys : SystemInv s'.sys
  owner : OwnerInv s'.sys m
  others : ∀ u, u ≠ t → s'.pc u = s.pc u ∧ s'.writing u = s.writing u ∧
    s'.returned u = s.returned u
  calls : ∀ u, u ≠ t → SameCallsOf u s.sys s'.sys ∧ s'.sys.held u = s.sys.held u
  listed : ∀ e, e.owner ≠ t → s'.sys.el e = some (.waiters (.user k)) →
    s.sys.el e = some (.waiters (.user k)) ∧ (s.Served → s'.Served)
  /-- Only a thread that holds the mutex of the lock adds a reader. -/
  zero : s.readers = 0 → s'.readers = 0 ∨ s.sys.held t m = true

theorem OwnStep.thread (own : OwnStep m k s s' t) (inv : RwInv m k s) {u : Tid} (other : u ≠ t) :
    RwThreadInv m k s' u := by
  obtain ⟨pc, writing, _⟩ := own.others u other
  obtain ⟨⟨frames, result⟩, held⟩ := own.calls u other
  have thread := inv.thread u
  have zero : s.sys.held u m = true → s.readers = 0 → s'.readers = 0 := by
    intro holds zero
    rcases own.zero zero with zero' | mine
    · exact zero'
    · exact absurd (held_unique inv.sys holds mine) other
  have lock : ∀ {e}, (∃ n, e = .auto u n) → InLock m k s.sys u e → InLock m k s'.sys u e := by
    rintro e ⟨n, rfl⟩ lock
    unfold InLock at *
    rwa [frames, held, result _ rfl]
  unfold RwThreadInv at *
  rw [pc]
  cases at_ : s.pc u with
  | rLocking e =>
      simp only [at_] at thread
      exact ⟨writing.trans thread.1, thread.2.1, lock thread.2.1 thread.2.2⟩
  | wLocking e =>
      simp only [at_] at thread
      exact ⟨writing.trans thread.1, thread.2.1, lock thread.2.1 thread.2.2⟩
  | wWaiting e =>
      simp only [at_] at thread
      obtain ⟨reads, ⟨n, rfl⟩, holds, wait⟩ := thread
      refine ⟨writing.trans reads, ⟨n, rfl⟩, (congrFun held m).trans holds, ?_⟩
      rcases wait with ⟨f, rest, top, event, call, clean, none, parked⟩ | ⟨rv, returned, ok, clean⟩
      · refine .inl ⟨f, rest, frames.trans top, event, call, clean, fun at_ => zero holds (none at_),
          fun sleeps on => ?_⟩
        obtain ⟨before, served⟩ := own.listed (.auto u n) other on
        exact served (parked sleeps before)
      · exact .inr ⟨rv, (result _ rfl).trans returned, fun equal => zero holds (ok equal),
          frames ▸ clean⟩
  | _ =>
      simp only [at_] at thread ⊢
      rwa [writing, held, frames]

theorem OwnStep.inv (own : OwnStep m k s s' t) (inv : RwInv m k s) (mine : RwThreadInv m k s' t)
    (count : s'.readers = s'.readLocks.length) (write : s'.writing t = true → s'.readers = 0)
    (returned : ∀ call rv, s'.returned t = some (call, rv) → s'.pc t = .outside ∧
      (rv ≠ .ok → call ≠ .wTrylock true → s'.writing t = false)) : RwInv m k s' where
  sys := own.sys
  owner := own.owner
  thread u := by
    by_cases same : u = t
    · exact same ▸ mine
    · exact own.thread inv same
  count := count
  write u writes := by
    by_cases same : u = t
    · exact write (same ▸ writes)
    · rw [(own.others u same).2.1] at writes
      rcases own.zero (inv.write u writes) with zero | held
      · exact zero
      · exact absurd (held_unique inv.sys ((inv.thread u).held writes) held) same
  returned u call rv equal := by
    by_cases same : u = t
    · subst same
      exact returned call rv equal
    · obtain ⟨pc, writing, before⟩ := own.others u same
      rw [pc, writing]
      exact inv.returned u call rv (before.symm.trans equal)

theorem OwnStep.plain (inv : RwInv m k s) (same : s'.sys = s.sys)
    (others : ∀ u, u ≠ t → s'.pc u = s.pc u ∧ s'.writing u = s.writing u ∧
      s'.returned u = s.returned u) (served : s.Served → s'.Served)
    (zero : s.readers = 0 → s'.readers = 0 ∨ s.sys.held t m = true) : OwnStep m k s s' t where
  sys := same ▸ inv.sys
  owner := same ▸ inv.owner
  others := others
  calls u _ := by
    rw [same]
    exact ⟨.unchanged rfl rfl, rfl⟩
  listed e _ on := ⟨by rwa [same] at on, served⟩
  zero := zero

theorem OwnStep.call {op : UserOp} {sys : State} (inv : RwInv m k s)
    (on : s.sys.mode w = .thread t) (done : s.sys.act (.user w op) = some (.ok sys))
    (stepped : s.sys.step (.user w op) = some sys) (same : s'.sys = sys)
    (quiet : ∀ n, op ≠ .waitqWait n k)
    (others : ∀ u, u ≠ t → s'.pc u = s.pc u ∧ s'.writing u = s.writing u ∧
      s'.returned u = s.returned u)
    (served : ∀ e, e.owner ≠ t → sys.el e = some (.waiters (.user k)) → s.Served → s'.Served)
    (readers : s'.readers = s.readers) : OwnStep m k s s' t where
  sys := same ▸ inv.sys.step stepped
  owner := same ▸ inv.owner.step inv.sys stepped
  others := others
  calls u other := by
    rw [same]
    exact (act_callStep inv.sys done u).idle_other on other (.inl ⟨op, rfl⟩)
  listed e other listed := by
    rw [same] at listed
    refine ⟨?_, served e other listed⟩
    rcases (act_ok done).arrives inv.sys.lists listed rfl with before | arrives
    · exact before
    · cases arrives with
      | waitFd _ _ _ _ _ _ _ _ _ list => cases list
      | waitqWait _ _ n q _ _ list =>
          obtain rfl : k = q := by simpa using list
          exact absurd rfl (quiet n)
      | threadWait _ _ _ _ _ _ _ _ list => cases list
  zero none := .inl (readers.trans none)

/-- A thread that has not released the last read lock is not the one that will wake the
writer. -/
theorem RwState.Served.keep {pc : RwPc} (served : s.Served) (before : s.pc t ≠ .rReleased)
    (readers : s.readers ≤ s'.readers) (after : s'.pc = Function.update s.pc t pc) : s'.Served := by
  rcases served with some | ⟨u, released⟩
  · exact .inl (lt_of_lt_of_le some readers)
  · refine .inr ⟨u, ?_⟩
    have other : u ≠ t := by
      rintro rfl
      exact before released
    rw [after, Function.update_of_ne other, released]

structure Touches (s s' : RwState) (t : Tid) (pc : RwPc) : Prop where
  pc : s'.pc = Function.update s.pc t pc
  writing : ∀ u, u ≠ t → s'.writing u = s.writing u
  returned : ∀ u, u ≠ t → s'.returned u = s.returned u

theorem Touches.others {pc : RwPc} (touches : Touches s s' t pc) (u : Tid) (other : u ≠ t) :
    s'.pc u = s.pc u ∧ s'.writing u = s.writing u ∧ s'.returned u = s.returned u :=
  ⟨by rw [touches.pc, Function.update_of_ne other], touches.writing u other,
    touches.returned u other⟩

theorem Touches.own {pc : RwPc} (touches : Touches s s' t pc) : s'.pc t = pc := by
  rw [touches.pc, Function.update_self]

theorem Touches.setPc (s : RwState) (sys : State) (t : Tid) (pc : RwPc) :
    Touches s ({ s with sys := sys }.setPc t pc) t pc :=
  ⟨rfl, fun _ _ => rfl, fun _ _ => rfl⟩

theorem Touches.returns (s : RwState) (sys : State) (t : Tid) (call : RwCall) (rv : Rv) :
    Touches s ({ s with sys := sys }.returns t call rv) t .outside :=
  ⟨rfl, fun _ _ => rfl, fun _ other => Function.update_of_ne other _ _⟩

theorem Touches.acquire (s : RwState) (t : Tid) (call : RwCall) :
    Touches s (s.acquire t call) t .outside :=
  ⟨rfl, fun _ other => Function.update_of_ne other _ _,
    fun _ other => Function.update_of_ne other _ _⟩

theorem Touches.enters (s : RwState) (sys : State) (t : Tid) (pc : RwPc) :
    Touches s ({ s with sys := sys }.enters t pc) t pc :=
  ⟨rfl, fun _ _ => rfl, fun _ other => Function.update_of_ne other _ _⟩

theorem RwInv.unlock {sys : State} (inv : RwInv m k s) (on : s.sys.mode w = .thread t)
    (done : s.sys.act (.user w (.unlock m)) = some (.ok sys))
    (stepped : s.sys.step (.user w (.unlock m)) = some sys)
    (clean : Clean m k (s.sys.frames t)) (before : s.pc t ≠ .rReleased) (same : s'.sys = sys)
    (touches : Touches s s' t .outside) (readers : s'.readers = s.readers)
    (readLocks : s'.readLocks = s.readLocks) (writing : s'.writing t = false) : RwInv m k s' := by
  have own : OwnStep m k s s' t := .call inv on done stepped same (by simp) touches.others
    (fun _ _ _ served => served.keep before readers.ge touches.pc) readers
  have unlocked : sys.held t m = false ∧ sys.frames t = s.sys.frames t := by
    cases act_ok done with
    | user _ u _ _ on' _ effect =>
        obtain rfl := Mode.thread.inj (on'.symm.trans on)
        refine ⟨?_, ?_⟩
        · cases effect
          simp
        · rcases effect.frames with frames | ⟨_, _, _, begins, _⟩
          · exact frames
          · cases begins
  refine own.inv inv ?_ ?_ (by simp [writing]) fun call rv _ => ⟨touches.own, fun _ _ => writing⟩
  · rw [RwThreadInv, touches.own]
    dsimp only
    rw [same, unlocked.1, unlocked.2, writing]
    exact ⟨rfl, clean⟩
  · rw [readers, readLocks, inv.count]

theorem RwInv.plain {pc : RwPc} (inv : RwInv m k s) (same : s'.sys = s.sys)
    (before : s.pc t ≠ .rReleased) (touches : Touches s s' t pc)
    (readers : s'.readers = s.readers ∨ s.sys.held t m = true ∧ s.readers ≤ s'.readers)
    (count : s'.readers = s'.readLocks.length) (mine : RwThreadInv m k s' t)
    (write : s'.writing t = true → s'.readers = 0)
    (returned : ∀ call rv, s'.returned t = some (call, rv) → s'.pc t = .outside ∧
      (rv ≠ .ok → call ≠ .wTrylock true → s'.writing t = false)) : RwInv m k s' := by
  have least : s.readers ≤ s'.readers := readers.elim (fun equal => equal.ge) fun more => more.2
  have own : OwnStep m k s s' t := .plain inv same touches.others
    (fun served => served.keep before least touches.pc)
    fun zero => readers.imp (fun equal => equal.trans zero) fun more => more.1
  exact own.inv inv mine count write returned

private theorem RwInv.not_returned (inv : RwInv m k s) (inside : s.pc t ≠ .outside) :
    s.returned t = none := by
  cases returned : s.returned t with
  | none => rfl
  | some value => exact absurd (inv.returned t value.1 value.2 returned).1 inside

private theorem RwInv.leaves_lock {e : EventId} {rv : Rv} (inv : RwInv m k s)
    (lock : InLock m k s.sys t e) (result : s.sys.result e = some rv) :
    (s.sys.held t m = true ↔ rv = .ok) ∧ Clean m k (s.sys.frames t) := by
  rcases lock with ⟨f, rest, frames, event, _⟩ | ⟨rv', result', held, clean⟩
  · have none := inv.sys.result_none (t := t) (f := f) (by simp [frames])
    rw [event, result] at none
    cases none
  · obtain rfl := Option.some.inj (result.symm.trans result')
    exact ⟨held, clean⟩

theorem RwInv.locking {e : EventId} {rv : Rv} (inv : RwInv m k s) (next : RwPc) (call : RwCall)
    (inside : s.pc t ≠ .outside ∧ s.pc t ≠ .rReleased) (writing : s.writing t = false)
    (lock : InLock m k s.sys t e) (result : s.sys.result e = some rv)
    (locked : next = .rLocked ∨ next = .wLocked)
    (stepped : s' = if rv = .ok then s.setPc t next else s.returns t call rv) : RwInv m k s' := by
  obtain ⟨held, clean⟩ := inv.leaves_lock lock result
  by_cases ok : rv = .ok
  · rw [if_pos ok] at stepped
    subst stepped
    refine inv.plain rfl inside.2 (.setPc s s.sys t next) (.inl rfl) inv.count ?_
      (by simp [RwState.setPc, writing]) (by simp [RwState.setPc, inv.not_returned inside.1])
    have thread : s.writing t = false ∧ s.sys.held t m = true ∧ Clean m k (s.sys.frames t) :=
      ⟨writing, held.mpr ok, clean⟩
    rw [RwThreadInv, (Touches.setPc s s.sys t next).own]
    rcases locked with rfl | rfl <;> exact thread
  · rw [if_neg ok] at stepped
    subst stepped
    have touches := Touches.returns s s.sys t call rv
    have free : s.sys.held t m = false := by simpa [ok] using held
    refine inv.plain rfl inside.2 touches (.inl rfl) inv.count ?_
      (by simp [RwState.returns, RwState.setPc, writing])
      fun _ _ _ => ⟨touches.own, fun _ _ => writing⟩
    rw [RwThreadInv, touches.own]
    exact ⟨free.trans writing.symm, clean⟩

private theorem RwInv.wakeup {sys : State} (inv : RwInv m k s) (on : s.sys.mode w = .thread t)
    (done : s.sys.act (.user w (.wakeupOne k)) = some (.ok sys))
    (stepped : s.sys.step (.user w (.wakeupOne k)) = some sys) (pc : s.pc t = .rReleased) :
    RwInv m k ({ s with sys := sys }.setPc t .outside) := by
  have thread := inv.thread t
  simp only [RwThreadInv, pc] at thread
  obtain ⟨equal, frames, held⟩ : sys = (s.sys.tcWaitqWakeupOne (.user k)).1 ∧
      sys.frames t = s.sys.frames t ∧ sys.held t m = s.sys.held t m := by
    cases act_ok done with
    | user _ u _ _ _ _ effect =>
        cases effect
        exact ⟨rfl, congrFun (tcWaitqWakeupOne_calls _ _).1 t, by rw [tcWaitqWakeupOne_held]⟩
  have gone : ∀ e, sys.el e ≠ some (.waiters (.user k)) := by
    intro e listed
    have before := came_wakeupOne listed (congrArg State.lists equal) rfl
    cases queue : s.sys.events (.waiters (.user k)) with
    | nil =>
        have member := inv.sys.lists.mem_events.mpr before
        simp [queue] at member
    | cons x es =>
        obtain rfl := inv.waiting_unique before
          (inv.sys.lists.mem_events.mp (queue ▸ List.mem_cons_self))
        rw [equal, tcWaitqWakeupOne_cons queue] at listed
        simp [State.el, iwiImmediate] at listed
  have touches := Touches.setPc s sys t .outside
  have own : OwnStep m k s ({ s with sys := sys }.setPc t .outside) t :=
    .call inv on done stepped rfl (by simp) touches.others
      (fun e _ listed => absurd listed (gone e)) rfl
  refine own.inv inv ?_ inv.count (fun writing => inv.write t writing)
    (by simp [RwState.setPc, inv.not_returned (t := t) (by simp [pc])])
  rw [RwThreadInv, touches.own]
  exact ⟨held.trans thread.1, show Clean m k (sys.frames t) from frames ▸ thread.2⟩

theorem RwInv.nextStep {n : Nat} (inv : RwInv m k s) (on : s.sys.mode w = .thread t)
    (running : s.sys.fault = none) (stepped : s.nextStep m k w t n = some s') : RwInv m k s' := by
  have thread := inv.thread t
  unfold RwState.nextStep at stepped
  unfold RwThreadInv at thread
  cases pc : s.pc t with
  | outside => simp [pc] at stepped
  | rLocking e =>
      simp only [pc] at stepped thread
      obtain ⟨writing, _, lock⟩ := thread
      cases result : s.sys.result e with
      | none => simp [result] at stepped
      | some rv =>
          refine inv.locking .rLocked .rLock (by simp [pc]) writing lock result
            (.inl rfl) ?_
          cases rv <;> simp_all
  | rLocked =>
      simp only [pc, Option.some.injEq] at stepped thread
      subst stepped
      refine inv.plain (t := t) rfl (by simp [pc]) ⟨rfl, fun _ _ => rfl, fun _ _ => rfl⟩
        (.inr ⟨thread.2.1, by simp⟩) (by simp [inv.count]) ?_ (by simp [RwState.setPc, thread.1])
        (by simp [RwState.setPc, inv.not_returned (t := t) (by simp [pc])])
      simpa [RwThreadInv, RwState.setPc] using thread
  | rCounted =>
      simp only [pc] at stepped thread
      obtain ⟨sys, done, moved, rfl⟩ | ⟨fault, _, rfl⟩ := State.call_step stepped running
      · exact inv.unlock on done moved thread.2.2 (by simp [pc]) rfl (.returns s sys t _ _) rfl rfl
          thread.1
      · exact inv.fault fault
  | wLocking e =>
      simp only [pc] at stepped thread
      obtain ⟨writing, _, lock⟩ := thread
      cases result : s.sys.result e with
      | none => simp [result] at stepped
      | some rv =>
          refine inv.locking .wLocked .wLock (by simp [pc]) writing lock result
            (.inr rfl) ?_
          cases rv <;> simp_all
  | wLocked =>
      simp only [pc] at stepped thread
      obtain ⟨sys, done, moved, rfl⟩ | ⟨fault, _, rfl⟩ := State.call_step stepped running
      · have touches := Touches.setPc s sys t (.wWaiting (.auto t n))
        have own : OwnStep m k s ({ s with sys := sys }.setPc t (.wWaiting (.auto t n))) t :=
          .call inv on done moved rfl (by simp) touches.others
            (fun _ _ _ served => served.keep (by simp [pc]) le_rfl touches.pc) rfl
        refine own.inv inv ?_ inv.count (by simp [RwState.setPc, thread.1])
          (by simp [RwState.setPc, inv.not_returned (t := t) (by simp [pc])])
        rw [RwThreadInv, touches.own]
        cases act_ok done with
        | user _ u _ _ on' _ effect =>
            obtain rfl := Mode.thread.inj (on'.symm.trans on)
            cases effect with
            | waitEvent _ _ _ =>
                refine ⟨thread.1, ⟨n, rfl⟩, thread.2.1, .inl ⟨_, s.sys.frames u,
                  by simp [RwState.setPc, pushFrame, tcEventInit]; rfl, rfl, rfl, thread.2.2,
                  by simp, by simp [Pc.parked]⟩⟩
      · exact inv.fault fault
  | wWaiting e =>
      simp only [pc] at stepped thread
      obtain ⟨writing, _, held, wait⟩ := thread
      cases result : s.sys.result e with
      | none => simp [result] at stepped
      | some rv =>
          obtain ⟨none, clean⟩ : (rv = .ok → s.readers = 0) ∧ Clean m k (s.sys.frames t) := by
            rcases wait with ⟨f, rest, frames, event, _⟩ | ⟨rv', result', ok, clean⟩
            · have none := inv.sys.result_none (t := t) (f := f) (by simp [frames])
              rw [event, result] at none
              cases none
            · obtain rfl := Option.some.inj (result.symm.trans result')
              exact ⟨ok, clean⟩
          by_cases ok : rv = .ok
          · subst ok
            simp only [result, Option.some.injEq] at stepped
            subst stepped
            have touches := Touches.acquire s t .wLock
            refine inv.plain rfl (by simp [pc]) touches (.inl rfl) inv.count ?_ (fun _ => none rfl)
              fun call rv equal => ⟨touches.own, ?_⟩
            · rw [RwThreadInv, touches.own]
              exact ⟨by simp [RwState.acquire, RwState.returns, RwState.setPc, held], clean⟩
            · obtain ⟨_, rfl⟩ : RwCall.wLock = call ∧ Rv.ok = rv := by
                simpa [RwState.acquire, RwState.returns] using equal
              simp
          · have moved : s.setPc t (.wInterrupted rv) = s' := by cases rv <;> simp_all
            subst moved
            refine inv.plain rfl (by simp [pc]) (.setPc s s.sys t _) (.inl rfl) inv.count ?_
              (by simp [RwState.setPc, writing])
              (by simp [RwState.setPc, inv.not_returned (t := t) (by simp [pc])])
            rw [RwThreadInv, (Touches.setPc s s.sys t _).own]
            exact ⟨writing, held, clean⟩
  | wInterrupted rv =>
      simp only [pc] at stepped thread
      obtain ⟨sys, done, moved, rfl⟩ | ⟨fault, _, rfl⟩ := State.call_step stepped running
      · exact inv.unlock on done moved thread.2.2 (by simp [pc]) rfl (.returns s sys t _ _) rfl rfl
          thread.1
      · exact inv.fault fault
  | tLocked =>
      simp only [pc] at stepped thread
      split at stepped
      · cases stepped
        refine inv.plain rfl (by simp [pc]) (.setPc s s.sys t .tRefused) (.inl rfl) inv.count ?_
          (by simp [RwState.setPc, thread.1])
          (by simp [RwState.setPc, inv.not_returned (t := t) (by simp [pc])])
        rw [RwThreadInv, (Touches.setPc s s.sys t _).own]
        exact thread
      · next none =>
        cases stepped
        have touches := Touches.acquire s t (.wTrylock false)
        refine inv.plain rfl (by simp [pc]) touches (.inl rfl) inv.count ?_
          (fun _ => not_not.mp none) fun call rv equal => ⟨touches.own, ?_⟩
        · rw [RwThreadInv, touches.own]
          exact ⟨by simp [RwState.acquire, RwState.returns, RwState.setPc, thread.2.1], thread.2.2⟩
        · obtain ⟨_, rfl⟩ : RwCall.wTrylock false = call ∧ Rv.ok = rv := by
            simpa [RwState.acquire, RwState.returns] using equal
          simp
  | tRefused =>
      simp only [pc] at stepped thread
      obtain ⟨sys, done, moved, rfl⟩ | ⟨fault, _, rfl⟩ := State.call_step stepped running
      · exact inv.unlock on done moved thread.2.2 (by simp [pc]) rfl (.returns s sys t _ _) rfl rfl
          thread.1
      · exact inv.fault fault
  | rReleased =>
      simp only [pc] at stepped thread
      obtain ⟨sys, done, moved, rfl⟩ | ⟨fault, _, rfl⟩ := State.call_step stepped running
      · exact inv.wakeup on done moved pc
      · exact inv.fault fault
  | wDowngraded =>
      simp only [pc] at stepped thread
      obtain ⟨sys, done, moved, rfl⟩ | ⟨fault, _, rfl⟩ := State.call_step stepped running
      · exact inv.unlock on done moved thread.2.2 (by simp [pc]) rfl (.setPc s sys t _) rfl rfl
          thread.1
      · exact inv.fault fault

private theorem RwInv.beginLock {n : Nat} {sys : State} {pc : RwPc} (inv : RwInv m k s)
    (on : s.sys.mode w = .thread t) (done : s.sys.act (.user w (.lock n m)) = some (.ok sys))
    (stepped : s.sys.step (.user w (.lock n m)) = some sys) (outside : s.pc t = .outside)
    (locking : pc = .rLocking (.auto t n) ∨ pc = .wLocking (.auto t n)) :
    RwInv m k ({ s with sys := sys }.enters t pc) := by
  have thread := inv.thread t
  simp only [RwThreadInv, outside] at thread
  have touches := Touches.enters s sys t pc
  have own : OwnStep m k s ({ s with sys := sys }.enters t pc) t :=
    .call inv on done stepped rfl (by simp) touches.others
      (fun _ _ _ served => served.keep (by simp [outside]) le_rfl touches.pc) rfl
  cases act_ok done with
  | user _ u _ _ on' _ effect =>
      obtain rfl := Mode.thread.inj (on'.symm.trans on)
      cases effect with
      | lock _ _ _ foreign =>
          have held : s.sys.held u m = false := by
            by_contra held
            have mine := (inv.sys.mutex u).holder m (by simpa [State.view] using held)
            exact foreign (by simpa [State.view] using mine)
          have writing : s.writing u = false := thread.1.symm.trans held
          have lock : InLock m k ((s.sys.tcEventInit (.auto u n) (s.sys.workerDomain w)).pushFrame u
              (.mutex m) (.auto u n) .cas0 (s.sys.eventStack u)) u (.auto u n) :=
            .inl ⟨_, s.sys.frames u, by simp [pushFrame, tcEventInit]; rfl, rfl, rfl, held, thread.2⟩
          refine own.inv inv ?_ inv.count (fun writes => inv.write u writes)
            (by simp [RwState.enters])
          rw [RwThreadInv, touches.own]
          rcases locking with rfl | rfl <;> exact ⟨writing, ⟨n, rfl⟩, lock⟩

private theorem RwInv.beginTrylock {sys : State} (inv : RwInv m k s) (on : s.sys.mode w = .thread t)
    (done : s.sys.act (.user w (.trylock m)) = some (.ok sys))
    (stepped : s.sys.step (.user w (.trylock m)) = some sys) (outside : s.pc t = .outside) :
    RwInv m k (if s.sys.owner m = none then { s with sys := sys }.enters t .tLocked
      else { s with sys := sys }.returns t (.wTrylock (s.writing t)) .failed) := by
  have thread := inv.thread t
  simp only [RwThreadInv, outside] at thread
  obtain ⟨frames, locked, refused⟩ := act_trylock on done
  have clean : Clean m k (sys.frames t) := frames ▸ thread.2
  have holder : s.sys.held t m = true → s.sys.owner m = some t := by
    intro held
    have mine := (inv.sys.mutex t).holder m (by simpa [State.view] using held)
    simpa [State.view] using mine
  split
  · next free =>
    have touches := Touches.enters s sys t .tLocked
    have own : OwnStep m k s ({ s with sys := sys }.enters t .tLocked) t :=
      .call inv on done stepped rfl (by simp) touches.others
        (fun _ _ _ served => served.keep (by simp [outside]) le_rfl touches.pc) rfl
    have writing : s.writing t = false := by
      by_contra writing
      have owner := holder (thread.1.trans (by simpa using writing))
      simp [free] at owner
    refine own.inv inv ?_ inv.count (fun writes => inv.write t writes) (by simp [RwState.enters])
    rw [RwThreadInv, touches.own]
    exact ⟨writing, locked free, clean⟩
  · next taken =>
    have touches := Touches.returns s sys t (.wTrylock (s.writing t)) .failed
    have own : OwnStep m k s ({ s with sys := sys }.returns t (.wTrylock (s.writing t)) .failed) t :=
      .call inv on done stepped rfl (by simp) touches.others
        (fun _ _ _ served => served.keep (by simp [outside]) le_rfl touches.pc) rfl
    refine own.inv inv ?_ inv.count (fun writes => inv.write t writes)
      fun call rv equal => ⟨touches.own, fun _ other => ?_⟩
    · rw [RwThreadInv, touches.own]
      exact ⟨(congrFun (congrFun (refused taken) t) m).trans thread.1, clean⟩
    · obtain ⟨rfl, _⟩ : RwCall.wTrylock (s.writing t) = call ∧ _ := by
        simpa [RwState.returns] using equal
      show s.writing t = false
      simpa using other

theorem RwInv.beginStep {op : RwOp} (inv : RwInv m k s) (on : s.sys.mode w = .thread t)
    (running : s.sys.fault = none) (outside : s.pc t = .outside)
    (stepped : s.beginStep m w t op = some s') : RwInv m k s' := by
  have thread := inv.thread t
  simp only [RwThreadInv, outside] at thread
  cases op with
  | rLock n =>
      simp only [RwState.beginStep] at stepped
      obtain ⟨sys, done, moved, rfl⟩ | ⟨fault, _, rfl⟩ := State.call_step stepped running
      · exact inv.beginLock on done moved outside (.inl rfl)
      · exact inv.fault fault
  | wLock n =>
      simp only [RwState.beginStep] at stepped
      obtain ⟨sys, done, moved, rfl⟩ | ⟨fault, _, rfl⟩ := State.call_step stepped running
      · exact inv.beginLock on done moved outside (.inr rfl)
      · exact inv.fault fault
  | wTrylock =>
      simp only [RwState.beginStep] at stepped
      obtain ⟨sys, done, moved, rfl⟩ | ⟨fault, _, rfl⟩ := State.call_step stepped running
      · exact inv.beginTrylock on done moved outside
      · exact inv.fault fault
  | rUnlock u =>
      simp only [RwState.beginStep] at stepped
      split at stepped
      · next member =>
        cases stepped
        have some : 0 < s.readers := by
          rw [inv.count]
          exact_mod_cast List.length_pos_of_mem member
        have own : OwnStep m k s { s.enters t (if s.readers - 1 = 0 then .rReleased else .outside) with
            readers := s.readers - 1
            readLocks := s.readLocks.erase u } t := by
          refine .plain inv rfl (Touches.enters s s.sys t _).others (fun _ => ?_) (by omega)
          by_cases last : s.readers - 1 = 0
          · exact .inr ⟨t, by simp [RwState.enters, RwState.setPc, last]⟩
          · exact .inl (show 0 < s.readers - 1 by omega)
        refine own.inv inv ?_ ?_ (fun writes => ?_) (by simp [RwState.enters])
        · simp only [RwThreadInv, RwState.enters, RwState.setPc, Function.update_self]
          split_ifs <;> exact thread
        · have length := List.length_erase_add_one member
          simp only [inv.count]
          omega
        · have none := inv.write t writes
          omega
      · cases stepped
  | wUnlock =>
      simp only [RwState.beginStep] at stepped
      split at stepped
      · next writing =>
        obtain ⟨sys, done, moved, rfl⟩ | ⟨fault, _, rfl⟩ := State.call_step stepped running
        · refine inv.unlock on done moved thread.2 (by simp [outside]) rfl ⟨rfl, ?_, ?_⟩ rfl rfl
            (by simp)
          · exact fun _ other => Function.update_of_ne other _ _
          · exact fun _ other => Function.update_of_ne other _ _
        · exact inv.fault fault
      · cases stepped
  | w2rLock =>
      simp only [RwState.beginStep] at stepped
      split at stepped
      · next writing =>
        cases stepped
        have held := (inv.thread t).held writing
        refine inv.plain rfl (by simp [outside]) (⟨rfl, ?_, ?_⟩ : Touches s _ t .wDowngraded)
          (.inr ⟨held, by simp⟩) (by simp [inv.count]) ?_ (by simp) (by simp [RwState.enters])
        · exact fun _ other => Function.update_of_ne other _ _
        · exact fun _ other => Function.update_of_ne other _ _
        · simpa [RwThreadInv, RwState.enters, RwState.setPc] using ⟨held, thread.2⟩
      · cases stepped

end Own

theorem RwState.runs_iff {s : RwState} {w : WorkerId} {t : Tid} (runs : s.runs w t = true) :
    s.sys.mode w = .thread t ∧ s.sys.fault = none := by
  simp only [RwState.runs, Bool.and_eq_true, decide_eq_true_eq, Option.isNone_iff_eq_none] at runs
  exact ⟨current_eq_some.mp runs.1.1, runs.1.2⟩

theorem RwInv.step {m : MutexId} {k : Nat} {s s' : RwState} {a : RwAction} (inv : RwInv m k s)
    (stepped : s.step m k a = some s') : RwInv m k s' := by
  cases a with
  | system a =>
      simp only [RwState.step] at stepped
      split at stepped
      · next allowed =>
        obtain ⟨sys, moved, rfl⟩ := Option.map_eq_some_iff.mp stepped
        rcases step_act moved with done | ⟨fault, _, rfl⟩
        · exact ⟨inv.sys.step moved, inv.owner.step inv.sys moved,
            fun t => .system inv allowed moved done, inv.count, inv.write, inv.returned⟩
        · exact inv.fault fault
      · cases stepped
  | begin w op =>
      obtain ⟨t, _, begun⟩ := Option.bind_eq_some_iff.mp stepped
      split at begun
      · next ready =>
        obtain ⟨on, running⟩ := RwState.runs_iff ready.1
        exact inv.beginStep on running ready.2 begun
      · cases begun
  | next w n =>
      obtain ⟨t, _, moved⟩ := Option.bind_eq_some_iff.mp stepped
      split at moved
      · next ready =>
        obtain ⟨on, running⟩ := RwState.runs_iff ready
        exact inv.nextStep on running moved
      · cases moved

theorem RwInv.initial (m : MutexId) (k workers : Nat) (domainOf : WorkerId → DomainId) :
    RwInv m k (.initial workers domainOf) where
  sys := SystemInv.initial workers domainOf
  owner := OwnerInv.initial workers domainOf m
  thread t := by
    simp [RwThreadInv, RwState.initial, State.initial, Clean]
  count := rfl
  write t writes := by simp [RwState.initial] at writes
  returned t call rv equal := by simp [RwState.initial] at equal

theorem RwInv.run {m : MutexId} {k workers : Nat} {domainOf : WorkerId → DomainId} {s : RwState}
    (reached : RwReachable m k workers domainOf s) : RwInv m k s :=
  reached.invariant (RwInv m k) (.initial m k workers domainOf) fun inv _ stepped => inv.step stepped

end Libtcr
