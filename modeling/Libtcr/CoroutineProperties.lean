import Libtcr.CoroutineInvariant
import Libtcr.ExitProperties

/-! A thread runs on at most one worker, and is destroyed only after its coroutine has
been left for good. -/

set_option autoImplicit false

namespace Libtcr

open State

/-! ## The invariant -/

/-- Worker `w` in its switches: the coroutine it executes, and the spinlock of its
`sched_p2`, which is held by `w` unless it executes a thread. -/
def SwitchInv (s : CrState) (w : WorkerId) : Prop :=
  match s.sys.mode w with
  | .sched | .report _ _ | .free _ =>
    s.pc w = .ready ∧ s.current w = some (.sched w) ∧ s.lock (.sched w) = true
  | .enter t => s.lock (.sched w) = true ∧
    match s.pc w with
    | .ready | .locked => s.current w = some (.sched w)
    | .called => s.current w = some (.thread t) ∧ s.caller (.thread t) = some (.sched w) ∧
      s.left w = some (.sched w)
  | .thread t => s.pc w = .ready ∧ s.current w = some (.thread t) ∧ s.lock (.sched w) = false
  | .leave t =>
    match s.pc w with
    | .ready => s.current w = some (.thread t) ∧ s.lock (.sched w) = false
    | .locked => s.current w = some (.thread t) ∧ s.lock (.sched w) = true
    | .called => s.current w = some (.sched w) ∧ s.lock (.sched w) = true ∧
      s.caller (.sched w) = some (.thread t) ∧ s.left w = some (.thread t)
  | .off => s.pc w = .ready ∧ s.lock (.sched w) = false ∧ ∀ v, s.current w ≠ some (.sched v)

/-- Worker `w` occupies thread `t`, and the steps of the library hold its spinlock. -/
def CrState.Executes (s : CrState) (w : WorkerId) (t : Tid) : Prop :=
  s.sys.mode w = .thread t ∨ s.sys.mode w = .leave t ∨
    s.sys.mode w = .off ∧ s.current w = some (.thread t)

structure CrInv (s : CrState) : Prop where
  system : SystemInv s.sys
  selected : SelectedInv s
  switch : ∀ w, SwitchInv s w
  held : ∀ t, s.lock (.thread t) = true ↔ (∃ w, s.Occupies w t) ∨ s.destroyed t = true
  unique : ∀ v w t, s.Occupies v t → s.Occupies w t → v = w
  executes : ∀ t, s.sys.runningLock t = true ↔ ∃ w, s.Executes w t
  destroyed : ∀ t, s.destroyed t = true → s.sys.status t = .dead ∧ ∀ w, ¬ s.Occupies w t

section Switches

variable {s s' : CrState} {v w : WorkerId} {t : Tid} {c : Cr}

theorem CrState.Executes.occupies (executes : s.Executes w t) : s.Occupies w t :=
  .inr executes

theorem CrState.Occupies.cases (occupies : s.Occupies w t) :
    s.sys.mode w = .enter t ∧ s.pc w ≠ .ready ∨ s.Executes w t :=
  occupies

theorem SwitchInv.occupies (inv : SwitchInv s w) (current : s.current w = some (.thread t)) :
    s.Occupies w t := by
  unfold SwitchInv at inv
  unfold CrState.Occupies
  cases mode : s.sys.mode w with
  | sched => simp [mode, current] at inv
  | report f e => simp [mode, current] at inv
  | free u => simp [mode, current] at inv
  | enter u => cases pc : s.pc w <;> simp_all
  | thread u => simp_all
  | leave u => cases pc : s.pc w <;> simp_all
  | off => simp_all

theorem SwitchInv.sched (inv : SwitchInv s w) (current : s.current w = some (.sched v)) : v = w := by
  unfold SwitchInv at inv
  cases mode : s.sys.mode w with
  | enter u => cases pc : s.pc w <;> simp_all
  | leave u => cases pc : s.pc w <;> simp_all
  | _ => simp_all

theorem SwitchInv.same (inv : SwitchInv s w) (mode : s'.sys.mode w = s.sys.mode w)
    (pc : s'.pc w = s.pc w) (current : s'.current w = s.current w) (left : s'.left w = s.left w)
    (lock : s'.lock (.sched w) = s.lock (.sched w))
    (caller : ∀ c, s.current w = some c → s.pc w = .called → s'.caller c = s.caller c) :
    SwitchInv s' w := by
  unfold SwitchInv at inv ⊢
  rw [mode, pc, current, left, lock]
  cases before : s.sys.mode w with
  | enter u =>
      cases at_ : s.pc w with
      | called =>
          simp only [before, at_] at inv ⊢
          rw [caller _ inv.2.1 at_]
          exact inv
      | _ => simpa [before, at_] using inv
  | leave u =>
      cases at_ : s.pc w with
      | called =>
          simp only [before, at_] at inv ⊢
          rw [caller _ inv.1 at_]
          exact inv
      | _ => simpa [before, at_] using inv
  | _ => simpa [before] using inv

end Switches

/-! ## Steps without a switch -/

section Plain

variable {s : CrState} {sys : State} {selected : Tid → Nat} {w : WorkerId} {t : Tid}

theorem SwitchInv.move (inv : SwitchInv s w) (moves : ModeMove (s.sys.mode w) (sys.mode w)) :
    SwitchInv { s with sys := sys, selected := selected } w := by
  unfold SwitchInv at inv ⊢
  dsimp only
  generalize s.sys.mode w = before at inv moves
  generalize sys.mode w = after at moves ⊢
  cases moves <;> simp_all

private theorem occupies_move (inv : SwitchInv s w) (moves : ModeMove (s.sys.mode w) (sys.mode w)) :
    CrState.Occupies { s with sys := sys, selected := selected } w t ↔ s.Occupies w t := by
  unfold SwitchInv at inv
  unfold CrState.Occupies
  dsimp only
  generalize s.sys.mode w = before at inv moves
  generalize sys.mode w = after at moves ⊢
  cases moves <;> simp_all

private theorem executes_move (inv : SwitchInv s w) (moves : ModeMove (s.sys.mode w) (sys.mode w)) :
    CrState.Executes { s with sys := sys, selected := selected } w t ↔ s.Executes w t := by
  unfold SwitchInv at inv
  unfold CrState.Executes
  dsimp only
  generalize s.sys.mode w = before at inv moves
  generalize sys.mode w = after at moves ⊢
  cases moves <;> simp_all

end Plain

theorem CrInv.keep {s s' : CrState} (inv : CrInv s) (system : SystemInv s'.sys)
    (selected : SelectedInv s') (switch : ∀ w, SwitchInv s' w)
    (occupies : ∀ w t, s'.Occupies w t ↔ s.Occupies w t)
    (lock : ∀ t, s'.lock (.thread t) = s.lock (.thread t))
    (executes : ∀ t, s'.sys.runningLock t = true ↔ ∃ w, s'.Executes w t)
    (destroyed : s'.destroyed = s.destroyed)
    (dead : ∀ t, s.sys.status t = .dead → s'.sys.status t = .dead) : CrInv s' where
  system := system
  selected := selected
  switch := switch
  held t := by simp only [occupies, lock, destroyed, inv.held]
  unique v w t first second :=
    inv.unique v w t ((occupies v t).mp first) ((occupies w t).mp second)
  executes := executes
  destroyed t gone := by
    obtain ⟨ended, nobody⟩ := inv.destroyed t (destroyed ▸ gone)
    exact ⟨dead t ended, fun w occupied => nobody w ((occupies w t).mp occupied)⟩

theorem CrInv.move {s : CrState} {sys : State} {selected : Tid → Nat} (inv : CrInv s)
    (system : SystemInv sys)
    (selections : SelectedInv { s with sys := sys, selected := selected })
    (moves : ∀ w, ModeMove (s.sys.mode w) (sys.mode w))
    (lock : ∀ t, sys.runningLock t = s.sys.runningLock t)
    (dead : ∀ t, s.sys.status t = .dead → sys.status t = .dead) :
    CrInv { s with sys := sys, selected := selected } := by
  refine inv.keep system selections (fun w => (inv.switch w).move (moves w))
    (fun w t => occupies_move (inv.switch w) (moves w)) (fun _ => rfl) (fun t => ?_) rfl dead
  simp only [executes_move (inv.switch _) (moves _), lock, inv.executes]

private theorem count_failed {s : CrState} {a : Action} {fault fault' : Fault}
    (failed : s.sys.act a = some (.error fault)) :
    s.count a { s.sys with fault := some fault' } = s.selected := by
  cases a with
  | runImmediate w scan =>
      simp only [act] at failed
      split at failed
      · next sched => simp [CrState.count, sched]
      · cases failed
  | runReported w =>
      simp only [act] at failed
      split at failed
      · next report => simp [CrState.count, report]
      · cases failed
  | advance w => cases mode : s.sys.mode w <;> simp [CrState.count, mode]
  | _ => rfl

theorem CrInv.plain {s : CrState} {a : Action} {sys : State} (inv : CrInv s)
    (plain : a.switches = false) (stepped : s.sys.step a = some sys) :
    CrInv { s with sys := sys, selected := s.count a sys } := by
  obtain ⟨_, effect | ⟨fault, failed, rfl⟩⟩ := State.step_cases stepped
  · exact inv.move (inv.system.step stepped) (inv.selected.plain inv.system effect plain)
      (effect.modeMove inv.system.lists plain) (effect.runningLock inv.system.lists plain)
      fun t => (inv.system.lifeStep stepped).dead
  · rw [count_failed failed]
    exact inv.move (inv.system.step stepped) inv.selected (fun _ => .same _) (fun _ => rfl)
      fun _ dead => dead

/-! ## Switches -/

section Steps

variable {s : CrState} {w : WorkerId} {t : Tid}

private theorem CrInv.acquireThread (inv : CrInv s) (enter : s.sys.mode w = .enter t)
    (ready : s.pc w = .ready) (free : s.lock (.thread t) = false) :
    CrInv { s with
      lock := Function.update s.lock (.thread t) true
      pc := Function.update s.pc w .locked } := by
  have nobody : ¬ ((∃ v, s.Occupies v t) ∨ s.destroyed t = true) := by
    rw [← inv.held t, free]
    simp
  have occupies : ∀ v u, CrState.Occupies { s with
      lock := Function.update s.lock (.thread t) true
      pc := Function.update s.pc w .locked } v u ↔ s.Occupies v u ∨ v = w ∧ u = t := by
    intro v u
    by_cases same : v = w
    · subst same
      simp [CrState.Occupies, enter, ready, eq_comm]
    · simp [CrState.Occupies, same]
  refine ⟨inv.system, inv.selected, ?_, ?_, ?_, inv.executes, ?_⟩
  · intro v
    by_cases same : v = w
    · subst same
      have before := inv.switch v
      simpa [SwitchInv, enter, ready] using before
    · exact (inv.switch v).same rfl (by simp [same]) rfl rfl (by simp) fun _ _ _ => rfl
  · intro u
    simp only [occupies, exists_or]
    by_cases same : u = t
    · simp [same]
    · simpa [same] using inv.held u
  · intro v v' u first second
    rcases (occupies v u).mp first with before | ⟨rfl, rfl⟩
    · rcases (occupies v' u).mp second with before' | ⟨rfl, rfl⟩
      · exact inv.unique v v' u before before'
      · exact absurd (.inl ⟨v, before⟩) nobody
    · rcases (occupies v' u).mp second with before' | ⟨rfl, _⟩
      · exact absurd (.inl ⟨v', before'⟩) nobody
      · rfl
  · intro u gone
    refine ⟨(inv.destroyed u gone).1, fun v occupied => ?_⟩
    rcases (occupies v u).mp occupied with before | ⟨_, rfl⟩
    · exact (inv.destroyed u gone).2 v before
    · exact absurd (.inr gone) nobody

private theorem CrInv.acquireSched (inv : CrInv s) (leave : s.sys.mode w = .leave t)
    (ready : s.pc w = .ready) :
    CrInv { s with
      lock := Function.update s.lock (.sched w) true
      pc := Function.update s.pc w .locked } := by
  have occupies : ∀ v u, CrState.Occupies { s with
      lock := Function.update s.lock (.sched w) true
      pc := Function.update s.pc w .locked } v u ↔ s.Occupies v u := by
    intro v u
    by_cases same : v = w
    · subst same
      simp [CrState.Occupies, leave]
    · simp [CrState.Occupies, same]
  refine inv.keep inv.system inv.selected (fun v => ?_) occupies (fun _ => by simp)
    inv.executes rfl fun _ dead => dead
  by_cases same : v = w
  · subst same
    have before := inv.switch v
    simp only [SwitchInv, leave, ready] at before
    simpa [SwitchInv, leave] using before.1
  · exact (inv.switch v).same rfl (by simp [same]) rfl rfl (by simp [same]) fun _ _ _ => rfl

theorem CrInv.call {c : Cr} {a : Action} (inv : CrInv s) (target : s.target w = some (c, a))
    (locked : s.pc w = .locked) :
    CrInv { s with
      caller := Function.update s.caller c (s.current w)
      left := Function.update s.left w (s.current w)
      current := Function.update s.current w (some c)
      pc := Function.update s.pc w .called } := by
  have before := inv.switch w
  have others : ∀ v, v ≠ w → ∀ c', s.current v = some c' → s.pc v = .called → c' ≠ c := by
    rintro v other c' current called rfl
    unfold CrState.target at target
    split at target
    · next t enter =>
      cases target
      have mine : s.Occupies w t := .inl ⟨enter, by simp [locked]⟩
      exact other (inv.unique v w t ((inv.switch v).occupies current) mine)
    · cases target
      exact other ((inv.switch v).sched current).symm
    · cases target
  refine inv.keep inv.system inv.selected (fun v => ?_) (fun v t => ?_) (fun _ => rfl)
    (fun t => ?_) rfl fun _ dead => dead
  · by_cases same : v = w
    · subst same
      unfold CrState.target at target
      split at target
      · next t enter =>
        cases target
        simp only [SwitchInv, enter, locked] at before
        simp [SwitchInv, enter, before]
      · next t leave =>
        cases target
        simp only [SwitchInv, leave, locked] at before
        simp [SwitchInv, leave, before]
      · cases target
    · exact (inv.switch v).same rfl (by simp [same]) (by simp [same]) (by simp [same]) rfl
        fun c' current called => Function.update_of_ne (others v same c' current called) _ _
  · by_cases same : v = w
    · subst same
      have on : s.sys.mode v ≠ .off := fun off => by simp [CrState.target, off] at target
      simp [CrState.Occupies, on, locked]
    · simp [CrState.Occupies, same]
  · rw [inv.executes]
    refine exists_congr fun v => ?_
    by_cases same : v = w
    · subst same
      have on : s.sys.mode v ≠ .off := fun off => by simp [CrState.target, off] at target
      simp [CrState.Executes, on]
    · simp [CrState.Executes, same]

theorem SwitchInv.previous {c : Cr} {a : Action} (inv : SwitchInv s w)
    (target : s.target w = some (c, a)) (called : s.pc w = .called) :
    s.current w = some c ∧ s.caller c = s.left w ∧
      ((∃ t, s.sys.mode w = .enter t ∧ c = .thread t ∧ a = .enter w ∧ s.left w = some (.sched w)) ∨
        ∃ t, s.sys.mode w = .leave t ∧ c = .sched w ∧ a = .leave w ∧
          s.left w = some (.thread t)) := by
  unfold CrState.target at target
  split at target
  · next t enter =>
    cases target
    simp only [SwitchInv, enter, called] at inv
    obtain ⟨_, current, caller, left⟩ := inv
    exact ⟨current, caller.trans left.symm, .inl ⟨t, enter, rfl, rfl, left⟩⟩
  · next t leave =>
    cases target
    simp only [SwitchInv, leave, called] at inv
    obtain ⟨current, _, caller, left⟩ := inv
    exact ⟨current, caller.trans left.symm, .inr ⟨t, leave, rfl, rfl, left⟩⟩
  · cases target

theorem CrInv.entered (inv : CrInv s) (enter : s.sys.mode w = .enter t) (called : s.pc w = .called)
    {sys : State} (stepped : s.sys.step (.enter w) = some sys) :
    CrInv { s with
      sys := sys
      lock := Function.update s.lock (.sched w) false
      pc := Function.update s.pc w .ready } := by
  obtain rfl : sys = s.sys.enterThread w t := by
    rcases State.step_act stepped with done | ⟨fault, failed, _⟩
    · simp only [act, enter] at done
      split at done
      · cases done
      · cases done
        rfl
    · simp only [act, enter] at failed
      split at failed <;> cases failed
  have before := inv.switch w
  simp only [SwitchInv, enter, called] at before
  refine inv.keep (inv.system.step stepped) (inv.selected.same rfl fun _ => rfl) (fun v => ?_)
    (fun v u => ?_) (fun _ => by simp) (fun u => ?_) rfl fun _ => (inv.system.lifeStep stepped).dead
  · by_cases same : v = w
    · subst same
      simp [SwitchInv, enterThread, before]
    · exact (inv.switch v).same (by simp [enterThread, same]) (by simp [same]) rfl rfl
        (by simp [same]) fun _ _ _ => rfl
  · by_cases same : v = w
    · subst same
      simp [CrState.Occupies, enterThread, enter, called]
    · simp [CrState.Occupies, enterThread, same]
  · have executes : ∀ v, CrState.Executes { s with
        sys := s.sys.enterThread w t
        lock := Function.update s.lock (.sched w) false
        pc := Function.update s.pc w .ready } v u ↔ s.Executes v u ∨ v = w ∧ u = t := by
      intro v
      by_cases same : v = w
      · subst same
        simpa [CrState.Executes, enterThread, enter] using eq_comm
      · simp [CrState.Executes, enterThread, same]
    simp only [executes, exists_or]
    rw [← inv.executes u]
    by_cases same : u = t <;> simp [enterThread, same]

private theorem CrInv.leftThread (inv : CrInv s) (leave : s.sys.mode w = .leave t)
    (called : s.pc w = .called) {sys : State} (stepped : s.sys.step (.leave w) = some sys) :
    CrInv { s with
      sys := sys
      lock := Function.update s.lock (.thread t) false
      pc := Function.update s.pc w .ready } := by
  obtain rfl : sys = { s.sys with
      runningLock := Function.update s.sys.runningLock t false
      mode := Function.update s.sys.mode w .sched } := by
    rcases State.step_act stepped with done | ⟨fault, failed, _⟩
    · simp only [act, leave] at done
      cases done
      rfl
    · simp only [act, leave] at failed
      cases failed
  have before := inv.switch w
  simp only [SwitchInv, leave, called] at before
  have mine : s.Executes w t := .inr (.inl leave)
  -- w is the only one to occupy t, and occupies nothing else
  have gone : ∀ v u, s.Occupies v u ∧ u ≠ t ↔ s.Occupies v u ∧ v ≠ w := by
    intro v u
    refine and_congr_right fun occupies => not_congr ⟨?_, ?_⟩
    · rintro rfl
      exact inv.unique v w u occupies mine.occupies
    · rintro rfl
      simpa [CrState.Occupies, leave, eq_comm] using occupies
  have occupies : ∀ v u, CrState.Occupies { s with
      sys := { s.sys with
        runningLock := Function.update s.sys.runningLock t false
        mode := Function.update s.sys.mode w .sched }
      lock := Function.update s.lock (.thread t) false
      pc := Function.update s.pc w .ready } v u ↔ s.Occupies v u ∧ u ≠ t := by
    intro v u
    rw [gone]
    by_cases same : v = w <;> simp [CrState.Occupies, same]
  have executes : ∀ v u, CrState.Executes { s with
      sys := { s.sys with
        runningLock := Function.update s.sys.runningLock t false
        mode := Function.update s.sys.mode w .sched }
      lock := Function.update s.lock (.thread t) false
      pc := Function.update s.pc w .ready } v u ↔ s.Executes v u ∧ u ≠ t := by
    intro v u
    by_cases same : v = w
    · subst same
      simp [CrState.Executes, leave, eq_comm]
    · have other : s.Executes v u → u ≠ t := fun executes equal =>
        same (inv.unique v w t (equal ▸ executes.occupies) mine.occupies)
      rw [and_iff_left_of_imp other]
      simp [CrState.Executes, same]
  refine ⟨inv.system.step stepped, inv.selected.same rfl fun _ => rfl, fun v => ?_, fun u => ?_,
    ?_, fun u => ?_, fun u destroyed => ?_⟩
  · by_cases same : v = w
    · subst same
      simp [SwitchInv, before]
    · exact (inv.switch v).same (by simp [same]) (by simp [same]) rfl rfl (by simp)
        fun _ _ _ => rfl
  · simp only [occupies]
    by_cases same : u = t
    · have alive : s.destroyed t ≠ true := fun destroyed =>
        (inv.destroyed t destroyed).2 w mine.occupies
      simp [same, alive]
    · simpa [same] using inv.held u
  · intro v v' u first second
    exact inv.unique v v' u ((occupies v u).mp first).1 ((occupies v' u).mp second).1
  · simp only [executes]
    by_cases same : u = t
    · simp [same]
    · simpa [same] using inv.executes u
  · obtain ⟨dead, nobody⟩ := inv.destroyed u destroyed
    exact ⟨dead, fun v occupied => nobody v ((occupies v u).mp occupied).1⟩

theorem CrInv.freed (inv : CrInv s) (free : s.sys.mode w = .free t)
    (unlocked : s.lock (.thread t) = false) {sys : State}
    (stepped : s.sys.step (.free w) = some sys) (running : sys.fault = none) :
    CrInv { s with
      sys := sys
      lock := Function.update s.lock (.thread t) true
      destroyed := Function.update s.destroyed t true } := by
  obtain rfl : sys = ({ s.sys with
      status := Function.update s.sys.status t .dead
      life := Function.update s.sys.life (.self t) .dead
      mode := Function.update s.sys.mode w .sched }.iwiImmediate (s.sys.threadDomain t)) := by
    rcases State.step_act stepped with done | ⟨fault, _, rfl⟩
    · simp only [act, free, tcThreadFree] at done
      split at done
      · cases done
      · split at done <;> cases done
        rfl
    · cases running
  have before := inv.switch w
  simp only [SwitchInv, free] at before
  have nobody : ∀ v, ¬ s.Occupies v t := fun v occupies => by
    simp [(inv.held t).mpr (.inl ⟨v, occupies⟩)] at unlocked
  have occupies : ∀ v u, CrState.Occupies { s with
      sys := ({ s.sys with
        status := Function.update s.sys.status t .dead
        life := Function.update s.sys.life (.self t) .dead
        mode := Function.update s.sys.mode w .sched }.iwiImmediate (s.sys.threadDomain t))
      lock := Function.update s.lock (.thread t) true
      destroyed := Function.update s.destroyed t true } v u ↔ s.Occupies v u := by
    intro v u
    by_cases same : v = w
    · simp [CrState.Occupies, iwiImmediate, same, free]
    · simp [CrState.Occupies, iwiImmediate, same]
  refine ⟨inv.system.step stepped, inv.selected.same rfl fun _ => rfl, fun v => ?_, fun u => ?_,
    ?_, fun u => ?_, fun u destroyed => ?_⟩
  · by_cases same : v = w
    · subst same
      simpa [SwitchInv, iwiImmediate] using before
    · exact (inv.switch v).same (by simp [iwiImmediate, same]) rfl rfl rfl (by simp)
        fun _ _ _ => rfl
  · simp only [occupies]
    by_cases same : u = t
    · simp [same]
    · simpa [same] using inv.held u
  · intro v v' u first second
    exact inv.unique v v' u ((occupies v u).mp first) ((occupies v' u).mp second)
  · refine (inv.executes u).trans (exists_congr fun v => ?_)
    by_cases same : v = w
    · simp [CrState.Executes, iwiImmediate, same, free]
    · simp [CrState.Executes, iwiImmediate, same]
  · by_cases same : u = t
    · subst same
      exact ⟨by simp [iwiImmediate], fun v occupied => nobody v ((occupies v u).mp occupied)⟩
    · obtain ⟨dead, empty⟩ := inv.destroyed u (by simpa [same] using destroyed)
      exact ⟨(inv.system.lifeStep stepped).dead dead, fun v occupied =>
        empty v ((occupies v u).mp occupied)⟩

end Steps

theorem CrInv.step {s s' : CrState} {a : CrAction} (inv : CrInv s) (stepped : s.step a = some s') :
    CrInv s' := by
  cases a with
  | system a =>
      simp only [CrState.step] at stepped
      split at stepped
      · cases stepped
      · next plain =>
        obtain ⟨sys, done, rfl⟩ := Option.map_eq_some_iff.mp stepped
        exact inv.plain (by simpa using plain) done
  | acquire w =>
      simp only [CrState.step] at stepped
      split at stepped
      · next c a target =>
        split at stepped
        · next allowed =>
          obtain ⟨_, ready, free⟩ := allowed
          cases stepped
          unfold CrState.target at target
          split at target
          · next t enter =>
            cases target
            exact inv.acquireThread enter ready free
          · next t leave =>
            cases target
            exact inv.acquireSched leave ready
          · cases target
        · cases stepped
      · cases stepped
  | call w =>
      simp only [CrState.step] at stepped
      split at stepped
      · next c a target =>
        split at stepped
        · next allowed =>
          cases stepped
          exact inv.call target allowed.2
        · cases stepped
      · cases stepped
  | release w =>
      simp only [CrState.step] at stepped
      split at stepped
      · next c a previous target caller =>
        split at stepped
        · next called =>
          obtain ⟨sys, done, rfl⟩ := Option.map_eq_some_iff.mp stepped
          obtain ⟨current, same, entered | left⟩ := (inv.switch w).previous target called
          · obtain ⟨t, enter, rfl, rfl, left⟩ := entered
            obtain rfl : previous = .sched w := by simpa [current, same, left, eq_comm] using caller
            exact inv.entered enter called done
          · obtain ⟨t, leave, rfl, rfl, left⟩ := left
            obtain rfl : previous = .thread t := by simpa [current, same, left, eq_comm] using caller
            exact inv.leftThread leave called done
        · cases stepped
      · cases stepped
  | free w =>
      simp only [CrState.step] at stepped
      split at stepped
      · next t free =>
        split at stepped
        · cases stepped
        · next unlocked =>
          obtain ⟨sys, done, rfl⟩ := Option.map_eq_some_iff.mp stepped
          split
          · next running => exact inv.freed free (by simpa using unlocked) done running
          · next ended =>
            obtain ⟨runs, effect | ⟨fault, _, rfl⟩⟩ := State.step_cases done
            · cases effect
              exact absurd runs ended
            · exact inv.move (inv.system.step done) inv.selected (fun _ => .same _) (fun _ => rfl)
                fun _ dead => dead
      · cases stepped

theorem CrInv.initial (workers : Nat) (domainOf : WorkerId → DomainId) :
    CrInv (.initial workers domainOf) := by
  have occupies : ∀ w t, (CrState.initial workers domainOf).Occupies w t ↔ w < workers ∧ w = t := by
    intro w t
    by_cases on : w < workers <;> simp [CrState.Occupies, CrState.initial, State.initial, on]
  have executes : ∀ w t, (CrState.initial workers domainOf).Executes w t ↔ w < workers ∧ w = t := by
    intro w t
    by_cases on : w < workers <;> simp [CrState.Executes, CrState.initial, State.initial, on]
  refine ⟨.initial workers domainOf, fun t => ?_, fun w => ?_, fun t => ?_, fun v w t => ?_,
    fun t => ?_, fun t gone => ?_⟩
  · simp [CrState.initial]
  · by_cases on : w < workers <;> simp [SwitchInv, CrState.initial, State.initial, on]
  · simp only [occupies]
    simp [CrState.initial]
  · rw [occupies, occupies]
    rintro ⟨_, rfl⟩ ⟨_, rfl⟩
    rfl
  · simp only [executes]
    simp [CrState.initial, State.initial]
  · cases gone

theorem CrInv.run {workers : Nat} {domainOf : WorkerId → DomainId} {s : CrState}
    (reached : CrReachable workers domainOf s) : CrInv s :=
  Transition.Run.invariant reached CrInv (.initial workers domainOf) fun inv _ stepped =>
    inv.step stepped

/-! ## Results -/

section Results

variable {s : CrState} {w : WorkerId} {t : Tid}

theorem CrInv.releases (inv : CrInv s) (running : s.sys.fault = none) (called : s.pc w = .called) :
    ∃ c s', s.left w = some c ∧ s.lock c = true ∧ s.step (.release w) = some s' ∧
      s'.lock = Function.update s.lock c false := by
  have switch := inv.switch w
  cases mode : s.sys.mode w with
  | enter t =>
      have target : s.target w = some (.thread t, .enter w) := by simp [CrState.target, mode]
      obtain ⟨current, caller, _⟩ := switch.previous target called
      simp only [SwitchInv, mode, called] at switch
      obtain ⟨locked, _, _, left⟩ := switch
      have free : s.sys.runningLock t = false := by
        by_contra held
        obtain ⟨v, executes⟩ := (inv.executes t).mp (by simpa using held)
        obtain rfl := inv.unique v w t executes.occupies (.inl ⟨mode, by simp [called]⟩)
        simp [CrState.Executes, mode] at executes
      have stepped : s.sys.step (.enter w) = some (s.sys.enterThread w t) :=
        State.step_of_act running (by simp [act, mode, free])
      refine ⟨.sched w, { s with
        sys := s.sys.enterThread w t
        lock := Function.update s.lock (.sched w) false
        pc := Function.update s.pc w .ready }, left, locked, ?_, rfl⟩
      simp [CrState.step, target, current, caller, left, called, stepped]
  | leave t =>
      have target : s.target w = some (.sched w, .leave w) := by simp [CrState.target, mode]
      obtain ⟨current, caller, _⟩ := switch.previous target called
      simp only [SwitchInv, mode, called] at switch
      obtain ⟨_, _, _, left⟩ := switch
      have locked := (inv.held t).mpr (.inl ⟨w, .inr (.inr (.inl mode))⟩)
      have stepped : s.sys.step (.leave w) = some { s.sys with
          runningLock := Function.update s.sys.runningLock t false
          mode := Function.update s.sys.mode w .sched } :=
        State.step_of_act running (by simp [act, mode])
      refine ⟨.thread t, { s with
        sys := { s.sys with
          runningLock := Function.update s.sys.runningLock t false
          mode := Function.update s.sys.mode w .sched }
        lock := Function.update s.lock (.thread t) false
        pc := Function.update s.pc w .ready }, left, locked, ?_, rfl⟩
      simp [CrState.step, target, current, caller, left, called, stepped]
  | _ => simp [SwitchInv, mode, called] at switch

/-- A thread that is being freed, or has been, is on no worker and on its way to none. -/
theorem CrInv.away (inv : CrInv s)
    (gone : s.destroyed t = true ∨ ∃ v, s.sys.mode v = .free t ∧ s.lock (.thread t) = false) :
    s.current w ≠ some (.thread t) ∧ s.sys.mode w ≠ .enter t := by
  have nobody : ¬ s.Occupies w t := by
    rcases gone with destroyed | ⟨v, _, unlocked⟩
    · exact (inv.destroyed t destroyed).2 w
    · intro occupies
      simp [(inv.held t).mpr (.inl ⟨w, occupies⟩)] at unlocked
  have status : s.sys.status t = .dead ∨ s.sys.status t = .exiting := by
    rcases gone with destroyed | ⟨v, free, _⟩
    · exact .inl (inv.destroyed t destroyed).1
    · exact .inr ((inv.system.thread t).freeing v (by simp [State.view, placeOf, free])).1
  refine ⟨fun current => nobody ((inv.switch w).occupies current), fun enter => ?_⟩
  rcases (inv.system.thread t).entering w _ (by simp [State.view, placeOf, enter]; rfl) with
    ⟨posted, _⟩ | ⟨executable, _⟩
  · simp only [State.view] at posted
    simp [posted] at status
  · simp only [State.view] at executable
    rcases status with dead | exiting
    · simp [dead, Status.executable] at executable
    · simp [exiting, Status.executable] at executable

end Results

/-- In every reachable state: a thread has been selected at most once since its
`TF_RUNNING` was cleared; its spinlock is held exactly while one worker occupies it, or
after `tc_thread_free` has taken it; what has been entered releases the spinlock of the
coroutine left last; no coroutine is loaded on two workers; and a thread that
`tc_thread_free` destroys, or has destroyed, is loaded on no worker and will be entered
by none. -/
theorem thread_runs_on_one_worker {workers : Nat} {domainOf : WorkerId → DomainId} {s : CrState}
    (reached : CrReachable workers domainOf s) :
    (∀ t, s.selected t ≤ 1) ∧
    (∀ t, s.lock (.thread t) = true ↔ (∃ w, s.Occupies w t) ∨ s.destroyed t = true) ∧
    (∀ v w t, s.Occupies v t → s.Occupies w t → v = w) ∧
    (∀ w, s.sys.fault = none → s.pc w = .called →
      ∃ c s', s.left w = some c ∧ s.lock c = true ∧ s.step (.release w) = some s' ∧
        s'.lock = Function.update s.lock c false) ∧
    (∀ v w c, s.current v = some c → s.current w = some c → v = w) ∧
    (∀ w t s', s.sys.mode w = .free t → s.step (.free w) = some s' →
      ∀ v, s.current v ≠ some (.thread t) ∧ s.sys.mode v ≠ .enter t) ∧
    (∀ t, s.destroyed t = true →
      ∀ v, s.current v ≠ some (.thread t) ∧ s.sys.mode v ≠ .enter t) := by
  have inv := CrInv.run reached
  refine ⟨fun t => (inv.selected t).1, inv.held, inv.unique, fun w => inv.releases, ?_, ?_,
    fun t destroyed v => inv.away (.inl destroyed)⟩
  · intro v w c first second
    cases c with
    | thread t =>
        exact inv.unique v w t ((inv.switch v).occupies first) ((inv.switch w).occupies second)
    | sched u =>
        rw [← (inv.switch v).sched first]
        exact (inv.switch w).sched second
  · intro w t s' free stepped v
    refine inv.away (.inr ⟨w, free, ?_⟩)
    simp only [CrState.step, free] at stepped
    split at stepped
    · cases stepped
    · next unlocked => simpa using unlocked

/-- Worker 1 has selected thread 0, and spins until worker 0 has left it. -/
def CrState.Spins (s : CrState) : Bool :=
  decide (s.sys.mode 0 = .leave 0 ∧ s.pc 0 = .called ∧ s.sys.mode 1 = .enter 0 ∧ s.pc 1 = .ready ∧
    s.lock (.thread 0) = true)

set_option maxRecDepth 20000 in
theorem thread_runs_on_one_worker_spins : ∃ s : CrState, CrReachable 2 (fun _ => 0) s ∧
    s.Spins = true ∧ s.selected 0 ≤ 1 ∧ (∀ w, s.Occupies w 0 → w = 0) := by
  obtain ⟨s, reached, spins⟩ := Transition.exists_run CrState.step (.initial 2 fun _ => 0)
    [.system (.user 0 (.yield 0)), .system (.advance 0), .system (.advance 0),
      .system (.user 1 (.yield 0)), .system (.advance 1), .system (.advance 1),
      .acquire 1, .call 1, .release 1, .system (.runImmediate 1 .any), .acquire 0, .call 0]
    CrState.Spins (by decide)
  obtain ⟨selected, _, unique, _⟩ := thread_runs_on_one_worker reached
  have leave : s.sys.mode 0 = .leave 0 := by
    simp only [CrState.Spins, decide_eq_true_eq] at spins
    exact spins.1
  exact ⟨s, reached, spins, selected 0, fun w occupies =>
    unique w 0 0 occupies (.inr (.inr (.inl leave)))⟩

end Libtcr
