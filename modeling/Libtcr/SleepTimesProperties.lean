import Libtcr.SleepTimesInvariant

/-! The times of `tc_sleep` in whole runs: what reaches the kernel timer, and when a thread
returns. -/

set_option autoImplicit false

namespace Libtcr

open State HeadedList

/-! ## Steps -/

section Steps

variable {m : MutexId} {f : FdId} {s s' : TimerState} {w : WorkerId} {t : Tid} {n : Nat}
  {now : Timespec} {ctl : Bool}

/-- A step of `tc_sleep` changes no deadline, and nobody calls `tc_sleep` in it. -/
structure SameDeadlines (s s' : TimerState) : Prop where
  absEnd : s'.absEnd = s.absEnd
  outside : ∀ u, s.pc u = .outside → s'.pc u = .outside

theorem SameDeadlines.goes {next : SleepPc} (inside : s.pc t ≠ .outside)
    (pc : s'.pc = Function.update s.pc t next) (absEnd : s'.absEnd = s.absEnd) : SameDeadlines s s' := by
  refine ⟨absEnd, fun u outside => ?_⟩
  have other : u ≠ t := by
    rintro rfl
    exact inside outside
  rw [pc, Function.update_of_ne other, outside]

theorem SameDeadlines.call {a : Action} {next : SleepPc} {after : State → TimerState}
    (called : s.call a after = some s') (inside : s.pc t ≠ .outside)
    (pc : ∀ sys, (after sys).pc = Function.update s.pc t next)
    (absEnd : ∀ sys, (after sys).absEnd = s.absEnd) : SameDeadlines s s' := by
  obtain ⟨sys, _, rfl⟩ | ⟨fault, _, rfl⟩ := State.call_cases called
  · exact .goes inside (pc sys) (absEnd sys)
  · exact ⟨rfl, fun _ outside => outside⟩

theorem SameDeadlines.nextStep (stepped : s.nextStep m f w t n now ctl = some s') :
    SameDeadlines s s' := by
  have crash : SameDeadlines s s.crash := ⟨rfl, fun _ outside => outside⟩
  have inside : s.pc t ≠ .outside := by
    intro pc
    simp [TimerState.nextStep, pc] at stepped
  cases pc : s.pc t with
  | outside => exact absurd pc inside
  | inserted | trying e | decided e haveLock value | polling | marked ts two two2 =>
      simp only [TimerState.nextStep, pc] at stepped
      exact .call stepped inside (fun _ => rfl) (fun _ => rfl)
  | quit haveLock rv =>
      cases haveLock with
      | true =>
          simp only [TimerState.nextStep, pc] at stepped
          exact .call stepped inside (fun _ => rfl) (fun _ => rfl)
      | false =>
          simp only [TimerState.nextStep, pc, Option.some.injEq] at stepped
          subst stepped
          exact .goes inside rfl rfl
  | removed rv =>
      simp only [TimerState.nextStep, pc] at stepped
      split at stepped
      · exact .call stepped inside (fun _ => rfl) (fun _ => rfl)
      · cases stepped
        exact .goes inside rfl rfl
      · cases stepped
        exact crash
  | _ =>
      -- the other steps do not call the library
      simp only [TimerState.nextStep, pc] at stepped
      repeat' split at stepped
      all_goals cases stepped <;> first | exact crash | exact .goes inside rfl rfl

end Steps

inductive ClockStep (m : MutexId) (f : FdId) (c : ClockState) : ClockAction → ClockState → Prop where
  | system (a : Action) (sys : State) (allowed : c.base.allows m a = true)
      (stepped : c.base.sys.step a = some sys) :
      ClockStep m f c (.system a) { c with base := { c.base with sys := sys } }
  | sleep (w : WorkerId) (n : Nat) (now : Timespec) (sec nsec : Int) (t : Tid) (absEnd : Timespec)
      (base : TimerState) (on : c.base.sys.mode w = .thread t) (running : c.base.sys.fault = none)
      (outside : c.base.pc t = .outside) (deadline : sleepDeadline now sec nsec = some absEnd)
      (valid : now.valid = true) (after : c.clock.total ≤ now.total) (secs : 0 ≤ sec)
      (nsecs : 0 ≤ nsec) (stepped : c.base.tcSleep w t n absEnd = some base) :
      ClockStep m f c (.sleep w n now sec nsec) { c with
        base := base
        clock := now
        first := Function.update c.first t now
        asked := Function.update c.asked t ⟨sec, nsec⟩ }
  | next (w : WorkerId) (n : Nat) (now : Timespec) (ctl : Bool) (t : Tid) (base : TimerState)
      (on : c.base.sys.mode w = .thread t) (running : c.base.sys.fault = none)
      (code : c.base.sys.inUserCode t = true)
      (read : c.base.readsClock t = true → now.valid = true ∧ c.clock.total ≤ now.total)
      (stepped : c.base.nextStep m f w t n now ctl = some base) :
      ClockStep m f c (.next w n now ctl) (c.after t now base)

theorem ClockState.step_cases {m : MutexId} {f : FdId} {c c' : ClockState} {a : ClockAction}
    (stepped : c.step m f a = some c') : ClockStep m f c a c' := by
  cases a with
  | system a =>
      simp only [ClockState.step, TimerState.step] at stepped
      split at stepped
      · cases stepped
      · split at stepped
        · next allowed =>
          obtain ⟨base, moved, rfl⟩ := Option.map_eq_some_iff.mp stepped
          obtain ⟨sys, acted, rfl⟩ := Option.map_eq_some_iff.mp moved
          exact .system a sys allowed acted
        · cases stepped
  | sleep w n now sec nsec =>
      simp only [ClockState.step] at stepped
      split at stepped
      · next t absEnd on deadline =>
        split at stepped
        · next allowed =>
          simp only [ClockState.reads, ClockState.isLong, Bool.and_eq_true, decide_eq_true_eq] at allowed
          obtain ⟨⟨⟨_, valid, after⟩, secs, _⟩, nsecs, _⟩ := allowed
          obtain ⟨base, moved, rfl⟩ := Option.map_eq_some_iff.mp stepped
          simp only [TimerState.step, on] at moved
          split at moved
          · next ready =>
            exact .sleep w n now sec nsec t absEnd base on ready.1 ready.2.2 deadline valid after secs
              nsecs moved
          · cases moved
        · cases stepped
      · cases stepped
  | next w n now ctl =>
      simp only [ClockState.step] at stepped
      split at stepped
      · next t on =>
        split at stepped
        · next allowed =>
          obtain ⟨base, moved, rfl⟩ := Option.map_eq_some_iff.mp stepped
          simp only [TimerState.step, on] at moved
          split at moved
          · next ready =>
            refine .next w n now ctl t base on ready.1 ready.2.1 (fun reads => ?_) moved
            simpa [ClockState.reads, reads] using (Bool.and_eq_true_iff.mp allowed).2
          · cases moved
        · cases stepped
      · cases stepped

/-! ## Deadlines and clock -/

def ClockAction.fits : ClockAction → Bool
  | .sleep _ _ now sec nsec => deadlineFits now sec nsec
  | _ => true

structure ClockInv (m : MutexId) (c : ClockState) : Prop where
  sleep : ∃ xs, SleepInv m c.base xs
  due : DueInv c.base c.clock
  bound : ∀ t, (c.base.absEnd t).nsec ≤ 10 ^ 9

section Clock

variable {m : MutexId} {f : FdId} {c c' : ClockState} {a : ClockAction} {t : Tid}
  {now absEnd : Timespec} {sec nsec : Int}

@[simp] theorem ClockState.program_base (value : Option Timespec) :
    (c.program value).base = c.base := by
  cases value <;> rfl

@[simp] theorem ClockState.program_clock (value : Option Timespec) :
    (c.program value).clock = c.clock := by
  cases value <;> rfl

private theorem tcSleep_absEnd {s s' : TimerState} {w : WorkerId} {n : Nat}
    (stepped : s.tcSleep w t n absEnd = some s') (running : s.sys.fault = none) :
    s' = { s with sys := s'.sys } ∨ s'.absEnd = Function.update s.absEnd t absEnd ∧
      ∀ u, u ≠ t → s'.pc u = s.pc u := by
  simp only [TimerState.tcSleep] at stepped
  obtain ⟨sys, _, _, rfl⟩ | ⟨fault, _, rfl⟩ := State.call_step stepped running
  · exact .inr ⟨rfl, fun u other => Function.update_of_ne other _ _⟩
  · exact .inl rfl

private theorem ClockStep.deadlines (holds : Timespec → Prop) (step : ClockStep m f c a c')
    (before : ∀ t, holds (c.base.absEnd t))
    (begins : ∀ w n now sec nsec absEnd, a = .sleep w n now sec nsec → now.valid = true →
      0 ≤ sec → 0 ≤ nsec → sleepDeadline now sec nsec = some absEnd → holds absEnd) (u : Tid) :
    holds (c'.base.absEnd u) := by
  cases step with
  | system a sys _ _ => exact before u
  | sleep w n now sec nsec t absEnd base _ running _ deadline valid _ secs nsecs stepped =>
      rcases tcSleep_absEnd stepped running with same | ⟨changed, _⟩
      · show holds (base.absEnd u)
        rw [same]
        exact before u
      · show holds (base.absEnd u)
        rw [changed]
        by_cases own : u = t
        · rw [own, Function.update_self]
          exact begins w n now sec nsec absEnd rfl valid secs nsecs deadline
        · rw [Function.update_of_ne own]
          exact before u
  | next w n now ctl t base _ _ _ _ stepped =>
      simp only [ClockState.after, ClockState.program_base]
      rw [(SameDeadlines.nextStep stepped).absEnd]
      exact before u

theorem ClockInv.step (inv : ClockInv m c) (fits : a.fits = true)
    (stepped : c.step m f a = some c') : ClockInv m c' := by
  obtain ⟨xs, sleep⟩ := inv.sleep
  have step := ClockState.step_cases stepped
  have bound : ∀ t, (c'.base.absEnd t).nsec ≤ 10 ^ 9 := by
    refine step.deadlines (fun absEnd => absEnd.nsec ≤ 10 ^ 9) inv.bound ?_
    rintro w n now sec nsec absEnd rfl valid secs nsecs deadline
    obtain ⟨i, _, equal, _, high⟩ := sleepDeadline_eq valid secs nsecs fits
    obtain rfl := Option.some.inj (deadline.symm.trans equal)
    exact high
  cases step with
  | system a sys allowed moved =>
      refine ⟨?_, inv.due.system sleep allowed moved, bound⟩
      rcases step_act moved with done | ⟨fault, _, rfl⟩
      · exact ⟨xs, sleep.system allowed moved done⟩
      · exact ⟨xs, sleep.fault fault⟩
  | sleep w n now sec nsec t absEnd base on running outside _ _ after _ _ begun =>
      exact ⟨⟨xs, sleep.begin on running outside begun⟩,
        (inv.due.later after).begin sleep on running outside begun, bound⟩
  | next w n now ctl t base on running code read moved =>
      obtain ⟨ys, kept⟩ := sleep.nextStep on running code moved
      refine ⟨⟨ys, by simpa [ClockState.after] using kept⟩, ?_, bound⟩
      simp only [ClockState.after, ClockState.program_base, ClockState.program_clock]
      by_cases reads : c.base.readsClock t = true
      · obtain ⟨valid, after⟩ := read reads
        rw [if_pos reads]
        exact (inv.due.later after).nextStep sleep inv.bound (fun _ => ⟨rfl, valid⟩) on running moved
      · rw [if_neg reads]
        exact inv.due.nextStep sleep inv.bound (fun now => absurd now reads) on running moved

theorem ClockInv.initial (m : MutexId) (workers : Nat) (domainOf : WorkerId → DomainId) :
    ClockInv m (.initial workers domainOf) where
  sleep := ⟨[], .initial m workers domainOf⟩
  due := ⟨by simp [ClockState.initial, TimerState.initial, SleepPc.listed],
    by simp [ClockState.initial, TimerState.initial, DuePc]⟩
  bound t := by simp [ClockState.initial, TimerState.initial]

end Clock

/-! ## The kernel timer -/

/-- The nanoseconds of the deadline are no whole number of seconds, as a `double`. -/
def ClockAction.offSecond : ClockAction → Bool
  | .sleep _ _ now sec nsec => deadlineFits now sec nsec &&
    !(0 < Binary64.round (now.nsec + nsec) && Binary64.round (now.nsec + nsec) % 10 ^ 9 == 0)
  | _ => true

structure KernelInv (c : ClockState) : Prop where
  absEnd : ∀ t, (c.base.absEnd t).valid = true
  programmed : ∀ value ∈ c.programmed, value.valid = true ∧ 0 < value.total
  running : c.exited = false

section Kernel

variable {m : MutexId} {f : FdId} {c c' : ClockState} {a : ClockAction} {t : Tid}
  {now absEnd value : Timespec} {sec nsec : Int}

private theorem ClockAction.fits_of_offSecond (off : a.offSecond = true) : a.fits = true := by
  cases a with
  | sleep w n now sec nsec => exact (Bool.and_eq_true_iff.mp off).1
  | _ => rfl

private theorem sleepDeadline_valid {w : WorkerId} {n : Nat} (valid : now.valid = true)
    (secs : 0 ≤ sec) (nsecs : 0 ≤ nsec)
    (off : (ClockAction.sleep w n now sec nsec).offSecond = true)
    (deadline : sleepDeadline now sec nsec = some absEnd) : absEnd.valid = true := by
  obtain ⟨i, many, equal, low, high⟩ :=
    sleepDeadline_eq valid secs nsecs (ClockAction.fits_of_offSecond off)
  obtain rfl := Option.some.inj (deadline.symm.trans equal)
  have fraction : Binary64.round (now.nsec + nsec) ≤ 0 ∨
      Binary64.round (now.nsec + nsec) % 10 ^ 9 ≠ 0 := by
    simpa [ClockAction.offSecond] using (Bool.and_eq_true_iff.mp off).2
  rw [Timespec.valid_iff] at valid ⊢
  dsimp only
  omega

/-- What is programmed is the deadline of somebody, relative to a time that has been read. -/
theorem TimerState.settime_cases {s : TimerState} (programs : s.settime t now = some value) :
    ∃ x ts, itValue (s.absEnd x) ts = some value ∧
      (ts = now ∧ s.readsClock t = true ∨ s.pc t = .reprogramming ts) := by
  cases pc : s.pc t with
  | reprogram =>
      simp only [TimerState.settime, pc] at programs
      split_ifs at programs with first
      exact ⟨t, now, programs, .inl ⟨rfl, by simp [TimerState.readsClock, pc, first]⟩⟩
  | reprogramming ts =>
      simp only [TimerState.settime, pc] at programs
      split at programs
      · next x _ =>
        split_ifs at programs
        exact ⟨x, ts, programs, .inr rfl⟩
      · cases programs
  | _ => simp [TimerState.settime, pc] at programs

theorem KernelInv.program (inv : KernelInv c) (fits : value.valid = true ∧ 0 < value.total) :
    KernelInv (c.program (some value)) where
  absEnd := inv.absEnd
  programmed other member := by
    rcases List.mem_cons.mp member with rfl | before
    · exact fits
    · exact inv.programmed other before
  running := by simp [ClockState.program, inv.running, fits.1]

theorem KernelInv.step (inv : KernelInv c) (clock : ClockInv m c) (off : a.offSecond = true)
    (stepped : c.step m f a = some c') : KernelInv c' := by
  have step := ClockState.step_cases stepped
  have absEnd : ∀ t, (c'.base.absEnd t).valid = true := by
    refine step.deadlines (fun absEnd => absEnd.valid = true) inv.absEnd ?_
    rintro w n now sec nsec absEnd rfl valid secs nsecs deadline
    exact sleepDeadline_valid valid secs nsecs off deadline
  cases step with
  | system a sys _ _ => exact ⟨absEnd, inv.programmed, inv.running⟩
  | sleep w n now sec nsec t deadline base _ _ _ _ _ _ _ _ _ =>
      exact ⟨absEnd, inv.programmed, inv.running⟩
  | next w n now ctl t base _ _ _ read _ =>
      have kept : KernelInv { c with
          base := base
          clock := if c.base.readsClock t then now else c.clock } :=
        ⟨fun u => by simpa [ClockState.after] using absEnd u, inv.programmed, inv.running⟩
      unfold ClockState.after
      cases programs : c.base.settime t now with
      | none => exact kept
      | some value =>
          obtain ⟨x, ts, equal, time⟩ := TimerState.settime_cases programs
          have valid : ts.valid = true := by
            rcases time with ⟨rfl, reads⟩ | pc
            · exact (read reads).1
            · have known := clock.due.known t
              rw [pc] at known
              exact known.1
          exact kept.program (itValue_valid valid (inv.absEnd x) equal)

end Kernel

/-- In a run in which the nanoseconds of no deadline are a whole number of seconds, every deadline
and every value for `timerfd_settime` is valid, and the timer is never disarmed. -/
theorem timer_times_valid {m : MutexId} {f : FdId} {workers : Nat} {domainOf : WorkerId → DomainId}
    {c : ClockState} (run : Transition.Run (ClockState.step m f) (fun _ a => a.offSecond = true)
      (.initial workers domainOf) c) :
    (∀ t, 0 ≤ (c.base.absEnd t).nsec ∧ (c.base.absEnd t).nsec < 10 ^ 9) ∧
    (∀ value ∈ c.programmed, value.valid = true ∧ 0 < value.total) ∧ c.exited = false := by
  obtain ⟨_, inv⟩ := run.invariant (fun c => ClockInv m c ∧ KernelInv c)
    ⟨.initial m workers domainOf, fun _ => rfl, by simp [ClockState.initial], rfl⟩
    fun ⟨clock, inv⟩ off stepped =>
      ⟨clock.step (ClockAction.fits_of_offSecond off) stepped, inv.step clock off stepped⟩
  exact ⟨fun t => (Timespec.valid_iff.mp (inv.absEnd t)).2, inv.programmed, inv.running⟩

def sleepYields (w : WorkerId) : List ClockAction :=
  [.system (.advance w), .system (.advance w), .system (.leave w), .system (.runImmediate w .any),
    .system (.enter w), .system (.advance w)]

def nextAt (w : WorkerId) (n : Nat) (now : Timespec) : ClockAction := .next w n now true

def programsTimer (now : Timespec) (sec nsec : Int) : List ClockAction :=
  .sleep 0 0 now sec nsec :: sleepYields 0 ++ [nextAt 0 0 now, nextAt 0 0 now, nextAt 0 0 now,
    nextAt 0 0 now]

set_option maxRecDepth 20000 in
/-- Half a second after 100 s, a thread sleeps for 1 s and 700 ms. -/
theorem timer_times_valid_carry : ∃ c, Transition.Run (ClockState.step 0 0)
    (fun _ a => a.offSecond = true) (.initial 1 fun _ => 0) c ∧ c.programmed = [⟨102, 2 * 10 ^ 8⟩] ∧
    (∀ t, 0 ≤ (c.base.absEnd t).nsec ∧ (c.base.absEnd t).nsec < 10 ^ 9) ∧
    (∀ value ∈ c.programmed, value.valid = true ∧ 0 < value.total) ∧ c.exited = false := by
  obtain ⟨c, reached, programmed⟩ := Transition.exists_run
    (Transition.guarded (ClockState.step 0 0) fun _ a => a.offSecond) (.initial 1 fun _ => 0)
    (programsTimer ⟨100, 5 * 10 ^ 8⟩ 1 (7 * 10 ^ 8))
    (fun c => decide (c.programmed = [⟨102, 2 * 10 ^ 8⟩])) (by decide)
  have run := Transition.Run.of_guarded reached
  exact ⟨c, run, by simpa using programmed, timer_times_valid run⟩

set_option maxRecDepth 20000 in
/-- Half a second after 100 s, a thread sleeps for 5 s and 500 ms: `timerfd_settime` fails. -/
theorem timer_time_invalid : ∃ c, Transition.Run (ClockState.step 0 0) Transition.always
    (.initial 1 fun _ => 0) c ∧ c.base.absEnd 0 = ⟨105, 10 ^ 9⟩ ∧ c.programmed = [⟨105, 10 ^ 9⟩] ∧
    c.exited = true := by
  obtain ⟨c, run, shown⟩ := Transition.exists_run (ClockState.step 0 0) (.initial 1 fun _ => 0)
    (programsTimer ⟨100, 5 * 10 ^ 8⟩ 5 (5 * 10 ^ 8))
    (fun c => decide (c.base.absEnd 0 = ⟨105, 10 ^ 9⟩) && decide (c.programmed = [⟨105, 10 ^ 9⟩]) &&
      c.exited) (by decide)
  simp only [Bool.and_eq_true, decide_eq_true_eq] at shown
  obtain ⟨⟨absEnd, programmed⟩, exited⟩ := shown
  exact ⟨c, run, absEnd, programmed, exited⟩

/-! ## The end of the sleep -/

/-- The nanoseconds of the deadline do not get less in the conversion to `double`. -/
def ClockAction.roundsUp : ClockAction → Bool
  | .sleep _ _ now sec nsec => deadlineFits now sec nsec &&
    now.nsec + nsec ≤ Binary64.round (now.nsec + nsec)
  | _ => true

/-- The deadline of a call is not before the time that it asks for. -/
def Deferred (c : ClockState) : Prop :=
  ∀ t, c.base.pc t ≠ .outside → (c.first t).total + (c.asked t).total ≤ (c.base.absEnd t).total

section Early

variable {m : MutexId} {f : FdId} {c c' : ClockState} {a : ClockAction} {t : Tid}
  {now absEnd : Timespec} {sec nsec : Int}

private theorem ClockAction.fits_of_roundsUp (up : a.roundsUp = true) : a.fits = true := by
  cases a with
  | sleep w n now sec nsec => exact (Bool.and_eq_true_iff.mp up).1
  | _ => rfl

private theorem sleepDeadline_late {w : WorkerId} {n : Nat} (valid : now.valid = true)
    (secs : 0 ≤ sec) (nsecs : 0 ≤ nsec) (up : (ClockAction.sleep w n now sec nsec).roundsUp = true)
    (deadline : sleepDeadline now sec nsec = some absEnd) :
    now.total + (⟨sec, nsec⟩ : Timespec).total ≤ absEnd.total := by
  obtain ⟨i, _, equal, _, _⟩ := sleepDeadline_eq valid secs nsecs (ClockAction.fits_of_roundsUp up)
  obtain rfl := Option.some.inj (deadline.symm.trans equal)
  have rounded : now.nsec + nsec ≤ Binary64.round (now.nsec + nsec) := by
    simpa using (Bool.and_eq_true_iff.mp up).2
  unfold Timespec.total
  dsimp only
  omega

@[simp] theorem ClockState.program_first (value : Option Timespec) :
    (c.program value).first = c.first := by
  cases value <;> rfl

@[simp] theorem ClockState.program_asked (value : Option Timespec) :
    (c.program value).asked = c.asked := by
  cases value <;> rfl

theorem Deferred.step (deferred : Deferred c) (up : a.roundsUp = true)
    (stepped : c.step m f a = some c') : Deferred c' := by
  cases ClockState.step_cases stepped with
  | system a sys _ _ => exact deferred
  | sleep w n now sec nsec t absEnd base _ running outside deadline valid _ secs nsecs begun =>
      intro u inside
      dsimp only at inside ⊢
      rcases tcSleep_absEnd begun running with same | ⟨changed, others⟩
      · -- The process has ended before the call began.
        rw [same] at inside ⊢
        have other : u ≠ t := by
          rintro rfl
          exact inside outside
        rw [Function.update_of_ne other, Function.update_of_ne other]
        exact deferred u inside
      · rw [changed]
        by_cases own : u = t
        · subst own
          rw [Function.update_self, Function.update_self, Function.update_self]
          exact sleepDeadline_late valid secs nsecs up deadline
        · rw [Function.update_of_ne own, Function.update_of_ne own, Function.update_of_ne own]
          exact deferred u (others u own ▸ inside)
  | next w n now ctl t base _ _ _ _ moved =>
      have same := SameDeadlines.nextStep moved
      intro u inside
      simp only [ClockState.after, ClockState.program_base] at inside
      simp only [ClockState.after, ClockState.program_base, ClockState.program_first,
        ClockState.program_asked, same.absEnd]
      exact deferred u fun outside => inside (same.outside u outside)

end Early

/-- In a run in which no deadline gets earlier in the conversion to `double`, a call that returns
`RV_OK` has slept for the time that it was asked to. -/
theorem sleep_not_early {m : MutexId} {f : FdId} {workers : Nat} {domainOf : WorkerId → DomainId}
    {c : ClockState} (run : Transition.Run (ClockState.step m f) (fun _ a => a.roundsUp = true)
      (.initial workers domainOf) c) {t : Tid} (returns : c.base.pc t = .removed .ok) :
    (c.first t).total + (c.asked t).total ≤ c.clock.total := by
  obtain ⟨clock, deferred⟩ := run.invariant (fun c => ClockInv m c ∧ Deferred c)
    ⟨.initial m workers domainOf, fun t inside => absurd rfl inside⟩
    fun ⟨clock, deferred⟩ up stepped =>
      ⟨clock.step (ClockAction.fits_of_roundsUp up) stepped, deferred.step up stepped⟩
  have due := clock.due.known t
  rw [returns] at due
  calc (c.first t).total + (c.asked t).total ≤ (c.base.absEnd t).total :=
        deferred t (by simp [returns])
    _ ≤ c.clock.total := due rfl

/-- Thread 0 has programmed the timer; when its condition is evaluated the clock shows `later`. -/
def wakesAt (now later : Timespec) : List ClockAction :=
  [nextAt 0 1 now, .system (.advance 0), nextAt 0 0 later, nextAt 0 0 later, .system (.advance 0),
    nextAt 0 0 later, nextAt 0 0 later, nextAt 0 0 later]

set_option maxRecDepth 20000 in
theorem sleep_not_early_carry : ∃ c, Transition.Run (ClockState.step 0 0)
    (fun _ a => a.roundsUp = true) (.initial 1 fun _ => 0) c ∧ c.base.pc 0 = .removed .ok ∧
    (c.first 0).total + (c.asked 0).total ≤ c.clock.total := by
  obtain ⟨c, reached, returns⟩ := Transition.exists_run
    (Transition.guarded (ClockState.step 0 0) fun _ a => a.roundsUp) (.initial 1 fun _ => 0)
    (programsTimer ⟨100, 5 * 10 ^ 8⟩ 1 (7 * 10 ^ 8) ++ wakesAt ⟨100, 5 * 10 ^ 8⟩ ⟨102, 2 * 10 ^ 8⟩)
    (fun c => decide (c.base.pc 0 = .removed .ok)) (by decide)
  have run := Transition.Run.of_guarded reached
  simp only [decide_eq_true_eq] at returns
  exact ⟨c, run, returns, sleep_not_early run returns⟩

private theorem sleepDeadline_early :
    sleepDeadline ⟨100, 0⟩ 0 (2 ^ 53 + 1) = some ⟨9007299, 254740992⟩ := by
  obtain ⟨i, _, equal, low, high⟩ :=
    @sleepDeadline_eq ⟨100, 0⟩ 0 (2 ^ 53 + 1) (by decide) (by decide) (by decide) (by decide)
  have rounded : Binary64.round (0 + (2 ^ 53 + 1)) = 2 ^ 53 := by decide
  rw [rounded] at low high equal
  obtain rfl : i = 9007199 := by omega
  exact equal

set_option maxRecDepth 20000 in
/-- At 100 s a thread sleeps for `2 ^ 53 + 1` ns, and returns one nanosecond early. -/
theorem sleep_early : ∃ c, Transition.Run (ClockState.step 0 0) Transition.always
    (.initial 1 fun _ => 0) c ∧ c.base.pc 0 = .removed .ok ∧
    c.clock.total < (c.first 0).total + (c.asked 0).total := by
  have executed : (Transition.exec (ClockState.step 0 0) (.initial 1 fun _ => 0)
      (programsTimer ⟨100, 0⟩ 0 (2 ^ 53 + 1) ++ wakesAt ⟨100, 0⟩ ⟨9007299, 254740992⟩)).any
        (fun c => decide (c.base.pc 0 = .removed .ok) &&
          decide (c.clock.total < (c.first 0).total + (c.asked 0).total)) = true := by
    -- The loop takes nine million turns, so the deadline is not evaluated.
    rw [programsTimer, List.cons_append, List.cons_append, Transition.exec, ClockState.step,
      sleepDeadline_early]
    decide
  obtain ⟨c, run, shown⟩ := Transition.exists_run _ _ _ _ executed
  simp only [Bool.and_eq_true, decide_eq_true_eq] at shown
  exact ⟨c, run, shown⟩

end Libtcr
