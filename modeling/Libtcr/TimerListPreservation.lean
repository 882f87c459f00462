import Libtcr.TimerListSteps

/-! The steps of `tc_sleep`, one by one: each keeps the invariant. -/

set_option autoImplicit false

namespace Libtcr

open State HeadedList

section Sleep

variable {m : MutexId} {f : FdId} {s s' : TimerState} {xs ys : List Tid} {w : WorkerId} {t : Tid}
  {n : Nat} {now : Timespec} {ctl : Bool}

/-! ## Before the wait -/

theorem SleepInv.yielding {e : EventId}
    (inv : SleepInv m s xs) (pc : s.pc t = .yielding e)
    (stepped : s.nextStep m f w t n now ctl = some s') : SleepInv m s' xs := by
  have known := inv.list.pc t
  simp only [PcInv, pc] at known
  simp only [TimerState.nextStep, pc] at stepped
  have quits : ∀ rv, SleepInv m (s.setPc t (.quit false rv)) xs := by
    intro rv
    refine inv.setPc pc ⟨rfl, rfl, rfl⟩ rfl rfl ?_ ?_ fun _ => .of_past (t := t) ?_
    · simp [PcInv, TimerState.setPc]
    · simp [SleepCall, TimerState.setPc]
    · simp [PastWait, TimerState.setPc]
  cases result : s.sys.result e with
  | none => simp [result] at stepped
  | some rv =>
      cases rv with
      | ok =>
          simp only [result, Option.some.injEq] at stepped
          subst stepped
          refine inv.setPc pc ⟨rfl, rfl, rfl⟩ rfl rfl ?_ ?_ fun own => ?_
          · simpa [PcInv, TimerState.setPc] using known
          · simp [SleepCall, TimerState.setPc]
          · exact own.attended_running inv pc rfl (by simp [PastWait, pc]) (s.setPc_self t _)
              (by simp) (by simp)
      | _ =>
          simp only [result, Option.some.injEq] at stepped
          subst stepped
          exact quits _

theorem SleepInv.inserting
    (inv : SleepInv m s xs) (pc : s.pc t = .inserting)
    (stepped : s.nextStep m f w t n now ctl = some s') : SleepInv m s' xs := by
  have known := inv.list.pc t
  simp only [PcInv, pc] at known
  simp only [TimerState.nextStep, pc] at stepped
  split at stepped
  · next free =>
    cases stepped
    have goes := Advance.locks (t := t) free
      (show SleepPc.locks (.searching s.timers.first .null) = true from rfl)
    refine inv.advance goes rfl pc ⟨rfl, rfl, rfl⟩ rfl ?_ ?_ fun own => ?_
    · rw [PcInv, goes.own]
      exact ⟨known, [], xs, rfl, inv.list.valid.first, rfl, by simp⟩
    · rw [SleepCall, goes.own]
      trivial
    · exact own.attended_running inv pc rfl (by simp [PastWait, pc]) goes.own (by simp) (by simp)
  · cases stepped

theorem SleepInv.insert {cur prev : Pointer Tid} {zs : List Tid} {timers : HeadedList Tid}
    (inv : SleepInv m s (ys ++ zs)) (pc : s.pc t = .searching cur prev)
    (place : timers = s.timers.insertAt (lastSlot .head ys) t)
    (before : ∀ y ∈ ys, 0 ≤ compareTsTimes (s.absEnd t) (s.absEnd y))
    (after : ∀ z ∈ zs, compareTsTimes (s.absEnd t) (s.absEnd z) < 0) :
    SleepInv m (s.insert t timers) (ys ++ t :: zs) := by
  subst place
  have own : SleeperStep m s (s.insert t (s.timers.insertAt (lastSlot .head ys) t)) t :=
    .plain inv rfl fun u other => Function.update_of_ne other _ _
  have here : (s.insert t (s.timers.insertAt (lastSlot .head ys) t)).pc t = .reprogram :=
    Function.update_self ..
  refine own.inv inv (inv.list.insert pc before after) ⟨?_, (inv.sleeper t).noLock, ?_⟩ ?_
  · have held := (inv.sleeper t).held
    rw [pc] at held
    rw [here]
    exact held
  · simp [SleepCall, here]
  · exact .of_awake (t := t) (by simp) (Parked.not_of_pc (by simp [here]) (by simp [here]))

/-- One turn of the loop of `insert_into_timer_list`: the timer waiter is inserted, or belongs
after the next one. -/
theorem SleepInv.searching_cases {cur prev : Pointer Tid}
    (inv : SleepInv m s xs) (pc : s.pc t = .searching cur prev)
    (stepped : s.nextStep m f w t n now ctl = some s') :
    (∃ ys zs, xs = ys ++ zs ∧ (∀ y ∈ ys, 0 ≤ compareTsTimes (s.absEnd t) (s.absEnd y)) ∧
      (∀ z ∈ zs, compareTsTimes (s.absEnd t) (s.absEnd z) < 0) ∧
      s' = s.insert t (s.timers.insertAt (lastSlot .head ys) t)) ∨
    ∃ ys x zs, xs = ys ++ x :: zs ∧
      (∀ y ∈ ys ++ [x], 0 ≤ compareTsTimes (s.absEnd t) (s.absEnd y)) ∧
      s' = s.setPc t (.searching (toFirst zs) (.node x)) := by
  have known := inv.list.pc t
  simp only [PcInv, pc] at known
  obtain ⟨mark, ys, zs, rfl, rfl, rfl, passed⟩ := known
  simp only [TimerState.nextStep, pc] at stepped
  have fresh : t ∉ ys ++ zs := fun member => inv.list.valid.next_ne_mark member mark
  cases zs with
  | nil =>
      -- Nothing left, append.
      refine .inl ⟨ys, [], rfl, passed, by simp, ?_⟩
      cases slot : lastSlot .head ys with
      | head => simpa [toFirst, slot, Slot.owner, insertHead] using stepped.symm
      | next y => simpa [toFirst, slot, Slot.owner, insertAfter] using stepped.symm
  | cons x zs =>
      obtain ⟨_, forth, own⟩ := inv.list.valid.at_node
      simp only [toFirst, own, if_false] at stepped
      split at stepped
      · next earlier =>
        cases stepped
        refine .inl ⟨ys, x :: zs, rfl, passed, fun z member => ?_,
          by rw [inv.list.valid.insertBefore_eq fresh]⟩
        rcases List.mem_cons.mp member with rfl | later
        · exact earlier
        · have sorted := (List.pairwise_cons.mp (List.pairwise_append.mp inv.list.sorted).2.1).1 z later
          exact compareTsTimes_trans earlier (sorted.imp_right And.left)
      · next later =>
        cases stepped
        refine .inr ⟨ys, x, zs, rfl, fun y member => ?_, by rw [forth]⟩
        rcases List.mem_append.mp member with before | here
        · exact passed y before
        · obtain rfl := List.mem_singleton.mp here
          exact compareTsTimes_nonneg.mpr later

theorem SleepInv.searching {cur prev : Pointer Tid}
    (inv : SleepInv m s xs) (pc : s.pc t = .searching cur prev)
    (stepped : s.nextStep m f w t n now ctl = some s') : ∃ ys, SleepInv m s' ys := by
  have known := inv.list.pc t
  simp only [PcInv, pc] at known
  obtain ⟨ys, zs, rfl, passed, after, rfl⟩ | ⟨ys, x, zs, rfl, passed, rfl⟩ :=
    inv.searching_cases pc stepped
  · exact ⟨ys ++ t :: zs, inv.insert pc rfl passed after⟩
  · refine ⟨ys ++ x :: zs, inv.setPc pc ⟨rfl, rfl, rfl⟩ rfl rfl ?_ ?_ fun own => ?_⟩
    · rw [PcInv, TimerState.setPc_self]
      exact ⟨known.1, ys ++ [x], zs, by simp, rfl, by simp [lastSlot_append, lastSlot, Slot.owner], passed⟩
    · simp [SleepCall, TimerState.setPc]
    · exact own.attended_running inv pc rfl (by simp [PastWait, pc]) (s.setPc_self t _)
        (by simp) (by simp)

theorem SleepInv.reprogram (inv : SleepInv m s xs)
    (pc : s.pc t = .reprogram) (stepped : s.nextStep m f w t n now ctl = some s') :
    SleepInv m s' xs := by
  simp only [TimerState.nextStep, pc] at stepped
  split at stepped
  · next failed => simp [TimerState.timerfdReprogramValid, failed.1] at failed
  · cases stepped
    have goes : Advance s { s.setPc t .inserted with timerLock := none } t .inserted :=
      .unlocks inv.list pc s.sys rfl rfl
    refine inv.advance goes rfl pc ⟨rfl, rfl, rfl⟩ rfl ?_ ?_ fun own => ?_
    · rw [PcInv, goes.own]
      trivial
    · rw [SleepCall, goes.own]
      trivial
    · exact own.attended_running inv pc rfl (by simp [PastWait, pc]) goes.own (by simp) (by simp)

/-! ## The wait -/

theorem SleepInv.inserted (inv : SleepInv m s xs)
    (on : s.sys.mode w = .thread t) (running : s.sys.fault = none) (pc : s.pc t = .inserted)
    (stepped : s.nextStep m f w t n now ctl = some s') : SleepInv m s' xs := by
  simp only [TimerState.nextStep, pc] at stepped
  obtain ⟨sys, done, moved, rfl⟩ | ⟨fault, _, rfl⟩ := State.call_step stepped running
  · have frames : ∃ saved, sys.frames t = ⟨.cond t, .auto t n, .prep, saved⟩ :: s.sys.frames t := by
      cases act_ok done with
      | user _ u _ _ on' _ effect =>
          obtain rfl := Mode.thread.inj (on'.symm.trans on)
          cases effect
          exact ⟨_, by simp [pushFrame, tcEventInit]; rfl⟩
    obtain ⟨saved, frames⟩ := frames
    have goes : Advance s ({ s with sys := sys }.setPc t (.waiting (.auto t n))) t
        (.waiting (.auto t n)) := .setPc inv.list pc sys rfl
    refine inv.call on done moved rfl goes rfl pc ⟨rfl, rfl, rfl⟩ rfl ?_ ?_ fun own => ?_
    · rw [PcInv, goes.own]
      trivial
    · rw [SleepCall, goes.own]
      exact ⟨⟨n, rfl⟩, .inl ⟨_, _, frames, rfl, rfl, by simp, by simp⟩⟩
    · refine own.attended inv (by rw [pc]; rfl) (by simp [PastWait, pc]) fun _ parked => ?_
      -- The thread has not evaluated the condition yet.
      obtain ⟨e, _, ⟨haveLock, at_⟩ | ⟨_, g, rest, again, _, sleeps⟩⟩ := parked
      · rw [goes.own] at at_
        cases at_
      · obtain ⟨rfl, _⟩ := List.cons.inj (again.symm.trans frames)
        simp at sleeps
  · exact inv.fault fault

theorem SleepInv.waiting {e : EventId}
    (inv : SleepInv m s xs) (code : s.sys.inUserCode t = true) (pc : s.pc t = .waiting e)
    (stepped : s.nextStep m f w t n now ctl = some s') : SleepInv m s' xs := by
  have call := (inv.sleeper t).call
  simp only [SleepCall, pc] at call
  simp only [TimerState.nextStep, pc] at stepped
  cases result : s.sys.result e with
  | some rv =>
      simp only [result, Option.some.injEq] at stepped
      subst stepped
      refine inv.setPc pc ⟨rfl, rfl, rfl⟩ rfl rfl ?_ ?_ fun _ => .of_past (t := t) ?_
      · simp [PcInv, TimerState.setPc]
      · simp [SleepCall, TimerState.setPc]
      · simp [PastWait, TimerState.setPc]
  | none =>
      have test : InTest s t e := by
        obtain ⟨_, ⟨g, rest, frames, event, cond, first, _⟩ | returned⟩ := call
        · refine ⟨g, rest, frames, event, cond, ?_⟩
          simp only [inUserCode, frames, Bool.and_eq_true] at code
          obtain ⟨call', e', at_, saved⟩ := g
          dsimp only at cond
          subst cond
          cases at_ <;> simp_all [Frame.inCondition]
        · exact absurd result returned
      simp only [result] at stepped
      split at stepped
      · cases stepped
        refine inv.setPc pc ⟨rfl, rfl, rfl⟩ rfl rfl ?_ ?_ fun _ => .of_past (t := t) ?_
        · simp [PcInv, TimerState.setPc]
        · rw [SleepCall, TimerState.setPc_self]
          exact ⟨test, by simp⟩
        · simp [PastWait, TimerState.setPc]
      · cases stepped
        refine inv.setPc pc ⟨rfl, rfl, rfl⟩ rfl rfl ?_ ?_ fun own => ?_
        · simp [PcInv, TimerState.setPc]
        · rw [SleepCall, TimerState.setPc_self]
          exact test
        · exact own.attended_running inv pc rfl (by simp [PastWait, pc, result])
            (s.setPc_self t _) (by simp) (by simp)

theorem SleepInv.trying {e : EventId}
    (inv : SleepInv m s xs) (on : s.sys.mode w = .thread t) (running : s.sys.fault = none)
    (pc : s.pc t = .trying e) (stepped : s.nextStep m f w t n now ctl = some s') :
    SleepInv m s' xs := by
  have test := (inv.sleeper t).call
  simp only [SleepCall, pc] at test
  simp only [TimerState.nextStep, pc] at stepped
  generalize free : decide (s.sys.owner m = none) = got at stepped
  obtain ⟨sys, done, moved, rfl⟩ | ⟨fault, _, rfl⟩ := State.call_step stepped running
  · obtain ⟨frames, locked, refused⟩ := act_trylock on done
    have own : SleeperStep m s ({ s with sys := sys }.setPc t (.decided e got got)) t :=
      .call inv on (.inl ⟨_, rfl⟩) done moved rfl fun u other => Function.update_of_ne other _ _
    refine own.advance inv (.setPc inv.list pc sys rfl) pc ⟨rfl, rfl, rfl⟩ ?_ ⟨?_, ?_, ?_⟩ ?_
    · simp [PcInv]
    · rw [TimerState.setPc_self]
      cases got with
      | true => exact locked (by simpa using free)
      | false =>
          have held := (inv.sleeper t).held
          rw [pc] at held
          rw [← show s.sys.held t m = false from held]
          exact congrFun (congrFun (refused (by simpa using free)) t) m
    · show ∀ g ∈ sys.frames t, g.call ≠ .mutex m
      rw [frames]
      exact (inv.sleeper t).noLock
    · rw [SleepCall, TimerState.setPc_self]
      obtain ⟨g, rest, again, found⟩ := test
      exact ⟨⟨g, rest, (congrFun frames t).trans again, found⟩, id⟩
    · cases got with
      | true => exact .of_master (t := t) (by rw [TimerState.setPc_self]; rfl)
      | false =>
          obtain ⟨u, owner⟩ := Option.ne_none_iff_exists'.mp (show s.sys.owner m ≠ none by simpa using free)
          have master := inv.owner_iff.mp owner
          have other : u ≠ t := by
            rintro rfl
            simp [pc, SleepPc.holdsMutex] at master
          exact .of_master (t := u) (by rw [own.others u other]; exact master)
  · exact inv.fault fault

theorem SleepInv.decided {e : EventId} {haveLock value : Bool} (inv : SleepInv m s xs)
    (on : s.sys.mode w = .thread t) (running : s.sys.fault = none)
    (pc : s.pc t = .decided e haveLock value)
    (stepped : s.nextStep m f w t n now ctl = some s') : SleepInv m s' xs := by
  have call := (inv.sleeper t).call
  simp only [SleepCall, pc] at call
  obtain ⟨⟨g, rest, frames, rfl, cond, test⟩, got⟩ := call
  obtain ⟨⟨k, auto⟩, _⟩ := (inv.sys.thread t).frame g (by simp [State.view, frames])
  simp only [TimerState.nextStep, pc] at stepped
  obtain ⟨sys, done, moved, rfl⟩ | ⟨fault, _, rfl⟩ := State.call_step stepped running
  · have equal : sys = s.sys.setFrame t { g with pc := if value then .holds else .pushed } := by
      obtain ⟨call', e', at_, saved⟩ := g
      dsimp only at cond test
      subst cond test
      simp only [act, on, frames, conditionFrame] at done
      cases value <;> cases done <;> rfl
    have after : sys.frames t = { g with pc := if value then .holds else .pushed } :: rest := by
      simp [equal, State.setFrame, frames]
    have mutex : sys.held t m = haveLock := by
      have held := (inv.sleeper t).held
      rw [pc] at held
      rw [equal]
      exact held
    have noLock : ∀ h ∈ sys.frames t, h.call ≠ .mutex m := by
      have before := (inv.sleeper t).noLock
      rw [frames] at before
      rw [after]
      simpa [cond] using before
    cases value with
    | true =>
        have own : SleeperStep m s ({ s with sys := sys }.setPc t (.leaving g.e haveLock)) t :=
          .call inv on (.inr ⟨_, rfl⟩) done moved rfl fun u other => Function.update_of_ne other _ _
        refine own.advance inv (.setPc inv.list pc sys rfl) pc ⟨rfl, rfl, rfl⟩ ?_ ⟨?_, noLock, ?_⟩ ?_
        · simp [PcInv]
        · rw [TimerState.setPc_self]
          exact mutex
        · simp [SleepCall]
        · exact .of_past (t := t) (by simp [PastWait])
    | false =>
        obtain rfl : haveLock = false := by simpa using got
        have own : SleeperStep m s ({ s with sys := sys }.setPc t (.waiting g.e)) t :=
          .call inv on (.inr ⟨_, rfl⟩) done moved rfl fun u other => Function.update_of_ne other _ _
        refine own.advance inv (.setPc inv.list pc sys rfl) pc ⟨rfl, rfl, rfl⟩ ?_ ⟨?_, noLock, ?_⟩ ?_
        · simp [PcInv]
        · rw [TimerState.setPc_self]
          exact mutex
        · rw [SleepCall, TimerState.setPc_self]
          exact ⟨⟨k, auto⟩, .inl ⟨_, rest, after, rfl, cond, by simp, by simp⟩⟩
        · refine own.attended inv (by rw [pc]; rfl) (by simp [PastWait, pc]) fun _ parked => ?_
          -- The thread is on its way to sleep already.
          obtain ⟨e, listed, ⟨_, at_⟩ | ⟨at_, _⟩⟩ := parked
          · simp at at_
          · obtain rfl : g.e = e := by simpa using at_
            refine ⟨g.e, ?_, .inl ⟨false, pc⟩⟩
            have lists : sys.lists = s.sys.lists := by rw [equal]; rfl
            exact came_same listed lists
  · exact inv.fault fault

theorem SleepInv.leaving {e : EventId} {haveLock : Bool} (inv : SleepInv m s xs)
    (pc : s.pc t = .leaving e haveLock) (stepped : s.nextStep m f w t n now ctl = some s') :
    SleepInv m s' xs := by
  simp only [TimerState.nextStep, pc] at stepped
  cases result : s.sys.result e with
  | none => simp [result] at stepped
  | some rv =>
      simp only [result, Option.some.injEq] at stepped
      subst stepped
      cases haveLock with
      | true =>
          refine inv.setPc pc ⟨rfl, rfl, rfl⟩ rfl rfl ?_ ?_ fun _ => .of_master (t := t) ?_
          · simp [PcInv]
          · simp [SleepCall]
          · simp [SleepPc.holdsMutex]
      | false =>
          refine inv.setPc pc ⟨rfl, rfl, rfl⟩ rfl rfl ?_ ?_ fun _ => .of_past (t := t) ?_
          · simp [PcInv]
          · simp [SleepCall]
          · simp [PastWait]

/-! ## The master -/

private theorem SleepInv.masterGoes {before next : SleepPc} (inv : SleepInv m s xs)
    (goes : Advance s s' t next) (same : s'.sys = s.sys) (pc : s.pc t = before)
    (path : SleepPc.Goes before next) (mutex : next.holdsMutex = before.holdsMutex)
    (master : before.holdsMutex = true) (known : PcInv s' xs t)
    (call : ∀ e haveLock value, next ≠ .decided e haveLock value) : SleepInv m s' xs := by
  refine inv.advance goes same pc path mutex known ?_ fun _ => .of_master (t := t) ?_
  · rw [SleepCall, goes.own]
    cases next <;> simp_all [SleepPc.holdsMutex]
  · rw [goes.own, mutex, master]

private theorem SleepInv.master_mem (inv : SleepInv m s xs) (pc : s.pc t = .master)
    (linked : s.timers.next t ≠ .mark) : t ∈ xs := by
  refine (inv.list.member t).mpr ⟨by rw [pc]; rfl, linked, fun u ts two2 unlinked => ?_⟩
  have same : u = t := inv.master_unique (by rw [unlinked]; rfl) (by rw [pc]; rfl)
  rw [same, pc] at unlinked
  cases unlinked

theorem SleepInv.master (inv : SleepInv m s xs) (pc : s.pc t = .master)
    (stepped : s.nextStep m f w t n now ctl = some s') : SleepInv m s' xs := by
  simp only [TimerState.nextStep, pc] at stepped
  split at stepped
  · cases stepped
    refine inv.masterGoes (.setPc inv.list pc s.sys rfl) rfl pc ⟨rfl, rfl, rfl⟩ rfl rfl ?_ (by simp)
    simp [PcInv]
  · next waits =>
    cases stepped
    refine inv.masterGoes (.setPc inv.list pc s.sys rfl) rfl pc ⟨rfl, rfl, rfl⟩ rfl rfl ?_ (by simp)
    have linked : s.timers.next t ≠ .mark := by
      intro mark
      simp [TimerState.waitingDone, mark] at waits
    rw [PcInv, TimerState.setPc_self]
    exact inv.master_mem pc linked

theorem SleepInv.reprogramming {ts : Timespec} (inv : SleepInv m s xs)
    (pc : s.pc t = .reprogramming ts) (stepped : s.nextStep m f w t n now ctl = some s') :
    SleepInv m s' xs := by
  have known := inv.list.pc t
  simp only [PcInv, pc] at known
  obtain ⟨x, ys, rfl⟩ := List.exists_cons_of_ne_nil (List.ne_nil_of_mem known)
  have first : s.timers.first = .node x := inv.list.valid.first
  have goes : ∀ next, SleepPc.Goes (.reprogramming ts) next → next.locks = false →
      next.holdsMutex = true → (∀ e haveLock value, next ≠ .decided e haveLock value) →
      PcInv (s.setPc t next) (x :: ys) t → SleepInv m (s.setPc t next) (x :: ys) := by
    intro next path locks mutex call known
    exact inv.masterGoes (.setPc inv.list pc s.sys locks) rfl pc path mutex rfl known call
  simp only [TimerState.nextStep, pc, TimerState.timerfdReprogramValid, first] at stepped
  split at stepped
  · split at stepped
    · next none => simp at none
    · cases stepped
      exact goes _ ⟨rfl, rfl, rfl⟩ rfl rfl (by simp) (by simp [PcInv])
    · cases stepped
      exact goes _ ⟨rfl, rfl, rfl⟩ rfl rfl (by simp) (by simp [PcInv])
  · cases stepped

theorem SleepInv.polling (inv : SleepInv m s xs) (on : s.sys.mode w = .thread t)
    (running : s.sys.fault = none) (pc : s.pc t = .polling)
    (stepped : s.nextStep m f w t n now ctl = some s') : SleepInv m s' xs := by
  simp only [TimerState.nextStep, pc] at stepped
  obtain ⟨sys, done, moved, rfl⟩ | ⟨fault, _, rfl⟩ := State.call_step stepped running
  · refine inv.call on done moved rfl (.setPc inv.list pc sys rfl) rfl pc ⟨rfl, rfl, rfl⟩ rfl ?_ ?_
      fun _ => .of_master (t := t) ?_
    · simp [PcInv]
    · simp [SleepCall]
    · simp [SleepPc.holdsMutex]
  · exact inv.fault fault

theorem SleepInv.fdWaiting {e : EventId} (inv : SleepInv m s xs) (pc : s.pc t = .fdWaiting e)
    (stepped : s.nextStep m f w t n now ctl = some s') : SleepInv m s' xs := by
  simp only [TimerState.nextStep, pc] at stepped
  have quits : ∀ rv, SleepInv m (s.setPc t (.quit true rv)) xs := by
    intro rv
    refine inv.masterGoes (.setPc inv.list pc s.sys rfl) rfl pc ⟨rfl, rfl, rfl⟩ rfl rfl ?_ (by simp)
    simp [PcInv]
  cases result : s.sys.result e with
  | none => simp [result] at stepped
  | some rv =>
      cases rv with
      | ok =>
          simp only [result, Option.some.injEq] at stepped
          subst stepped
          refine inv.masterGoes (.setPc inv.list pc s.sys rfl) rfl pc ⟨rfl, rfl, rfl⟩ rfl rfl ?_ (by simp)
          simp [PcInv]
      | _ =>
          simp only [result, Option.some.injEq] at stepped
          subst stepped
          exact quits _

theorem SleepInv.expiring (inv : SleepInv m s xs) (pc : s.pc t = .expiring)
    (stepped : s.nextStep m f w t n now ctl = some s') : SleepInv m s' xs := by
  simp only [TimerState.nextStep, pc] at stepped
  split at stepped
  · next free =>
    cases stepped
    have goes := Advance.locks (t := t) free
      (show SleepPc.locks (.expire now s.timers.first) = true from rfl)
    refine inv.masterGoes goes rfl pc ⟨rfl, rfl, rfl⟩ rfl rfl ?_ (by simp)
    rw [PcInv, goes.own]
    exact inv.list.valid.first
  · cases stepped

theorem SleepInv.expire {ts : Timespec} {two : Pointer Tid} (inv : SleepInv m s xs)
    (pc : s.pc t = .expire ts two) (stepped : s.nextStep m f w t n now ctl = some s') :
    ∃ ys, SleepInv m s' ys := by
  have known := inv.list.pc t
  simp only [PcInv, pc] at known
  subst known
  have unlocks : SleepInv m { s.setPc t .master with timerLock := none } xs := by
    refine inv.masterGoes (.unlocks inv.list pc s.sys rfl rfl) rfl pc ⟨rfl, rfl, rfl⟩ rfl rfl ?_ (by simp)
    simp [PcInv, TimerState.setPc]
  simp only [TimerState.nextStep, pc] at stepped
  cases xs with
  | nil =>
      simp only [toFirst, Option.some.injEq] at stepped
      exact ⟨_, stepped ▸ unlocks⟩
  | cons x ys =>
      have valid : s.timers.Represents ([] ++ x :: ys) := inv.list.valid
      obtain ⟨_, forth, own⟩ := valid.at_node
      simp only [toFirst, own, if_false] at stepped
      split at stepped
      · cases stepped
        exact ⟨_, unlocks⟩
      · cases stepped
        have alone : ∀ u ts, s.pc u ≠ .reprogramming ts := by
          intro u ts' at_
          have same : u = t := inv.master_unique (by rw [at_]; rfl) (by rw [pc]; rfl)
          rw [same, pc] at at_
          cases at_
        have here : SleeperStep m s { s.setPc t (.unlinked ts x (s.timers.next x)) with
            timers := s.timers.remove x } t :=
          .plain inv rfl fun u other => Function.update_of_ne other _ _
        refine ⟨ys, here.inv inv (inv.list.unlink pc alone forth) ⟨?_, (inv.sleeper t).noLock, ?_⟩ ?_⟩
        · have held := (inv.sleeper t).held
          rw [pc] at held
          rw [TimerState.setPc_self]
          exact held
        · rw [SleepCall, TimerState.setPc_self]
          trivial
        · exact .of_master (t := t) (by rw [TimerState.setPc_self]; rfl)

theorem SleepInv.unlinked {ts : Timespec} {two : Tid} {two2 : Pointer Tid} (inv : SleepInv m s xs)
    (pc : s.pc t = .unlinked ts two two2) (stepped : s.nextStep m f w t n now ctl = some s') :
    SleepInv m s' xs := by
  simp only [TimerState.nextStep, pc, Option.some.injEq] at stepped
  subst stepped
  have here : SleeperStep m s { s.setPc t (.marked ts two two2) with
      timers := s.timers.store (.next two) .mark } t :=
    .plain inv rfl fun u other => Function.update_of_ne other _ _
  refine here.inv inv (inv.list.mark pc) ⟨?_, (inv.sleeper t).noLock, ?_⟩ ?_
  · have held := (inv.sleeper t).held
    rw [pc] at held
    rw [TimerState.setPc_self]
    exact held
  · rw [SleepCall, TimerState.setPc_self]
    trivial
  · exact .of_master (t := t) (by rw [TimerState.setPc_self]; rfl)

theorem SleepInv.marked {ts : Timespec} {two : Tid} {two2 : Pointer Tid} (inv : SleepInv m s xs)
    (on : s.sys.mode w = .thread t) (running : s.sys.fault = none)
    (pc : s.pc t = .marked ts two two2) (stepped : s.nextStep m f w t n now ctl = some s') :
    SleepInv m s' xs := by
  have known := inv.list.pc t
  simp only [PcInv, pc] at known
  simp only [TimerState.nextStep, pc] at stepped
  obtain ⟨sys, done, moved, rfl⟩ | ⟨fault, _, rfl⟩ := State.call_step stepped running
  · refine inv.call on done moved rfl (.setPc inv.list pc sys rfl) rfl pc ⟨rfl, rfl, rfl⟩ rfl ?_ ?_
      fun _ => .of_master (t := t) ?_
    · rw [PcInv, TimerState.setPc_self]
      exact known
    · simp [SleepCall]
    · simp [SleepPc.holdsMutex]
  · exact inv.fault fault

/-! ## The end -/

theorem SleepInv.quit {haveLock : Bool} {rv : Rv} (inv : SleepInv m s xs)
    (on : s.sys.mode w = .thread t) (running : s.sys.fault = none) (pc : s.pc t = .quit haveLock rv)
    (stepped : s.nextStep m f w t n now ctl = some s') : SleepInv m s' xs := by
  cases haveLock with
  | false =>
      simp only [TimerState.nextStep, pc, Option.some.injEq] at stepped
      subst stepped
      refine inv.setPc pc ⟨rfl, rfl, rfl⟩ rfl rfl ?_ ?_ fun _ => .of_past (t := t) ?_
      · simp [PcInv]
      · simp [SleepCall]
      · simp [PastWait]
  | true =>
      simp only [TimerState.nextStep, pc] at stepped
      obtain ⟨sys, done, moved, rfl⟩ | ⟨fault, _, rfl⟩ := State.call_step stepped running
      · have own : SleeperStep m s ({ s with sys := sys }.setPc t (.removing rv)) t :=
          .call inv on (.inl ⟨_, rfl⟩) done moved rfl fun u other => Function.update_of_ne other _ _
        have unlocked : sys.held t m = false ∧ sys.frames t = s.sys.frames t := by
          cases act_ok done with
          | user _ u _ _ on' _ effect =>
              obtain rfl := Mode.thread.inj (on'.symm.trans on)
              refine ⟨?_, ?_⟩
              · cases effect
                simp
              · rcases effect.frames with frames | ⟨_, _, _, begins, _⟩
                · exact frames
                · cases begins
        refine own.advance inv (.setPc inv.list pc sys rfl) pc ⟨rfl, rfl, rfl⟩ ?_ ⟨?_, ?_, ?_⟩ ?_
        · simp [PcInv]
        · rw [TimerState.setPc_self]
          exact unlocked.1
        · show ∀ g ∈ sys.frames t, g.call ≠ .mutex m
          rw [unlocked.2]
          exact (inv.sleeper t).noLock
        · simp [SleepCall]
        · exact .of_past (t := t) (by simp [PastWait])
      · exact inv.fault fault

theorem SleepInv.removing {rv : Rv} (inv : SleepInv m s xs) (pc : s.pc t = .removing rv)
    (stepped : s.nextStep m f w t n now ctl = some s') : ∃ ys, SleepInv m s' ys := by
  simp only [TimerState.nextStep, pc] at stepped
  split at stepped
  · next free =>
    cases stepped
    obtain ⟨ys, list⟩ := inv.list.removeOwn pc free
    have own : SleeperStep m s { s.setPc t (.removed rv) with
        timerLock := some t
        timers := if s.timers.next t = .mark then s.timers else s.timers.remove t } t :=
      .plain inv rfl fun u other => Function.update_of_ne other _ _
    refine ⟨ys, own.inv inv list ⟨?_, (inv.sleeper t).noLock, ?_⟩ ?_⟩
    · have held := (inv.sleeper t).held
      rw [pc] at held
      rw [TimerState.setPc_self]
      exact held
    · rw [SleepCall, TimerState.setPc_self]
      trivial
    · exact .of_past (t := t) (by rw [PastWait, TimerState.setPc_self]; trivial)
  · cases stepped

private theorem act_wakeupAll {s s' : State} {k : Nat} (inv : SystemInv s)
    (done : s.act (.user w (.wakeupAll k)) = some (.ok s')) (e : EventId) :
    s'.el e ≠ some (.waiters (.user k)) := by
  cases act_ok done with
  | user _ u _ _ _ _ effect =>
      cases effect
      intro on
      have moved := (IntrusiveLists.movesTo_front EventList.immediate).foldl_el s.lists
        (s.events (.waiters (.user k))) e
      rw [State.el, tcWaitqWakeupAll_lists] at on
      rw [moved] at on
      split at on
      · cases on
      · next absent => exact absent (inv.lists.mem_events.mpr on)

theorem SleepInv.removed {rv : Rv} (inv : SleepInv m s xs) (on : s.sys.mode w = .thread t)
    (running : s.sys.fault = none) (pc : s.pc t = .removed rv)
    (stepped : s.nextStep m f w t n now ctl = some s') : SleepInv m s' xs := by
  simp only [TimerState.nextStep, pc, inv.list.valid.first] at stepped
  cases xs with
  | nil =>
      simp only [toFirst, Option.some.injEq] at stepped
      subst stepped
      have goes : Advance s { s.setPc t .outside with timerLock := none } t .outside :=
        .unlocks inv.list pc s.sys rfl rfl
      refine inv.advance goes rfl pc ⟨rfl, rfl, rfl⟩ rfl ?_ (.outside goes.own) fun _ => ?_
      · rw [PcInv, goes.own]
        trivial
      · exact fun some => absurd rfl some
  | cons x ys =>
      simp only [toFirst] at stepped
      obtain ⟨sys, done, moved, rfl⟩ | ⟨fault, _, rfl⟩ := State.call_step stepped running
      · have goes : Advance s { { s with sys := sys }.setPc t .outside with timerLock := none } t
            .outside := .unlocks inv.list pc sys rfl rfl
        refine inv.call on done moved rfl goes rfl pc ⟨rfl, rfl, rfl⟩ rfl ?_ (.outside goes.own)
          fun _ => .of_awake (t := x) (by simp) ?_
        · rw [PcInv, goes.own]
          trivial
        · -- The new first thread has been woken.
          rintro ⟨e, listed, _⟩
          exact act_wakeupAll inv.sys done e listed
      · exact inv.fault fault

/-! ## Whole runs -/

theorem SleepInv.nextStep (inv : SleepInv m s xs) (on : s.sys.mode w = .thread t)
    (running : s.sys.fault = none) (code : s.sys.inUserCode t = true)
    (stepped : s.nextStep m f w t n now ctl = some s') : ∃ ys, SleepInv m s' ys := by
  cases pc : s.pc t with
  | outside => simp [TimerState.nextStep, pc] at stepped
  | yielding e => exact ⟨xs, inv.yielding pc stepped⟩
  | inserting => exact ⟨xs, inv.inserting pc stepped⟩
  | searching cur prev => exact inv.searching pc stepped
  | reprogram => exact ⟨xs, inv.reprogram pc stepped⟩
  | inserted => exact ⟨xs, inv.inserted on running pc stepped⟩
  | waiting e => exact ⟨xs, inv.waiting code pc stepped⟩
  | trying e => exact ⟨xs, inv.trying on running pc stepped⟩
  | decided e haveLock value => exact ⟨xs, inv.decided on running pc stepped⟩
  | leaving e haveLock => exact ⟨xs, inv.leaving pc stepped⟩
  | master => exact ⟨xs, inv.master pc stepped⟩
  | reprogramming ts => exact ⟨xs, inv.reprogramming pc stepped⟩
  | polling => exact ⟨xs, inv.polling on running pc stepped⟩
  | fdWaiting e => exact ⟨xs, inv.fdWaiting pc stepped⟩
  | expiring => exact ⟨xs, inv.expiring pc stepped⟩
  | expire ts two => exact inv.expire pc stepped
  | unlinked ts two two2 => exact ⟨xs, inv.unlinked pc stepped⟩
  | marked ts two two2 => exact ⟨xs, inv.marked on running pc stepped⟩
  | quit haveLock rv => exact ⟨xs, inv.quit on running pc stepped⟩
  | removing rv => exact inv.removing pc stepped
  | removed rv => exact ⟨xs, inv.removed on running pc stepped⟩

theorem SleepInv.begin {absEnd : Timespec} (inv : SleepInv m s xs) (on : s.sys.mode w = .thread t)
    (running : s.sys.fault = none) (pc : s.pc t = .outside)
    (stepped : s.tcSleep w t n absEnd = some s') : SleepInv m s' xs := by
  simp only [TimerState.tcSleep] at stepped
  obtain ⟨sys, done, moved, rfl⟩ | ⟨fault, _, rfl⟩ := State.call_step stepped running
  · obtain ⟨held, noLock⟩ := inv.call_mutex (t := t) done rfl
    have own : SleeperStep m s { { s with sys := sys }.setPc t (.yielding (.auto t n)) with
        absEnd := Function.update s.absEnd t absEnd
        timers := s.timers.store (.next t) .mark } t :=
      .call inv on (.inl ⟨_, rfl⟩) done moved rfl fun u other => Function.update_of_ne other _ _
    refine own.inv inv (inv.list.begin pc sys) ⟨?_, noLock, ?_⟩ ?_
    · have before := (inv.sleeper t).held
      rw [pc] at before
      rw [TimerState.setPc_self]
      exact held.trans before
    · rw [SleepCall, TimerState.setPc_self]
      trivial
    · exact own.attended_running inv pc rfl (by simp [PastWait, pc]) (TimerState.setPc_self ..)
        (by simp) (by simp)
  · exact inv.fault fault

theorem SleepInv.step {a : TimerAction} (inv : SleepInv m s xs)
    (stepped : s.step m f a = some s') : ∃ ys, SleepInv m s' ys := by
  cases a with
  | system a =>
      simp only [TimerState.step] at stepped
      split at stepped
      · next allowed =>
        obtain ⟨sys, moved, rfl⟩ := Option.map_eq_some_iff.mp stepped
        rcases step_act moved with done | ⟨fault, _, rfl⟩
        · exact ⟨xs, inv.system allowed moved done⟩
        · exact ⟨xs, inv.fault fault⟩
      · cases stepped
  | begin w n absEnd =>
      simp only [TimerState.step] at stepped
      split at stepped
      · next t on =>
        split at stepped
        · next ready => exact ⟨xs, inv.begin on ready.1 ready.2.2 stepped⟩
        · cases stepped
      · cases stepped
  | next w n now ctl =>
      simp only [TimerState.step] at stepped
      split at stepped
      · next t on =>
        split at stepped
        · next ready => exact inv.nextStep on ready.1 ready.2.1 stepped
        · cases stepped
      · cases stepped

end Sleep

theorem SleepInv.initial (m : MutexId) (workers : Nat) (domainOf : WorkerId → DomainId) :
    SleepInv m (.initial workers domainOf) [] where
  list := {
    valid := ⟨rfl, List.nodup_nil⟩
    sorted := .nil
    numbered := by simp
    member := by simp [TimerState.initial, SleepPc.inside]
    lock := by simp [TimerState.initial, SleepPc.locks]
    pc := fun t => by simp [PcInv, TimerState.initial]
    sound := rfl }
  sys := SystemInv.initial workers domainOf
  owner := OwnerInv.initial workers domainOf m
  sleeper t := ⟨rfl, by simp [TimerState.initial, State.initial], .outside rfl⟩
  attended some := absurd rfl some

theorem SleepInv.run {m : MutexId} {f : FdId} {workers : Nat} {domainOf : WorkerId → DomainId}
    {s : TimerState} (reached : TimerReachable m f workers domainOf s) : ∃ xs, SleepInv m s xs :=
  reached.invariant (fun s => ∃ xs, SleepInv m s xs) ⟨[], .initial m workers domainOf⟩
    fun ⟨_, inv⟩ _ stepped => inv.step stepped

end Libtcr
