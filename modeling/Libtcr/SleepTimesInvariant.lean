import Libtcr.SleepDeadline
import Libtcr.TimerListPreservation

/-! Whose deadline has passed: a thread leaves `tc_sleep` with `RV_OK`, or is taken off
`timer_list` by the master, only after somebody has read a time that is not before its deadline. -/

set_option autoImplicit false

namespace Libtcr

open State HeadedList

def TimerState.Due (s : TimerState) (clock : Timespec) (t : Tid) : Prop :=
  (s.absEnd t).total ≤ clock.total

def Past (clock ts : Timespec) : Prop := ts.valid = true ∧ ts.total ≤ clock.total

/-- The timer waiter has been inserted, and the thread has not come to `quit`. -/
def SleepPc.listed : SleepPc → Bool
  | .outside | .yielding _ | .inserting | .searching _ _ | .quit _ _ | .removing _ | .removed _ =>
    false
  | _ => true

/-- What thread `t` knows about the time where it is. -/
def DuePc (s : TimerState) (clock : Timespec) (t : Tid) : SleepPc → Prop
  | .waiting e => s.sys.result e ≠ some .ok
  | .decided _ haveLock value => haveLock = false → value = true → s.Due clock t
  | .leaving _ haveLock => haveLock = false → s.Due clock t
  | .quit _ rv | .removing rv | .removed rv => rv = .ok → s.Due clock t
  | .reprogramming ts | .expire ts _ | .marked ts _ _ => Past clock ts
  | .unlinked ts two _ => Past clock ts ∧ (s.pc two).inside = true ∧ s.Due clock two
  | _ => True

structure DueInv (s : TimerState) (clock : Timespec) : Prop where
  marked : ∀ t, (s.pc t).listed = true → s.timers.next t = .mark → s.Due clock t
  known : ∀ t, DuePc s clock t (s.pc t)

/-! ## Steps -/

section Steps

variable {s s' : TimerState} {clock clock' : Timespec} {t : Tid} {before next : SleepPc}

theorem DuePc.imp (known : DuePc s clock t next) (after : clock.total ≤ clock'.total)
    (due : s.Due clock t → s'.Due clock' t)
    (result : ∀ e, next = .waiting e → s.sys.result e ≠ some .ok → s'.sys.result e ≠ some .ok)
    (unlinked : ∀ ts two two2, next = .unlinked ts two two2 → (s.pc two).inside = true →
      (s'.pc two).inside = true ∧ (s.Due clock two → s'.Due clock' two)) :
    DuePc s' clock' t next := by
  have past : ∀ ts, Past clock ts → Past clock' ts := fun ts read => ⟨read.1, read.2.trans after⟩
  cases next with
  | waiting e => exact result e rfl known
  | decided e haveLock value => exact fun slave holds => due (known slave holds)
  | leaving e haveLock => exact fun slave => due (known slave)
  | quit haveLock rv => exact fun ok => due (known ok)
  | removing rv => exact fun ok => due (known ok)
  | removed rv => exact fun ok => due (known ok)
  | reprogramming ts => exact past ts known
  | expire ts two => exact past ts known
  | marked ts two two2 => exact past ts known
  | unlinked ts two two2 =>
      obtain ⟨inside, passed⟩ := unlinked ts two two2 rfl known.2.1
      exact ⟨past ts known.1, inside, passed known.2.2⟩
  | _ => trivial

theorem DueInv.later (inv : DueInv s clock) (after : clock.total ≤ clock'.total) :
    DueInv s clock' where
  marked u listed mark := (inv.marked u listed mark).trans after
  known u := (inv.known u).imp after (fun due => due.trans after) (fun _ _ waits => waits)
    fun _ _ _ _ inside => ⟨inside, fun due => due.trans after⟩

theorem DueInv.goes (inv : DueInv s clock) (pc : s'.pc = Function.update s.pc t next)
    (absEnd : s'.absEnd = s.absEnd)
    (results : ∀ u e, u ≠ t → s.pc u = .waiting e → s'.sys.result e = s.sys.result e)
    (marks : ∀ u, (s'.pc u).listed = true → s'.timers.next u = .mark →
      (s.pc u).listed = true ∧ s.timers.next u = .mark ∨ s.Due clock u)
    (stays : next.inside = true ∨ ∀ u ts two2, s.pc u ≠ .unlinked ts t two2)
    (mine : DuePc s' clock t next) : DueInv s' clock where
  marked u listed mark := by
    rw [TimerState.Due, absEnd]
    rcases marks u listed mark with ⟨before, marked⟩ | due
    · exact inv.marked u before marked
    · exact due
  known := by
    have due : ∀ v, s.Due clock v → s'.Due clock v := by
      intro v due
      rwa [TimerState.Due, absEnd]
    rw [pc]
    apply (Function.forall_update_iff s.pc fun u pc => DuePc s' clock u pc).mpr
    refine ⟨mine, fun u other => (inv.known u).imp le_rfl (due u) ?_ ?_⟩
    · intro e at_ waits
      rwa [results u e other at_]
    · intro ts two two2 at_ inside
      refine ⟨?_, due two⟩
      rw [pc]
      by_cases own : two = t
      · subst own
        rw [Function.update_self]
        exact stays.resolve_right fun none => none u ts two2 at_
      · rwa [Function.update_of_ne own]

theorem DueInv.advance (inv : DueInv s clock) (pc : s'.pc = Function.update s.pc t next)
    (at_ : s.pc t = before) (absEnd : s'.absEnd = s.absEnd) (timers : s'.timers = s.timers)
    (results : ∀ u e, u ≠ t → s.pc u = .waiting e → s'.sys.result e = s.sys.result e)
    (listed : next.listed = true → before.listed = true) (inside : next.inside = true)
    (mine : DuePc s' clock t next) : DueInv s' clock := by
  refine inv.goes pc absEnd results (fun u here mark => .inl ⟨?_, timers ▸ mark⟩) (.inl inside) mine
  by_cases same : u = t
  · rw [same, at_]
    rw [pc, same, Function.update_self] at here
    exact listed here
  · rwa [pc, Function.update_of_ne same] at here

theorem DueInv.setPc (inv : DueInv s clock) (at_ : s.pc t = before)
    (listed : next.listed = true → before.listed = true) (inside : next.inside = true)
    (mine : DuePc (s.setPc t next) clock t next) : DueInv (s.setPc t next) clock :=
  inv.advance rfl at_ rfl rfl (fun _ _ _ _ => rfl) listed inside mine

end Steps

/-! ## The results of the waits -/

section Results

variable {m : MutexId} {s : TimerState} {xs : List Tid} {w : WorkerId} {t u : Tid} {e : EventId}
  {a : Action} {sys : State}

private theorem SleepInv.result_other (inv : SleepInv m s xs) (on : s.sys.mode w = .thread t)
    (by_ : (∃ op, a = .user w op) ∨ ∃ value, a = .condition w value)
    (done : s.sys.act a = some (.ok sys)) (other : u ≠ t) (pc : s.pc u = .waiting e) :
    sys.result e = s.sys.result e := by
  have call := (inv.sleeper u).call
  simp only [SleepCall, pc] at call
  obtain ⟨⟨n, rfl⟩, _⟩ := call
  exact ((act_callStep inv.sys done u).idle_other on other by_).1.2 _ rfl

/-- A wait of `tc_sleep` that is over before its condition was true has been interrupted. -/
theorem SleepInv.result_system (inv : SleepInv m s xs) (allowed : s.allows m a = true)
    (stepped : s.sys.step a = some sys) (done : s.sys.act a = some (.ok sys))
    (pc : s.pc t = .waiting e) (waits : s.sys.result e ≠ some .ok) : sys.result e ≠ some .ok := by
  have call := (inv.sleeper t).call
  simp only [SleepCall, pc] at call
  obtain ⟨⟨n, auto⟩, ⟨g, rest, frames, event, cond, first, holds⟩ | returned⟩ := call
  · cases act_callStep inv.sys done t with
    | idle _ _ calls _ =>
        rw [calls.2 e (by rw [auto, EventId.owner])]
        exact waits
    | entered w' h rest' _ _ _ _ _ result _ =>
        rw [result]
        exact waits
    | user w' op _ on _ _ =>
        have outside := (TimerState.allows_user allowed on).1
        simp [pc] at outside
    | moved w' h h' rest' _ _ _ _ _ _ _ _ _ result _ =>
        rw [result]
        exact waits
    | returned w' h rest' rv _ _ _ _ again _ back _ result _ _ =>
        obtain ⟨rfl, _⟩ := List.cons.inj (frames.symm.trans again)
        have interrupted : rv = .intr := by
          have back := back t cond
          generalize g.pc = p at *
          cases back with
          | atOnce => exact absurd rfl first
          | held => exact absurd rfl holds
          | interrupted => rfl
        simp [result, event, interrupted]
  · obtain ⟨rv, result⟩ := Option.ne_none_iff_exists'.mp returned
    rw [inv.sys.result_stays stepped auto result, ← result]
    exact waits

theorem InTest.result_none (test : InTest s t e) (inv : SystemInv s.sys) : s.sys.result e = none := by
  obtain ⟨g, rest, frames, rfl, _⟩ := test
  exact inv.result_none (t := t) (by simp [frames])

private theorem InTest.result_false (test : InTest s t e) (inv : SystemInv s.sys)
    (done : s.sys.act (.condition w false) = some (.ok sys)) : sys.result e = none := by
  have before := test.result_none inv
  obtain ⟨g, rest, frames, event, cond, pc⟩ := test
  have owner : g.e.owner = t := (inv.thread t).event_owner (by simp [State.view, frames])
  cases act_callStep inv done t with
  | idle _ _ calls _ => rw [calls.2 e (by rw [← event, owner]), before]
  | moved w' h h' rest' _ _ _ _ _ _ _ _ _ result _ => rw [result, before]
  | returned w' h rest' rv _ _ _ _ again _ back _ _ _ _ =>
      obtain ⟨rfl, _⟩ := List.cons.inj (frames.symm.trans again)
      have back := back t cond
      rw [pc] at back
      cases back

end Results

/-! ## The steps of `tc_sleep` -/

section Sleep

variable {m : MutexId} {f : FdId} {s s' : TimerState} {xs : List Tid} {w : WorkerId} {t : Tid}
  {n : Nat} {now clock : Timespec} {ctl : Bool} {e : EventId} {before next : SleepPc}

theorem DueInv.fault (inv : DueInv s clock) (fault : Fault) :
    DueInv { s with sys := { s.sys with fault := some fault } } clock :=
  ⟨inv.marked, inv.known⟩

theorem DueInv.crash (inv : DueInv s clock) : DueInv s.crash clock :=
  ⟨inv.marked, inv.known⟩

theorem DueInv.call {a : Action} {sys : State} (inv : DueInv s clock) (sleep : SleepInv m s xs)
    (on : s.sys.mode w = .thread t) (by_ : (∃ op, a = .user w op) ∨ ∃ value, a = .condition w value)
    (done : s.sys.act a = some (.ok sys)) (at_ : s.pc t = before)
    (listed : next.listed = true → before.listed = true) (inside : next.inside = true)
    (mine : DuePc ({ s with sys := sys }.setPc t next) clock t next) :
    DueInv ({ s with sys := sys }.setPc t next) clock :=
  inv.advance rfl at_ rfl rfl (fun _ _ other pc => sleep.result_other on by_ done other pc) listed
    inside mine

theorem DueInv.waitingDone (inv : DueInv s clock) (bound : ∀ u, (s.absEnd u).nsec ≤ 10 ^ 9)
    (listed : (s.pc t).listed = true)
    (read : s.timers.next t ≠ .mark → clock = now ∧ now.valid = true)
    (done : s.waitingDone t now = true) : s.Due clock t := by
  by_cases mark : s.timers.next t = .mark
  · exact inv.marked t listed mark
  · obtain ⟨rfl, valid⟩ := read mark
    have after : 0 ≤ compareTsTimes clock (s.absEnd t) := by
      simpa [TimerState.waitingDone, mark] using done
    exact total_le_of_compareTsTimes valid (bound t) after

theorem DueInv.yielding (inv : DueInv s clock) (pc : s.pc t = .yielding e)
    (stepped : s.nextStep m f w t n now ctl = some s') : DueInv s' clock := by
  simp only [TimerState.nextStep, pc] at stepped
  split at stepped
  · cases stepped
  · cases stepped
    exact inv.setPc pc (by simp [SleepPc.listed]) rfl trivial
  · next rv failed _ =>
    cases stepped
    exact inv.setPc pc (by simp [SleepPc.listed]) rfl fun ok => absurd ok failed

theorem DueInv.searching {cur prev : Pointer Tid} (inv : DueInv s clock) (sleep : SleepInv m s xs)
    (pc : s.pc t = .searching cur prev) (stepped : s.nextStep m f w t n now ctl = some s') :
    DueInv s' clock := by
  have known := sleep.list.pc t
  simp only [PcInv, pc] at known
  obtain ⟨ys, zs, rfl, _, _, rfl⟩ | ⟨ys, x, zs, rfl, _, rfl⟩ := sleep.searching_cases pc stepped
  · have fresh : t ∉ ys ++ zs := fun member => sleep.list.valid.next_ne_mark member known.1
    refine inv.goes rfl rfl (fun _ _ _ _ => rfl) (fun u listed mark => ?_) (.inl rfl) trivial
    by_cases same : u = t
    · -- It is on the list now.
      exact absurd (same ▸ mark) ((sleep.list.valid.insertAt fresh).next_ne_mark (by simp))
    · refine .inl ⟨?_, (sleep.list.valid.insertAt_mark same).mp mark⟩
      simpa [TimerState.insert, TimerState.setPc, same] using listed
  · exact inv.setPc pc (by simp [SleepPc.listed]) rfl trivial

theorem DueInv.inserted (inv : DueInv s clock) (sleep : SleepInv m s xs)
    (on : s.sys.mode w = .thread t) (running : s.sys.fault = none) (pc : s.pc t = .inserted)
    (stepped : s.nextStep m f w t n now ctl = some s') : DueInv s' clock := by
  simp only [TimerState.nextStep, pc] at stepped
  obtain ⟨sys, done, moved, rfl⟩ | ⟨fault, _, rfl⟩ := State.call_step stepped running
  · refine inv.call sleep on (.inl ⟨_, rfl⟩) done pc (fun _ => rfl) rfl ?_
    have begun : ∃ saved, sys.frames t = ⟨.cond t, .auto t n, .prep, saved⟩ :: s.sys.frames t := by
      cases act_ok done with
      | user _ u _ _ on' _ effect =>
          obtain rfl := Mode.thread.inj (on'.symm.trans on)
          cases effect
          exact ⟨_, by simp [pushFrame, tcEventInit]; rfl⟩
    obtain ⟨saved, frames⟩ := begun
    have none : sys.result (.auto t n) = none :=
      (sleep.sys.step moved).result_none (t := t) (f := ⟨.cond t, .auto t n, .prep, saved⟩)
        (by simp [frames])
    show sys.result (.auto t n) ≠ some .ok
    simp [none]
  · exact inv.fault fault

theorem DueInv.waiting (inv : DueInv s clock) (bound : ∀ u, (s.absEnd u).nsec ≤ 10 ^ 9)
    (read : s.readsClock t = true → clock = now ∧ now.valid = true) (pc : s.pc t = .waiting e)
    (stepped : s.nextStep m f w t n now ctl = some s') : DueInv s' clock := by
  have known := inv.known t
  rw [pc] at known
  simp only [TimerState.nextStep, pc] at stepped
  cases result : s.sys.result e with
  | some rv =>
      simp only [result, Option.some.injEq] at stepped
      subst stepped
      exact inv.setPc pc (by simp [SleepPc.listed]) rfl fun ok => absurd (ok ▸ result) known
  | none =>
      simp only [result] at stepped
      split at stepped
      · next finished =>
        cases stepped
        refine inv.setPc pc (fun _ => rfl) rfl fun _ _ => ?_
        refine inv.waitingDone bound (by rw [pc]; rfl) (fun linked => read ?_) finished
        simp [TimerState.readsClock, pc, result, linked]
      · cases stepped
        exact inv.setPc pc (fun _ => rfl) rfl trivial

theorem DueInv.decided {haveLock value : Bool} (inv : DueInv s clock) (sleep : SleepInv m s xs)
    (on : s.sys.mode w = .thread t) (running : s.sys.fault = none)
    (pc : s.pc t = .decided e haveLock value)
    (stepped : s.nextStep m f w t n now ctl = some s') : DueInv s' clock := by
  have known := inv.known t
  rw [pc] at known
  have call := (sleep.sleeper t).call
  simp only [SleepCall, pc] at call
  simp only [TimerState.nextStep, pc] at stepped
  obtain ⟨sys, done, moved, rfl⟩ | ⟨fault, _, rfl⟩ := State.call_step stepped running
  · refine inv.call sleep on (.inr ⟨_, rfl⟩) done pc (fun _ => rfl) ?_ ?_
    · cases value <;> rfl
    · cases value with
      | true => exact fun slave => known slave rfl
      | false =>
          show sys.result e ≠ some .ok
          simp [call.1.result_false sleep.sys done]
  · exact inv.fault fault

theorem DueInv.leaving {haveLock : Bool} (inv : DueInv s clock) (pc : s.pc t = .leaving e haveLock)
    (stepped : s.nextStep m f w t n now ctl = some s') : DueInv s' clock := by
  have known := inv.known t
  rw [pc] at known
  simp only [TimerState.nextStep, pc] at stepped
  split at stepped
  · cases stepped
  · next rv _ =>
    cases stepped
    cases haveLock with
    | true => exact inv.setPc pc (fun _ => rfl) rfl trivial
    | false => exact inv.setPc pc (fun _ => rfl) rfl fun _ => known rfl

theorem DueInv.master (inv : DueInv s clock) (bound : ∀ u, (s.absEnd u).nsec ≤ 10 ^ 9)
    (read : s.readsClock t = true → clock = now ∧ now.valid = true) (pc : s.pc t = .master)
    (stepped : s.nextStep m f w t n now ctl = some s') : DueInv s' clock := by
  have reads : s.timers.next t ≠ .mark → clock = now ∧ now.valid = true := by
    intro linked
    exact read (by simp [TimerState.readsClock, pc, linked])
  simp only [TimerState.nextStep, pc] at stepped
  split at stepped
  · next finished =>
    cases stepped
    exact inv.setPc pc (fun _ => rfl) rfl fun _ =>
      inv.waitingDone bound (by rw [pc]; rfl) reads finished
  · next waits =>
    cases stepped
    have linked : s.timers.next t ≠ .mark := by
      intro mark
      simp [TimerState.waitingDone, mark] at waits
    obtain ⟨rfl, valid⟩ := reads linked
    exact inv.setPc pc (fun _ => rfl) rfl ⟨valid, le_rfl⟩

theorem DueInv.fdWaiting (inv : DueInv s clock) (pc : s.pc t = .fdWaiting e)
    (stepped : s.nextStep m f w t n now ctl = some s') : DueInv s' clock := by
  simp only [TimerState.nextStep, pc] at stepped
  split at stepped
  · cases stepped
  · cases stepped
    exact inv.setPc pc (fun _ => rfl) rfl trivial
  · next rv failed _ =>
    cases stepped
    exact inv.setPc pc (fun _ => rfl) rfl fun ok => absurd ok failed

/-- The master takes those off the list whose deadline is not after the time that it has read. -/
theorem DueInv.expire {ts : Timespec} {two : Pointer Tid} (inv : DueInv s clock)
    (sleep : SleepInv m s xs) (bound : ∀ u, (s.absEnd u).nsec ≤ 10 ^ 9)
    (pc : s.pc t = .expire ts two) (stepped : s.nextStep m f w t n now ctl = some s') :
    DueInv s' clock := by
  have read := inv.known t
  rw [pc] at read
  have known := sleep.list.pc t
  simp only [PcInv, pc] at known
  subst known
  have unlocks : DueInv { s.setPc t .master with timerLock := none } clock :=
    inv.advance rfl pc rfl rfl (fun _ _ _ _ => rfl) (fun _ => rfl) rfl trivial
  simp only [TimerState.nextStep, pc] at stepped
  cases xs with
  | nil =>
      simp only [toFirst, Option.some.injEq] at stepped
      exact stepped ▸ unlocks
  | cons x ys =>
      have valid : s.timers.Represents ([] ++ x :: ys) := sleep.list.valid
      have inside : (s.pc x).inside = true := ((sleep.list.member x).mp (by simp)).1
      simp only [toFirst] at stepped
      split_ifs at stepped with early own
      · cases stepped
        exact unlocks
      · cases stepped
        exact inv.crash
      · cases stepped
        refine inv.goes rfl rfl (fun _ _ _ _ => rfl) (fun u listed mark => .inl ⟨?_, ?_⟩) (.inl rfl)
          ⟨read, ?_, ?_⟩
        · by_cases same : u = t
          · rw [same, pc]
            rfl
          · simpa [TimerState.setPc, same] using listed
        · exact (valid.remove_mark u).mp mark
        · by_cases same : x = t
          · simp [TimerState.setPc, same, SleepPc.inside]
          · simpa [TimerState.setPc, same] using inside
        · have after := total_le_of_compareTsTimes read.1 (bound x) (compareTsTimes_nonneg.mpr early)
          exact after.trans read.2

theorem DueInv.unlinked {ts : Timespec} {two : Tid} {two2 : Pointer Tid} (inv : DueInv s clock)
    (pc : s.pc t = .unlinked ts two two2) (stepped : s.nextStep m f w t n now ctl = some s') :
    DueInv s' clock := by
  have known := inv.known t
  rw [pc] at known
  simp only [TimerState.nextStep, pc, Option.some.injEq] at stepped
  subst stepped
  refine inv.goes rfl rfl (fun _ _ _ _ => rfl) (fun u listed mark => ?_) (.inl rfl) known.1
  by_cases here : u = two
  · exact .inr (here ▸ known.2.2)
  · refine .inl ⟨?_, by simpa [HeadedList.store, here] using mark⟩
    by_cases same : u = t
    · rw [same, pc]
      rfl
    · simpa [TimerState.setPc, same] using listed

theorem DueInv.quit {haveLock : Bool} {rv : Rv} (inv : DueInv s clock) (sleep : SleepInv m s xs)
    (on : s.sys.mode w = .thread t) (running : s.sys.fault = none) (pc : s.pc t = .quit haveLock rv)
    (stepped : s.nextStep m f w t n now ctl = some s') : DueInv s' clock := by
  have known := inv.known t
  rw [pc] at known
  cases haveLock with
  | false =>
      simp only [TimerState.nextStep, pc, Option.some.injEq] at stepped
      subst stepped
      exact inv.setPc pc (by simp [SleepPc.listed]) rfl known
  | true =>
      simp only [TimerState.nextStep, pc] at stepped
      obtain ⟨sys, done, _, rfl⟩ | ⟨fault, _, rfl⟩ := State.call_step stepped running
      · exact inv.call sleep on (.inl ⟨_, rfl⟩) done pc (by simp [SleepPc.listed]) rfl known
      · exact inv.fault fault

theorem DueInv.removing {rv : Rv} (inv : DueInv s clock) (sleep : SleepInv m s xs)
    (pc : s.pc t = .removing rv) (stepped : s.nextStep m f w t n now ctl = some s') :
    DueInv s' clock := by
  have known := inv.known t
  rw [pc] at known
  simp only [TimerState.nextStep, pc] at stepped
  split at stepped
  · next free =>
    cases stepped
    have linked := sleep.list.none_unlinked (t := t) (.inl free)
    refine inv.goes rfl rfl (fun _ _ _ _ => rfl) (fun u listed mark => .inl ?_)
      (.inr fun u ts two2 => linked u ts t two2) known
    have other : u ≠ t := by
      rintro rfl
      simp [TimerState.setPc, SleepPc.listed] at listed
    refine ⟨by simpa [TimerState.setPc, other] using listed, ?_⟩
    by_cases own : s.timers.next t = .mark
    · simpa [own] using mark
    · have member : t ∈ xs := (sleep.list.member t).mpr
        ⟨by rw [pc]; rfl, own, fun u ts two2 => linked u ts t two2⟩
      obtain ⟨ys, zs, rfl⟩ := List.append_of_mem member
      simp only [own, if_false] at mark
      exact (sleep.list.valid.remove_mark u).mp mark
  · cases stepped

theorem DueInv.removed {rv : Rv} (inv : DueInv s clock) (sleep : SleepInv m s xs)
    (on : s.sys.mode w = .thread t) (running : s.sys.fault = none) (pc : s.pc t = .removed rv)
    (stepped : s.nextStep m f w t n now ctl = some s') : DueInv s' clock := by
  have linked := sleep.list.none_unlinked
    (.inr (by simp [pc, SleepPc.locks, SleepPc.isUnlinked] : _ ∧ (s.pc t).isUnlinked = false))
  have leaves : ∀ s' : TimerState, s'.pc = Function.update s.pc t .outside → s'.absEnd = s.absEnd →
      s'.timers = s.timers →
      (∀ u e, u ≠ t → s.pc u = .waiting e → s'.sys.result e = s.sys.result e) → DueInv s' clock := by
    intro s' gone absEnd timers results
    refine inv.goes gone absEnd results (fun u listed mark => .inl ⟨?_, timers ▸ mark⟩)
      (.inr fun u ts two2 => linked u ts t two2) trivial
    have other : u ≠ t := by
      rintro rfl
      simp [gone, SleepPc.listed] at listed
    rwa [gone, Function.update_of_ne other] at listed
  simp only [TimerState.nextStep, pc] at stepped
  split at stepped
  · obtain ⟨sys, done, _, rfl⟩ | ⟨fault, _, rfl⟩ := State.call_step stepped running
    · exact leaves _ rfl rfl rfl fun _ _ other at_ =>
        sleep.result_other on (.inl ⟨_, rfl⟩) done other at_
    · exact inv.fault fault
  · cases stepped
    exact leaves _ rfl rfl rfl fun _ _ _ _ => rfl
  · cases stepped
    exact inv.crash

theorem DueInv.nextStep (inv : DueInv s clock) (sleep : SleepInv m s xs)
    (bound : ∀ u, (s.absEnd u).nsec ≤ 10 ^ 9)
    (read : s.readsClock t = true → clock = now ∧ now.valid = true)
    (on : s.sys.mode w = .thread t) (running : s.sys.fault = none)
    (stepped : s.nextStep m f w t n now ctl = some s') : DueInv s' clock := by
  have known := inv.known t
  cases pc : s.pc t with
  | outside => simp [TimerState.nextStep, pc] at stepped
  | yielding e => exact inv.yielding pc stepped
  | inserting =>
      simp only [TimerState.nextStep, pc] at stepped
      split at stepped
      · cases stepped
        exact inv.advance rfl pc rfl rfl (fun _ _ _ _ => rfl) (by simp [SleepPc.listed]) rfl trivial
      · cases stepped
  | searching cur prev => exact inv.searching sleep pc stepped
  | reprogram =>
      simp only [TimerState.nextStep, pc] at stepped
      split at stepped
      · cases stepped
        exact inv.crash
      · cases stepped
        exact inv.advance rfl pc rfl rfl (fun _ _ _ _ => rfl) (fun _ => rfl) rfl trivial
  | inserted => exact inv.inserted sleep on running pc stepped
  | waiting e => exact inv.waiting bound read pc stepped
  | trying e =>
      simp only [TimerState.nextStep, pc] at stepped
      generalize decide (s.sys.owner m = none) = got at stepped
      obtain ⟨sys, done, _, rfl⟩ | ⟨fault, _, rfl⟩ := State.call_step stepped running
      · exact inv.call sleep on (.inl ⟨_, rfl⟩) done pc (fun _ => rfl) rfl
          fun slave master => by simp [slave] at master
      · exact inv.fault fault
  | decided e haveLock value => exact inv.decided sleep on running pc stepped
  | leaving e haveLock => exact inv.leaving pc stepped
  | master => exact inv.master bound read pc stepped
  | reprogramming ts =>
      simp only [TimerState.nextStep, pc] at stepped
      split at stepped
      · split at stepped
        · cases stepped
          exact inv.crash
        · cases stepped
          exact inv.setPc pc (fun _ => rfl) rfl trivial
        · cases stepped
          exact inv.setPc pc (fun _ => rfl) rfl trivial
      · cases stepped
  | polling =>
      simp only [TimerState.nextStep, pc] at stepped
      obtain ⟨sys, done, _, rfl⟩ | ⟨fault, _, rfl⟩ := State.call_step stepped running
      · exact inv.call sleep on (.inl ⟨_, rfl⟩) done pc (fun _ => rfl) rfl trivial
      · exact inv.fault fault
  | fdWaiting e => exact inv.fdWaiting pc stepped
  | expiring =>
      simp only [TimerState.nextStep, pc] at stepped
      split at stepped
      · next free =>
        cases stepped
        obtain ⟨rfl, valid⟩ := read (by simp [TimerState.readsClock, pc, free])
        exact inv.advance rfl pc rfl rfl (fun _ _ _ _ => rfl) (fun _ => rfl) rfl ⟨valid, le_rfl⟩
      · cases stepped
  | expire ts two => exact inv.expire sleep bound pc stepped
  | unlinked ts two two2 => exact inv.unlinked pc stepped
  | marked ts two two2 =>
      rw [pc] at known
      simp only [TimerState.nextStep, pc] at stepped
      obtain ⟨sys, done, _, rfl⟩ | ⟨fault, _, rfl⟩ := State.call_step stepped running
      · exact inv.call sleep on (.inl ⟨_, rfl⟩) done pc (fun _ => rfl) rfl known
      · exact inv.fault fault
  | quit haveLock rv => exact inv.quit sleep on running pc stepped
  | removing rv => exact inv.removing sleep pc stepped
  | removed rv => exact inv.removed sleep on running pc stepped

theorem DueInv.begin {absEnd : Timespec} (inv : DueInv s clock) (sleep : SleepInv m s xs)
    (on : s.sys.mode w = .thread t) (running : s.sys.fault = none) (pc : s.pc t = .outside)
    (stepped : s.tcSleep w t n absEnd = some s') : DueInv s' clock := by
  simp only [TimerState.tcSleep] at stepped
  obtain ⟨sys, done, _, rfl⟩ | ⟨fault, _, rfl⟩ := State.call_step stepped running
  · constructor
    · intro u listed mark
      have other : u ≠ t := by
        rintro rfl
        simp [TimerState.setPc, SleepPc.listed] at listed
      simp only [TimerState.setPc, Function.update_of_ne other] at listed
      simp only [HeadedList.store, Function.update_of_ne other] at mark
      simpa [TimerState.Due, other] using inv.marked u listed mark
    · intro u
      by_cases same : u = t
      · rw [same, TimerState.setPc_self]
        trivial
      · have here : (Function.update s.pc t (.yielding (.auto t n))) u = s.pc u :=
          Function.update_of_ne same _ _
        simp only [TimerState.setPc, here]
        refine (inv.known u).imp le_rfl ?_ ?_ ?_
        · simp [TimerState.Due, same]
        · intro e at_ waits
          rwa [sleep.result_other on (.inl ⟨_, rfl⟩) done same at_]
        · intro ts two two2 _ inside
          have other : two ≠ t := by
            rintro rfl
            simp [pc, SleepPc.inside] at inside
          simpa [TimerState.Due, TimerState.setPc, other] using inside
  · exact inv.fault fault

theorem DueInv.system {a : Action} {sys : State} (inv : DueInv s clock) (sleep : SleepInv m s xs)
    (allowed : s.allows m a = true) (stepped : s.sys.step a = some sys) :
    DueInv { s with sys := sys } clock := by
  rcases step_act stepped with done | ⟨fault, _, rfl⟩
  · refine ⟨inv.marked, fun u => ?_⟩
    refine (inv.known u).imp le_rfl id ?_ fun _ _ _ _ inside => ⟨inside, id⟩
    intro e at_ waits
    exact sleep.result_system allowed stepped done at_ waits
  · exact inv.fault fault

end Sleep

end Libtcr
