import Libtcr.TimerListPreservation

/-! What holds of the sleepers of a domain in every reachable state: `timer_list` is in order,
and somebody looks after the timer. -/

set_option autoImplicit false

namespace Libtcr

open State HeadedList

def TimerState.Reprograms (s : TimerState) (t : Tid) : Prop :=
  s.pc t = .reprogram ∧ s.timers.first = .node t ∨ ∃ ts, s.pc t = .reprogramming ts

/-- `timer_list` is sorted, and the timer waiters on it are those of the threads inside
`tc_sleep` that do not hold `NOT_ON_TIMERLIST`. Nothing that is not on the list is followed, and
`timerfd_reprogram_valid` finds somebody on it. -/
theorem timer_list_in_order {m : MutexId} {f : FdId} {workers : Nat}
    {domainOf : WorkerId → DomainId} {s : TimerState} (reached : TimerReachable m f workers domainOf s) :
    (s.timerLock = none → ∃ xs, s.timers.Represents xs ∧ xs.Pairwise s.Before ∧
      (∀ t, (s.pc t).inside = true → (t ∈ xs ↔ s.timers.next t ≠ .mark)) ∧
      ∀ t, s.pc t = .outside → t ∉ xs) ∧
    (∀ t, s.Reprograms t → ∃ x, s.timers.first = .node x) ∧ s.crashed = false := by
  obtain ⟨xs, inv⟩ := SleepInv.run reached
  refine ⟨fun free => ⟨xs, inv.list.valid, inv.list.sorted, fun t inside => ?_, fun t outside member => ?_⟩,
    fun t reprograms => ?_, inv.list.sound⟩
  · rw [inv.list.member]
    exact ⟨fun linked => linked.2.1, fun linked =>
      ⟨inside, linked, fun u ts => inv.list.none_unlinked (t := t) (.inl free) u ts t⟩⟩
  · have inside := ((inv.list.member t).mp member).1
    simp [outside, SleepPc.inside] at inside
  · rcases reprograms with ⟨_, first⟩ | ⟨ts, pc⟩
    · exact ⟨t, first⟩
    · have known := inv.list.pc t
      simp only [PcInv, pc] at known
      obtain ⟨x, ys, rfl⟩ := List.exists_cons_of_ne_nil (List.ne_nil_of_mem known)
      exact ⟨x, inv.list.valid.first⟩

def yields (w : WorkerId) : List TimerAction :=
  [.system (.advance w), .system (.advance w), .system (.leave w), .system (.runImmediate w .any),
    .system (.enter w), .system (.advance w)]

def nexts (w : WorkerId) (n : Nat) : TimerAction := .next w n ⟨0, 0⟩ true

/-- Thread 0 becomes the master and thread 1 goes to sleep; then the time of thread 0 comes. -/
def masterQuits : List TimerAction :=
  .begin 0 0 ⟨10, 0⟩ :: yields 0 ++ [nexts 0 0, nexts 0 0, nexts 0 0, nexts 0 0, nexts 0 1,
    .system (.advance 0), nexts 0 0, nexts 0 0, nexts 0 0, .system (.advance 0), nexts 0 0] ++
  .begin 1 0 ⟨15, 0⟩ :: yields 1 ++ [nexts 1 0, nexts 1 0, nexts 1 0, nexts 1 0, nexts 1 0,
    nexts 1 1, .system (.advance 1), nexts 1 0, nexts 1 0, nexts 1 0, .system (.advance 1)] ++
  [.next 0 0 ⟨20, 0⟩ true, nexts 0 0]

set_option maxRecDepth 20000 in
theorem timer_list_in_order_two : ∃ s, TimerReachable 0 0 2 (fun _ => 0) s ∧
    s.timerLock = none ∧ s.timers.first = .node 0 ∧ s.timers.next 0 = .node 1 ∧
    (∃ xs, s.timers.Represents xs ∧ xs.Pairwise s.Before ∧
      (∀ t, (s.pc t).inside = true → (t ∈ xs ↔ s.timers.next t ≠ .mark)) ∧
      ∀ t, s.pc t = .outside → t ∉ xs) ∧ s.crashed = false := by
  obtain ⟨s, reached, shown⟩ := Transition.exists_run (TimerState.step 0 0)
    (.initial 2 (fun _ => 0)) masterQuits
    (fun s => decide (s.timerLock = none) && decide (s.timers.first = .node 0) &&
      decide (s.timers.next 0 = .node 1)) (by decide)
  simp only [Bool.and_eq_true, decide_eq_true_eq] at shown
  obtain ⟨⟨free, first⟩, next⟩ := shown
  obtain ⟨order, _, sound⟩ := timer_list_in_order
    (show TimerReachable 0 0 2 (fun _ => 0) s from reached)
  exact ⟨s, reached, free, first, next, order free, sound⟩

def BeforeEvaluation (s : TimerState) (t : Tid) : Prop :=
  match s.pc t with
  | .reprogram | .inserted | .trying _ => True
  | .waiting e => s.sys.running t = true ∧ ∃ f rest, s.sys.frames t = f :: rest ∧ f.e = e ∧
      (f.pc = .prep ∨ f.pc = .test ∨ f.pc = .woke ∨ f.pc = .asleep ∧ s.sys.el e = none)
  | _ => False

def Woken (s : TimerState) (t : Tid) : Prop :=
  ∃ e, (s.pc t = .waiting e ∨ ∃ haveLock value, s.pc t = .decided e haveLock value) ∧
    (s.sys.el e = some .immediate ∨ s.sys.el e = some (.pending t))

section Awake

variable {m : MutexId} {s : TimerState} {xs : List Tid} {t : Tid} {g : Frame} {rest : List Frame}

theorem SleepInv.located (inv : SleepInv m s xs) (frames : s.sys.frames t = g :: rest)
    (cond : g.call = .cond t) (pc : g.pc.unplaced = false) :
    s.sys.el g.e = some (.waiters (.user t)) ∨ s.sys.el g.e = some .immediate ∨
      s.sys.el g.e = some (.pending t) ∨ s.sys.el g.e = none ∧ (g.pc = .asleep ∨ g.pc = .woke) := by
  have located := (inv.sys.thread t).located g (by simp [State.view, frames])
  have owner : g.e.owner = t := (inv.sys.thread t).event_owner (by simp [State.view, frames])
  simpa [Located, Placed, pc, cond, Call.home, State.view, own, owner, State.el, or_assoc] using located

private theorem SystemInv.running_of_top {s : State} (inv : SystemInv s)
    (frames : s.frames t = g :: rest) (awake : g.pc = .asleep → s.el g.e = none) :
    s.running t = true := by
  by_contra idle
  rcases (inv.thread t).idle (by simpa [State.view] using idle) with ⟨_, none⟩ | ⟨_, h, rest', again, asleep, on⟩
  · simp [State.view, frames] at none
  · obtain ⟨rfl, _⟩ : g = h ∧ rest = rest' := by simpa [State.view, frames] using again
    have owner : g.e.owner = t := (inv.thread t).event_owner (by simp [State.view, frames])
    have off := awake asleep
    simp [State.view, own, owner] at on
    exact on off

private theorem SleepInv.awake_waiting (inv : SleepInv m s xs) (pc : s.pc t = .waiting g.e)
    (frames : s.sys.frames t = g :: rest) (cond : g.call = .cond t) (first : g.pc ≠ .test0)
    (holds : g.pc ≠ .holds) (awake : ¬ Parked s t) : BeforeEvaluation s t ∨ Woken s t := by
  have admits := (inv.sys.control t).admits g rest (by simpa [State.view] using frames)
  have runs : (g.pc = .asleep → s.sys.el g.e = none) → (g.pc = .prep ∨ g.pc = .test ∨ g.pc = .woke ∨
      g.pc = .asleep ∧ s.sys.el g.e = none) → BeforeEvaluation s t := by
    intro off at_
    rw [BeforeEvaluation, pc]
    exact ⟨inv.sys.running_of_top frames off, g, rest, frames, rfl, at_⟩
  have sleeps : g.pc = .pushed ∨ g.pc = .asleep → BeforeEvaluation s t ∨ Woken s t := by
    intro at_
    have placed : g.pc.unplaced = false := by rcases at_ with equal | equal <;> rw [equal] <;> rfl
    rcases inv.located frames cond placed with home | immediate | pending | ⟨off, wakes⟩
    · exact absurd ⟨g.e, home, .inr ⟨pc, g, rest, frames, rfl, at_⟩⟩ awake
    · exact .inr ⟨g.e, .inl pc, .inl immediate⟩
    · exact .inr ⟨g.e, .inl pc, .inr pending⟩
    · refine .inl (runs (fun _ => off) ?_)
      rcases wakes with asleep | woke
      · exact .inr (.inr (.inr ⟨asleep, off⟩))
      · exact .inr (.inr (.inl woke))
  rw [cond] at admits
  cases at_ : g.pc with
  | prep => exact .inl (runs (by simp [at_]) (.inl at_))
  | test => exact .inl (runs (by simp [at_]) (.inr (.inl at_)))
  | woke => exact .inl (runs (by simp [at_]) (.inr (.inr (.inl at_))))
  | pushed => exact sleeps (.inl at_)
  | asleep => exact sleeps (.inr at_)
  | test0 => exact absurd at_ first
  | holds => exact absurd at_ holds
  | _ => simp [at_, Call.admits] at admits

private theorem SleepInv.awake_cases (inv : SleepInv m s xs) (member : t ∈ xs)
    (slave : (s.pc t).holdsMutex = false) (awake : ¬ Parked s t) :
    (BeforeEvaluation s t ∨ Woken s t) ∨ PastWait s t := by
  have linked := (inv.list.member t).mp member
  have known := inv.list.pc t
  have call := (inv.sleeper t).call
  cases pc : s.pc t with
  | outside => simp [pc, SleepPc.inside] at linked
  | yielding e =>
      simp only [PcInv, pc] at known
      exact absurd known linked.2.1
  | inserting =>
      simp only [PcInv, pc] at known
      exact absurd known linked.2.1
  | searching cur prev =>
      simp only [PcInv, pc] at known
      exact absurd known.1 linked.2.1
  | reprogram => exact .inl (.inl (by simp [BeforeEvaluation, pc]))
  | inserted => exact .inl (.inl (by simp [BeforeEvaluation, pc]))
  | trying e => exact .inl (.inl (by simp [BeforeEvaluation, pc]))
  | waiting e =>
      simp only [SleepCall, pc] at call
      obtain ⟨_, ⟨g, rest, frames, rfl, cond, first, holds⟩ | returned⟩ := call
      · exact .inl (inv.awake_waiting pc frames cond first holds awake)
      · exact .inr (by simpa [PastWait, pc] using returned)
  | decided e haveLock value =>
      cases value with
      | true => exact .inr (by simp [PastWait, pc])
      | false =>
          simp only [SleepCall, pc] at call
          obtain ⟨⟨g, rest, frames, rfl, cond, test⟩, _⟩ := call
          rcases inv.located frames cond (by rw [test]; rfl) with home | immediate | pending | ⟨_, at_⟩
          · exact absurd ⟨g.e, home, .inl ⟨haveLock, pc⟩⟩ awake
          · exact .inl (.inr ⟨g.e, .inr ⟨haveLock, false, pc⟩, .inl immediate⟩)
          · exact .inl (.inr ⟨g.e, .inr ⟨haveLock, false, pc⟩, .inr pending⟩)
          · simp [test] at at_
  | leaving e haveLock => exact .inr (by simp [PastWait, pc])
  | quit haveLock rv => exact .inr (by simp [PastWait, pc])
  | removing rv => exact .inr (by simp [PastWait, pc])
  | removed rv => exact .inr (by simp [PastWait, pc])
  | _ => simp [pc, SleepPc.holdsMutex] at slave

end Awake

/-- While there are threads on `timer_list` and nobody has `timer_mutex`, one of them is going
to evaluate its condition, or a thread that leaves is going to wake the first. -/
theorem timer_attended {m : MutexId} {f : FdId} {workers : Nat} {domainOf : WorkerId → DomainId}
    {s : TimerState} {xs : List Tid} (reached : TimerReachable m f workers domainOf s)
    (list : s.timers.Represents xs) (some : xs ≠ []) (free : s.sys.owner m = none) :
    (∃ t ∈ xs, BeforeEvaluation s t ∨ Woken s t) ∨ ∃ t, PastWait s t := by
  obtain ⟨ys, inv⟩ := SleepInv.run reached
  obtain rfl := list.chain.unique inv.list.valid.chain
  have slaves := inv.owner_none.mp free
  rcases inv.attended some slaves with ⟨t, member, awake⟩ | past
  · rcases inv.awake_cases member (slaves t) awake with comes | past
    · exact .inl ⟨t, member, comes⟩
    · exact .inr ⟨t, past⟩
  · exact .inr past

set_option maxRecDepth 20000 in
/-- The master leaves, and has woken the thread that is left. -/
theorem timer_attended_handover : ∃ s, TimerReachable 0 0 2 (fun _ => 0) s ∧
    s.timers.Represents [1] ∧ s.sys.owner 0 = none ∧ s.pc 0 = .outside ∧
    s.sys.frames 1 = [⟨.cond 1, .auto 1 1, .asleep, none⟩] ∧
    s.sys.el (.auto 1 1) = some .immediate ∧
    ((∃ t ∈ [1], BeforeEvaluation s t ∨ Woken s t) ∨ ∃ t, PastWait s t) := by
  obtain ⟨s, reached, shown⟩ := Transition.exists_run (TimerState.step 0 0)
    (.initial 2 (fun _ => 0)) (masterQuits ++ [nexts 0 0, nexts 0 0])
    (fun s => decide (s.timers.first = .node 1) && decide (s.timers.prev 1 = .head) &&
      decide (s.timers.next 1 = .null) && decide (s.sys.owner 0 = none) &&
      decide (s.pc 0 = .outside) &&
      decide (s.sys.frames 1 = [⟨.cond 1, .auto 1 1, .asleep, none⟩]) &&
      decide (s.sys.el (.auto 1 1) = some .immediate)) (by decide)
  simp only [Bool.and_eq_true, decide_eq_true_eq] at shown
  obtain ⟨⟨⟨⟨⟨⟨first, prev⟩, last⟩, free⟩, outside⟩, frames⟩, woken⟩ := shown
  have list : s.timers.Represents [1] := ⟨⟨first, prev, last⟩, by simp⟩
  exact ⟨s, reached, list, free, outside, frames, woken,
    timer_attended (show TimerReachable 0 0 2 (fun _ => 0) s from reached) list (by simp) free⟩

end Libtcr
