import Libtcr.SleepDeadline
import Libtcr.Lib.Transition

/-! `timerfd_create` and `timerfd_settime` of the build with `HAVE__RHEL5`, where a pthread stands
in for the timer: it reads the settings from a socket, polls for the time they ask for, and then
writes one byte. Both ends of the socket are open all the time, so that `ppoll` returns because of
a setting, because of the time, because of a signal, or at once if it does not accept the time.
Settings are written and read whole; a `read` that is interrupted ends the process, by the `assert`
after it, and is not a step here. -/

set_option autoImplicit false

namespace Libtcr

/-- A call of `timerfd_settime`. -/
structure TimerSetting where
  value : Timespec
  /-- `TFD_TIMER_ABSTIME`, which travels in `it_interval` -/
  absolute : Bool
  -- history: the time of the call in nanoseconds
  calledAt : Int
  deriving DecidableEq, Repr

/-- When a timer of the kernel would expire. -/
def TimerSetting.deadline (x : TimerSetting) : Int :=
  if x.absolute then x.value.total else x.calledAt + x.value.total

inductive TimerfdPc where
  | top
  /-- In `ppoll`, since a time in nanoseconds. -/
  | polling (since : Int)
  | reading
  deriving DecidableEq, Repr

structure TimerThread where
  clock : Timespec
  pc : TimerfdPc
  invalid : Bool
  delta : Timespec
  socket : List TimerSetting
  -- history, the last one first: the settings sent, those read, and those for which a byte was
  -- written, with the time
  sent : List TimerSetting
  consumed : List TimerSetting
  fired : List (TimerSetting × Int)
  -- history: `ppoll` has failed with the last setting that was read, or its byte could not be
  -- written
  lost : Bool
  deriving DecidableEq, Repr

inductive TimerfdAction where
  | settime (value : Timespec) (absolute : Bool)
  | tick (now : Timespec)
  | poll
  /-- `ppoll` returns 0, and the byte is written if there is a setting; `written`: this succeeds. -/
  | timeout (written : Bool)
  | ready
  | interrupt
  | read
  deriving DecidableEq, Repr

namespace TimerThread

def deltaOf (x : TimerSetting) (now : Timespec) : Timespec :=
  if x.absolute then
    if timerDelta x.value now then ⟨0, 1⟩ else timerDeltaDest x.value now
  else x.value

/-- The time that `ppoll` gets. -/
def polls (s : TimerThread) : Timespec :=
  if s.invalid then ⟨100000, 0⟩ else s.delta

/-- `ppoll` has returned -1. -/
def fails (s : TimerThread) : TimerThread :=
  { s with pc := .top, invalid := true, lost := s.lost || !s.invalid }

def step (s : TimerThread) : TimerfdAction → Option TimerThread
  | .settime value absolute =>
    let x : TimerSetting := ⟨value, absolute, s.clock.total⟩
    some { s with socket := s.socket ++ [x], sent := x :: s.sent }
  | .tick now =>
    if now.valid ∧ s.clock.total ≤ now.total then some { s with clock := now } else none
  | .poll =>
    if s.pc = .top then
      -- EINVAL
      if s.polls.valid = false then some { s with delta := s.polls }.fails
      else some { s with pc := .polling s.clock.total, delta := s.polls }
    else none
  | .timeout written =>
    match s.pc with
    | .polling since =>
      if s.socket = [] ∧ since + s.delta.total ≤ s.clock.total then
        if s.invalid then some { s with pc := .top }
        else if written then s.consumed.head?.map fun x => { s with
          -- `rv` is now the result of `write`, so that a `read` follows.
          pc := .reading
          invalid := true
          fired := (x, s.clock.total) :: s.fired }
        else some { s with pc := .top, invalid := true, lost := true }
      else none
    | _ => none
  | .ready =>
    match s.pc, s.socket with
    | .polling _, _ :: _ => some { s with pc := .reading, invalid := true }
    | _, _ => none
  | .interrupt =>
    match s.pc with
    | .polling _ => some s.fails
    | _ => none
  | .read =>
    match s.pc, s.socket with
    | .reading, x :: rest => some { s with
        pc := .top
        invalid := false
        delta := deltaOf x s.clock
        socket := rest
        consumed := x :: s.consumed
        lost := false }
    | _, _ => none

def initial (now : Timespec) : TimerThread where
  clock := now
  pc := .top
  invalid := true
  delta := ⟨0, 0⟩
  socket := []
  sent := []
  consumed := []
  fired := []
  lost := false

/-- The thread polls, or will, until the time `deadline` at least. -/
def Due (s : TimerThread) (deadline : Int) : Prop :=
  match s.pc with
  | .top => deadline ≤ s.clock.total + s.delta.total
  | .polling since => deadline ≤ since + s.delta.total
  | .reading => False

end TimerThread

/-- A time with at most one whole second in its nanoseconds, as `tc_sleep` makes them. -/
def Timespec.carried (x : Timespec) : Bool :=
  0 ≤ x.sec && 0 ≤ x.nsec && x.nsec ≤ 10 ^ 9

structure TimerfdInv (s : TimerThread) : Prop where
  clock : s.clock.valid = true
  sent : s.sent = s.socket.reverse ++ s.consumed
  times : ∀ x ∈ s.socket, x.calledAt ≤ s.clock.total
  late : ∀ f ∈ s.fired, f.1.value.carried = true → f.1.deadline ≤ f.2
  once : (s.fired.map Prod.fst).Sublist s.consumed
  armed : s.invalid = false → ∃ x rest, s.consumed = x :: rest ∧
    (s.fired.map Prod.fst).Sublist rest ∧ (x.value.carried = true → s.Due x.deadline) ∧
    s.pc ≠ .reading
  idle : s.invalid = true → s.pc ≠ .reading → s.lost = false → s.consumed = []
  reading : s.pc = .reading → s.lost = false →
    s.socket ≠ [] ∨ ∃ x t, s.consumed.head? = some x ∧ s.fired.head? = some (x, t)

section Steps

variable {s s' : TimerThread} {a : TimerfdAction}

private theorem deltaOf_due {x : TimerSetting} {now : Timespec} (valid : now.valid = true)
    (value : x.value.carried = true) (called : x.calledAt ≤ now.total) :
    x.deadline ≤ now.total + (TimerThread.deltaOf x now).total := by
  have difference : (timerDeltaDest x.value now).total = x.value.total - now.total ∧
      (timerDeltaDest x.value now).nsec ≤ 10 ^ 9 := by
    rw [Timespec.valid_iff] at valid
    simp only [Timespec.carried, Bool.and_eq_true, decide_eq_true_eq] at value
    unfold timerDeltaDest Timespec.total
    dsimp only
    split_ifs <;> dsimp only <;> omega
  obtain ⟨difference, small⟩ := difference
  unfold TimerThread.deltaOf TimerSetting.deadline
  split
  · split
    · next past =>
      rw [timerDelta_iff] at past
      unfold Timespec.total at difference ⊢
      dsimp only
      omega
    · omega
  · omega

theorem TimerfdInv.settime {value : Timespec} {absolute : Bool} (inv : TimerfdInv s)
    (stepped : s.step (.settime value absolute) = some s') : TimerfdInv s' := by
  cases stepped
  constructor
  case clock => exact inv.clock
  case sent => simp [inv.sent]
  case times =>
    intro x member
    rcases List.mem_append.mp member with old | new
    · exact inv.times x old
    · rw [List.mem_singleton.mp new]
  case late => exact inv.late
  case once => exact inv.once
  case armed => exact inv.armed
  case idle => exact inv.idle
  case reading => exact fun _ _ => .inl (by simp)

private theorem TimerfdInv.tick {now : Timespec} (inv : TimerfdInv s)
    (stepped : s.step (.tick now) = some s') : TimerfdInv s' := by
  simp only [TimerThread.step] at stepped
  split at stepped
  · next allowed =>
    cases stepped
    constructor
    case clock => exact allowed.1
    case sent => exact inv.sent
    case times => exact fun x member => Int.le_trans (inv.times x member) allowed.2
    case late => exact inv.late
    case once => exact inv.once
    case armed =>
      intro valid
      obtain ⟨x, rest, consumed, fired, due, apart⟩ := inv.armed valid
      refine ⟨x, rest, consumed, fired, fun carried => ?_, apart⟩
      have before := due carried
      unfold TimerThread.Due at before ⊢
      cases pc : s.pc with
      | top =>
          simp only [pc] at before ⊢
          exact Int.le_trans before (Int.add_le_add_right allowed.2 _)
      | polling since => simpa only [pc] using before
      | reading => exact absurd pc apart
    case idle => exact inv.idle
    case reading => exact inv.reading
  · cases stepped

theorem TimerfdInv.abandon {lost : Bool} (inv : TimerfdInv s)
    (none : lost = false → s.consumed = []) :
    TimerfdInv { s with pc := .top, invalid := true, lost := lost } where
  clock := inv.clock
  sent := inv.sent
  times := inv.times
  late := inv.late
  once := inv.once
  armed valid := by cases valid
  idle _ _ := none
  reading reading := by cases reading

private theorem TimerfdInv.fails (inv : TimerfdInv s) (apart : s.pc ≠ .reading) :
    TimerfdInv s.fails := by
  apply inv.abandon
  intro kept
  simp only [Bool.or_eq_false_iff, Bool.not_eq_false'] at kept
  exact inv.idle kept.2 apart kept.1

theorem TimerfdInv.poll (inv : TimerfdInv s) (stepped : s.step .poll = some s') :
    TimerfdInv s' := by
  simp only [TimerThread.step] at stepped
  split at stepped
  · next top =>
    split at stepped
    · next refused =>
      cases stepped
      have apart : s.pc ≠ .reading := by simp [top]
      exact { inv.fails apart with armed := fun valid => by cases valid }
    · cases stepped
      constructor
      case clock => exact inv.clock
      case sent => exact inv.sent
      case times => exact inv.times
      case late => exact inv.late
      case once => exact inv.once
      case armed =>
        intro (valid : s.invalid = false)
        obtain ⟨x, rest, consumed, fired, due, _⟩ := inv.armed valid
        refine ⟨x, rest, consumed, fired, fun carried => ?_, nofun⟩
        have before := due carried
        simp only [TimerThread.Due, top] at before
        simpa [TimerThread.Due, TimerThread.polls, valid] using before
      case idle => exact fun invalid _ => inv.idle invalid (by simp [top])
      case reading => exact fun reading => by cases reading
  · cases stepped

/-- The byte is written for the last setting that was read, when its time has come. -/
theorem TimerfdInv.fire {x : TimerSetting} {since : Int} (inv : TimerfdInv s)
    (valid : s.invalid = false) (polling : s.pc = .polling since)
    (elapsed : since + s.delta.total ≤ s.clock.total) (last : s.consumed.head? = some x) :
    TimerfdInv { s with
      pc := .reading
      invalid := true
      fired := (x, s.clock.total) :: s.fired } := by
  obtain ⟨y, rest, consumed, fired, due, _⟩ := inv.armed valid
  obtain rfl : y = x := by simpa [consumed] using last
  simp only [TimerThread.Due, polling] at due
  constructor
  case clock => exact inv.clock
  case sent => exact inv.sent
  case times => exact inv.times
  case late =>
    intro f member carried
    rcases List.mem_cons.mp member with rfl | old
    · exact Int.le_trans (due carried) elapsed
    · exact inv.late f old carried
  case once =>
    rw [consumed]
    exact fired.cons_cons y
  case armed => exact fun valid => by cases valid
  case idle => exact fun _ apart => absurd rfl apart
  case reading => exact fun _ _ => .inr ⟨y, _, last, rfl⟩

theorem TimerfdInv.timeout {written : Bool} (inv : TimerfdInv s)
    (stepped : s.step (.timeout written) = some s') : TimerfdInv s' := by
  simp only [TimerThread.step] at stepped
  split at stepped
  · next since polling =>
    split at stepped
    · next elapsed =>
      split at stepped
      · next invalid =>
        cases stepped
        have none : s.lost = false → s.consumed = [] := inv.idle invalid (by simp [polling])
        simpa only [invalid] using inv.abandon none
      · next valid =>
        split at stepped
        · obtain ⟨x, last, rfl⟩ := Option.map_eq_some_iff.mp stepped
          exact inv.fire (by simpa using valid) polling elapsed.2 last
        · cases stepped
          exact inv.abandon (by simp)
    · cases stepped
  · cases stepped

theorem TimerfdInv.ready (inv : TimerfdInv s) (stepped : s.step .ready = some s') :
    TimerfdInv s' := by
  simp only [TimerThread.step] at stepped
  split at stepped
  · next waiting =>
    cases stepped
    constructor
    case clock => exact inv.clock
    case sent => exact inv.sent
    case times => exact inv.times
    case late => exact inv.late
    case once => exact inv.once
    case armed => exact fun valid => by cases valid
    case idle => exact fun _ apart => absurd rfl apart
    case reading => exact fun _ _ => .inl (by simp [waiting])
  · cases stepped

private theorem TimerfdInv.interrupt (inv : TimerfdInv s) (stepped : s.step .interrupt = some s') :
    TimerfdInv s' := by
  simp only [TimerThread.step] at stepped
  split at stepped
  · next since polling =>
    cases stepped
    exact inv.fails (by simp [polling])
  · cases stepped

theorem TimerfdInv.read (inv : TimerfdInv s) (stepped : s.step .read = some s') :
    TimerfdInv s' := by
  simp only [TimerThread.step] at stepped
  split at stepped
  · next x rest _ socket =>
    cases stepped
    have called := inv.times x (by simp [socket])
    constructor
    case clock => exact inv.clock
    case sent => simp [inv.sent, socket]
    case times => exact fun y member => inv.times y (by simp [socket, member])
    case late => exact inv.late
    case once => exact inv.once.cons x
    case armed =>
      exact fun _ => ⟨x, s.consumed, rfl, inv.once,
        fun carried => deltaOf_due inv.clock carried called, nofun⟩
    case idle => exact fun invalid => by cases invalid
    case reading => exact fun reading => by cases reading
  · cases stepped

theorem TimerfdInv.step (inv : TimerfdInv s) (stepped : s.step a = some s') : TimerfdInv s' := by
  cases a with
  | settime value absolute => exact inv.settime stepped
  | tick now => exact inv.tick stepped
  | poll => exact inv.poll stepped
  | timeout written => exact inv.timeout stepped
  | ready => exact inv.ready stepped
  | interrupt => exact inv.interrupt stepped
  | read => exact inv.read stepped

theorem TimerfdInv.initial {now : Timespec} (valid : now.valid = true) :
    TimerfdInv (.initial now) where
  clock := valid
  sent := rfl
  times x member := by cases member
  late f member := by cases member
  once := List.Sublist.refl _
  armed valid := by cases valid
  idle _ _ _ := rfl
  reading reading := by cases reading

end Steps

/-! ## The timer -/

def TimerfdReached (now : Timespec) : TimerThread → Prop :=
  Transition.Run TimerThread.step Transition.always (.initial now)

/-- Whatever the settings and their times, a byte is written for a setting at most once, in the
order of the calls, and, unless its nanoseconds are out of bounds, not before the time it asks for.
The last setting is in the socket, or waited for, or has had its byte, unless `ppoll` has failed
with it or its byte could not be written. -/
theorem emulated_timer_fires {now : Timespec} {s : TimerThread} (valid : now.valid = true)
    (reached : TimerfdReached now s) :
    (s.fired.map Prod.fst).Sublist s.sent ∧
    (∀ f ∈ s.fired, f.1.value.carried = true → f.1.deadline ≤ f.2) ∧
    ∀ x, s.sent.head? = some x → x ∈ s.socket ∨ (∃ t, s.fired.head? = some (x, t)) ∨
      s.invalid = false ∧ s.pc ≠ .reading ∧ (x.value.carried = true → s.Due x.deadline) ∨
      s.lost = true := by
  have inv : TimerfdInv s := reached.invariant TimerfdInv (.initial valid) fun inv _ stepped =>
    inv.step stepped
  refine ⟨?_, inv.late, fun x last => ?_⟩
  · rw [inv.sent]
    exact inv.once.trans (List.sublist_append_right _ _)
  · rw [inv.sent] at last
    rcases waiting : s.socket with _ | ⟨y, rest⟩
    · simp only [waiting, List.reverse_nil, List.nil_append] at last
      right
      cases invalid : s.invalid with
      | false =>
          obtain ⟨z, rest, consumed, _, due, apart⟩ := inv.armed invalid
          obtain rfl : z = x := by simpa [consumed] using last
          exact .inr (.inl ⟨rfl, apart, due⟩)
      | true =>
          cases lost : s.lost with
          | true => exact .inr (.inr rfl)
          | false =>
              left
              by_cases reading : s.pc = .reading
              · obtain more | ⟨z, t, consumed, fired⟩ := inv.reading reading lost
                · exact absurd waiting more
                · obtain rfl : x = z := Option.some.inj (last.symm.trans consumed)
                  exact ⟨t, fired⟩
              · simp [inv.idle invalid reading lost] at last
    · left
      rw [List.head?_append_of_ne_nil _ (by simp [waiting]), waiting] at last
      exact List.mem_reverse.mp (List.mem_of_head? last)

/-- A setting is replaced by a later one before its time, and that one expires. -/
def replacedSetting : List TimerfdAction :=
  [.poll, .settime ⟨5, 0⟩ true, .ready, .read, .poll, .settime ⟨0, 7⟩ false, .tick ⟨2, 0⟩, .ready,
    .read, .poll, .tick ⟨3, 0⟩, .timeout true]

theorem emulated_timer_fires_replaced : ∃ s, TimerfdReached ⟨1, 0⟩ s ∧
    s.fired = [(⟨⟨0, 7⟩, false, 10 ^ 9⟩, 3 * 10 ^ 9)] ∧ s.sent.length = 2 ∧
    ∀ f ∈ s.fired, f.1.value.carried = true → f.1.deadline ≤ f.2 := by
  obtain ⟨s, reached, shown⟩ := Transition.exists_run TimerThread.step (.initial ⟨1, 0⟩)
    replacedSetting (fun s => decide (s.fired = [(⟨⟨0, 7⟩, false, 10 ^ 9⟩, 3 * 10 ^ 9)]) &&
      decide (s.sent.length = 2)) (by decide)
  simp only [Bool.and_eq_true, decide_eq_true_eq] at shown
  exact ⟨s, reached, shown.1, shown.2, (emulated_timer_fires (by decide) reached).2.1⟩

/-! ## Failures of `ppoll` -/

structure TimerIdle (s : TimerThread) : Prop where
  invalid : s.invalid = true
  socket : s.socket = []
  pc : s.pc ≠ .reading

theorem TimerIdle.step {s s' : TimerThread} {a : TimerfdAction} (idle : TimerIdle s)
    (none : ∀ value absolute, a ≠ .settime value absolute) (stepped : s.step a = some s') :
    TimerIdle s' ∧ s'.fired = s.fired := by
  obtain ⟨invalid, socket, pc⟩ := idle
  cases a with
  | settime value absolute => exact absurd rfl (none value absolute)
  | tick now =>
      simp only [TimerThread.step] at stepped
      split at stepped
      · cases stepped
        exact ⟨⟨invalid, socket, pc⟩, rfl⟩
      · cases stepped
  | poll =>
      simp only [TimerThread.step] at stepped
      split at stepped
      · split at stepped
        · cases stepped
          exact ⟨⟨rfl, socket, by simp [TimerThread.fails]⟩, rfl⟩
        · cases stepped
          exact ⟨⟨invalid, socket, by simp⟩, rfl⟩
      · cases stepped
  | timeout written =>
      simp only [TimerThread.step, invalid] at stepped
      split at stepped
      · split at stepped
        · cases stepped
          exact ⟨⟨rfl, socket, by simp⟩, rfl⟩
        · cases stepped
      · cases stepped
  | ready => simp [TimerThread.step, socket] at stepped
  | interrupt =>
      simp only [TimerThread.step] at stepped
      split at stepped
      · cases stepped
        exact ⟨⟨rfl, socket, by simp [TimerThread.fails]⟩, rfl⟩
      · cases stepped
  | read => simp [TimerThread.step, socket] at stepped

/-- A `ppoll` that fails while the timer runs loses the setting, be it because of a signal or
because of a time that it does not accept: no byte comes before the next call of
`timerfd_settime`. -/
theorem failed_ppoll_lost {s s' : TimerThread} (last : s.socket = [])
    (run : Transition.Run TimerThread.step (fun _ a => ∀ value absolute, a ≠ .settime value absolute)
      s.fails s') : s'.fired = s.fired := by
  have kept := run.invariant (fun s' => TimerIdle s' ∧ s'.fired = s.fired)
    ⟨⟨rfl, last, by simp [TimerThread.fails]⟩, rfl⟩ fun idle none stepped =>
      ⟨(idle.1.step none stepped).1, (idle.1.step none stepped).2.trans idle.2⟩
  exact kept.2

end Libtcr
