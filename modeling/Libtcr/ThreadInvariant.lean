import Libtcr.Lib.Update
import Libtcr.ThreadView

/-! The invariant of a single thread: where its events are, what is on its event
stack, and who executes it. It needs no assumption on the application. -/

set_option autoImplicit false

namespace Libtcr

/-- The event of a call is on the list the call queued it on, or active. -/
def Placed (t : Tid) (el : EventId → Option EventList) (call : Call) (e : EventId) : Prop :=
  el e = some call.home ∨ el e = some .immediate ∨ el e = some (.pending t)

/-- Where the event of a frame is. It is on no list before it is queued, and once the
scheduler has taken it off to wake its thread. -/
def Located (t : Tid) (el : EventId → Option EventList) (f : Frame) : Prop :=
  if f.pc.unplaced then el f.e = none
  else Placed t el f.call f.e ∨ (el f.e = none ∧ (f.pc = .asleep ∨ f.pc = .woke))

/-- Below a live event there is on the event stack either the event of the next call,
or one that belongs to no call: an interrupted wait leaves its event on the stack. -/
def WeakStack (next : EventId → Option EventId) : Option EventId → List Frame → Prop
  | _, [] => True
  | top, f :: rest =>
    if f.pc.onStack then
      top ≠ none ∧ (∀ g ∈ rest, top ≠ some g.e) ∧ WeakStack next (next f.e) rest
    else WeakStack next top rest

def Status.newborn : Status → Bool
  | .unused | .created | .posted => true
  | _ => false

def Status.executable : Status → Bool
  | .alive | .unlinked | .settled | .announced => true
  | _ => false

theorem Status.newborn_of_unborn {status : Status}
    (unborn : status = .unused ∨ status = .created) : status.newborn = true := by
  rcases unborn with rfl | rfl <;> rfl

structure EventsInv (t : Tid) (v : View) : Prop where
  flagsAuto : ∀ n, v.flags (.auto t n) ≠ .signal ∧ v.flags (.auto t n) ≠ .exiting
  flagsSub : ∀ n, v.flags (.sub t n) = .signal
  flagsSelf : v.flags (.self t) ≠ .signal
  owned : ∀ e, v.el e ≠ none → e.owner = t
  live : ∀ e, v.el e ≠ none → v.life e = .live
  frame : ∀ f ∈ v.frames, (∃ n, f.e = .auto t n) ∧ v.life f.e = .live
  nodup : (v.frames.map Frame.e).Nodup
  autoLive : ∀ n, v.life (.auto t n) = .live → ∃ f ∈ v.frames, f.e = .auto t n
  lower : ∀ f rest, v.frames = f :: rest → ∀ g ∈ rest, g.inCondition = true
  located : ∀ f ∈ v.frames, Located t v.el f
  stack : WeakStack v.next v.stack v.frames
  subs : ∀ n, v.life (.sub t n) = .live →
    v.el (.sub t n) = some (.waiters (.signal (v.signal (.sub t n)))) ∨
      v.el (.sub t n) = some .immediate ∨ v.el (.sub t n) = some (.pending t)

/-- A thread that is being woken with top frame `f` was woken by the event it waits
for, which is then on no list, or by a signal. -/
def Delivered (t : Tid) (el : EventId → Option EventList) (f : Frame) (x : Option EventId) :
    Prop :=
  ∃ y, x = some y ∧ (y = f.e ∧ el f.e = none ∨ (∃ n, y = .sub t n) ∧ el f.e ≠ none)

structure ThreadInv (t : Tid) (v : View) : Prop extends EventsInv t v where
  unique : ∀ w w', v.place w ≠ .away → v.place w' ≠ .away → w = w'
  occupied : ∀ w x, v.place w = .entering x ∨ v.place w = .on x → v.running = true
  woken : ∀ w x, v.place w = .entering (some x) ∨ v.place w = .on (some x) → x.owner = t
  idle : v.running = false → (v.status.newborn = true ∧ v.frames = []) ∨
    v.status.executable = true ∧
      ∃ f rest, v.frames = f :: rest ∧ f.pc = .asleep ∧ v.el f.e ≠ none
  entering : ∀ w x, v.place w = .entering x → (v.status = .posted ∧ v.frames = []) ∨
    v.status.executable = true ∧ ∃ f rest, v.frames = f :: rest ∧ f.pc = .asleep
  executing : ∀ w x, v.place w = .on x → v.status.executable = true ∧
    ∀ f rest, v.frames = f :: rest → f.pc ≠ .asleep
  newborn : v.status.newborn = true →
    v.frames = [] ∧ v.stack = none ∧ ∀ n, v.life (.sub t n) ≠ .live
  unborn : v.status = .unused ∨ v.status = .created → v.running = false
  selfLive : v.status ≠ .unused → v.status ≠ .dead → v.life (.self t) = .live
  selfEvent : ∀ k, v.el (.self t) = some k → k = .immediate ∧
    (v.status = .posted ∧ v.flags (.self t) = .ready ∧ v.running = false ∨
      v.status = .exiting ∧ v.flags (.self t) = .exiting ∧ ∀ w, v.place w = .away)
  freeing : ∀ w, v.place w = .freeing → v.status = .exiting ∧ v.el (.self t) = none
  delivered : ∀ w x f rest, v.frames = f :: rest →
    v.place w = .entering x ∨ v.place w = .on x ∧ f.pc = .woke → Delivered t v.el f x
  /-- A thread that does not run has no event pending for which it would be woken. -/
  sleep : v.running = false → ∀ e, v.el e = some (.pending t) →
    v.flags e ≠ .signal ∧ v.stack ≠ none ∧ v.stack ≠ some e

/-! ## Frames and the event stack -/

theorem Located.unplaced {t : Tid} {el : EventId → Option EventList} {f : Frame}
    (located : Located t el f) (pc : f.pc.unplaced = true) : el f.e = none := by
  simpa [Located, pc] using located

theorem Located.placed {t : Tid} {el : EventId → Option EventList} {f : Frame}
    (located : Located t el f) (on : el f.e ≠ none) : Placed t el f.call f.e := by
  unfold Located at located
  split at located
  · exact absurd located on
  · rcases located with placed | ⟨off, _⟩
    · exact placed
    · exact absurd off on

theorem Located.mono {t : Tid} {el after : EventId → Option EventList} {f : Frame}
    (located : Located t el f)
    (moved : after f.e = el f.e ∨
      el f.e ≠ none ∧ (after f.e = some .immediate ∨ after f.e = some (.pending t))) :
    Located t after f := by
  unfold Located Placed at *
  rcases moved with same | ⟨on, active⟩
  · rw [same]
    exact located
  · split at located
    · exact absurd located on
    · rw [if_neg (by assumption)]
      exact .inl (.inr active)

section WeakStack

variable {next : EventId → Option EventId} {top : Option EventId} {f g : Frame}
  {rest frames : List Frame}

theorem weakStack_on (pc : f.pc.onStack = true) :
    WeakStack next top (f :: rest) ↔
      top ≠ none ∧ (∀ g ∈ rest, top ≠ some g.e) ∧ WeakStack next (next f.e) rest := by
  rw [WeakStack, if_pos pc]

theorem weakStack_off (pc : f.pc.onStack = false) :
    WeakStack next top (f :: rest) ↔ WeakStack next top rest := by
  rw [WeakStack, if_neg (by simp [pc])]

theorem WeakStack.congr {after : EventId → Option EventId}
    (stack : WeakStack next top frames) (same : ∀ f ∈ frames, after f.e = next f.e) :
    WeakStack after top frames := by
  induction frames generalizing top with
  | nil => trivial
  | cons f rest ih =>
      have tail : ∀ g ∈ rest, after g.e = next g.e := fun g member => same g (.tail _ member)
      cases pc : f.pc.onStack with
      | true =>
          obtain ⟨present, foreign, below⟩ := (weakStack_on pc).mp stack
          exact (weakStack_on pc).mpr ⟨present, foreign, same f (.head _) ▸ ih below tail⟩
      | false => exact (weakStack_off pc).mpr (ih ((weakStack_off pc).mp stack) tail)

theorem WeakStack.replace {other : Option EventId} (stack : WeakStack next top frames)
    (present : other ≠ none) (foreign : ∀ f ∈ frames, other ≠ some f.e) :
    WeakStack next other frames := by
  induction frames with
  | nil => trivial
  | cons f rest ih =>
      have tail : ∀ g ∈ rest, other ≠ some g.e := fun g member => foreign g (.tail _ member)
      cases pc : f.pc.onStack with
      | true =>
          exact (weakStack_on pc).mpr ⟨present, tail, ((weakStack_on pc).mp stack).2.2⟩
      | false => exact (weakStack_off pc).mpr (ih ((weakStack_off pc).mp stack) tail)

theorem WeakStack.abandon (stack : WeakStack next top (f :: rest))
    (pc : f.pc.onStack = true) : WeakStack next top rest := by
  obtain ⟨present, foreign, below⟩ := (weakStack_on pc).mp stack
  exact below.replace present foreign

theorem WeakStack.setPc (stack : WeakStack next top (f :: rest)) (same : g.e = f.e)
    (pc : g.pc.onStack = f.pc.onStack) : WeakStack next top (g :: rest) := by
  unfold WeakStack at *
  rwa [pc, same]

theorem WeakStack.push (stack : WeakStack next top (f :: rest))
    (off : f.pc.onStack = false) (same : g.e = f.e) (on : g.pc.onStack = true)
    (fresh : ∀ h ∈ rest, h.e ≠ f.e) :
    WeakStack (Function.update next f.e top) (some f.e) (g :: rest) := by
  have below := (weakStack_off off).mp stack
  refine (weakStack_on on).mpr ⟨by simp, ?_, ?_⟩
  · intro h member equal
    exact fresh h member (Option.some.inj equal).symm
  · rw [same, Function.update_self]
    exact below.congr fun h member => Function.update_of_ne (fresh h member) _ _

end WeakStack

/-! ## Facts about the events of a thread -/

namespace EventsInv

variable {t : Tid} {v : View}

theorem event_owner {f : Frame} (inv : EventsInv t v) (member : f ∈ v.frames) : f.e.owner = t := by
  obtain ⟨⟨n, auto⟩, _⟩ := inv.frame f member
  rw [auto, EventId.owner]

theorem auto_ne_self {f : Frame} (inv : EventsInv t v) (member : f ∈ v.frames) :
    f.e ≠ .self t := by
  obtain ⟨n, equal⟩ := (inv.frame f member).1
  simp [equal]

theorem auto_ne_sub {f : Frame} (inv : EventsInv t v) (member : f ∈ v.frames) (n : Nat) :
    f.e ≠ .sub t n := by
  obtain ⟨k, equal⟩ := (inv.frame f member).1
  simp [equal]

theorem sub_of_signal {e : EventId} (inv : EventsInv t v) (owned : e.owner = t)
    (signal : v.flags e = .signal) : ∃ n, e = .sub t n := by
  cases e with
  | auto u n =>
      obtain rfl : u = t := owned
      exact absurd signal (inv.flagsAuto n).1
  | sub u n =>
      obtain rfl : u = t := owned
      exact ⟨n, rfl⟩
  | self u =>
      obtain rfl : u = t := owned
      exact absurd signal inv.flagsSelf

/-- An event on a list that is no signal's is that of a frame, or the thread's own. -/
theorem frame_of_event {e : EventId} (inv : EventsInv t v) (on : v.el e ≠ none)
    (event : v.flags e ≠ .signal) : (∃ f ∈ v.frames, f.e = e) ∨ e = .self t := by
  have owned := inv.owned e on
  cases e with
  | auto u n =>
      obtain rfl : u = t := owned
      obtain ⟨f, member, equal⟩ := inv.autoLive n (inv.live _ on)
      exact .inl ⟨f, member, equal⟩
  | sub u n =>
      obtain rfl : u = t := owned
      exact absurd (inv.flagsSub n) event
  | self u =>
      obtain rfl : u = t := owned
      exact .inr rfl

/-- Of the events of its calls, only that of the top call can be at the top of the
event stack of a thread that is about to be woken. -/
theorem top_of_stack {e : EventId} {f g : Frame} {rest : List Frame} (inv : EventsInv t v)
    (frames : v.frames = f :: rest) (pc : f.pc.onStack = true) (member : g ∈ v.frames)
    (equal : g.e = e) (top : v.stack = none ∨ v.stack = some e) :
    e = f.e ∧ v.stack = some e := by
  have stack := inv.stack
  rw [frames, weakStack_on pc] at stack
  have found : v.stack = some e := top.resolve_left stack.1
  rw [frames] at member
  rcases List.mem_cons.mp member with rfl | below
  · exact ⟨equal.symm, found⟩
  · exact absurd (equal ▸ found) (stack.2.1 g below)

/-- The events of the calls below the top one differ from that of the top call. -/
theorem fresh_below {f : Frame} {rest : List Frame} (inv : EventsInv t v)
    (frames : v.frames = f :: rest) : ∀ g ∈ rest, g.e ≠ f.e := by
  have nodup := inv.nodup
  rw [frames, List.map_cons, List.nodup_cons] at nodup
  intro g member equal
  exact nodup.1 (List.mem_map.mpr ⟨g, member, equal⟩)

/-! ## How the events change -/

theorem activate (inv : EventsInv t v) {el : EventId → Option EventList}
    (moved : ∀ e, el e = v.el e ∨
      v.el e ≠ none ∧ (el e = some .immediate ∨ el e = some (.pending t))) :
    EventsInv t { v with el := el } := by
  have on : ∀ e, el e ≠ none → v.el e ≠ none := by
    intro e on
    rcases moved e with same | ⟨old, _⟩
    · exact same ▸ on
    · exact old
  refine { inv with
    owned := fun e placed => inv.owned e (on e placed)
    live := fun e placed => inv.live e (on e placed)
    located := fun f member => (inv.located f member).mono (moved f.e)
    subs := fun n live => ?_ }
  rcases moved (.sub t n) with same | ⟨_, active⟩
  · simpa only [same] using inv.subs n live
  · exact .inr active

theorem moveSub (inv : EventsInv t v) {n : Nat} {k : EventList}
    (live : v.life (.sub t n) = .live)
    (target : k = .waiters (.signal (v.signal (.sub t n))) ∨ k = .immediate ∨ k = .pending t) :
    EventsInv t { v with el := Function.update v.el (.sub t n) (some k) } := by
  refine { inv with
    owned := fun e on => ?_
    live := fun e on => ?_
    located := fun f member => (inv.located f member).mono
      (.inl (Function.update_of_ne (inv.auto_ne_sub member n) _ _))
    subs := fun m live => ?_ }
  · by_cases same : e = .sub t n
    · rw [same, EventId.owner]
    · exact inv.owned e (by simpa [same] using on)
  · by_cases same : e = .sub t n
    · rw [same]
      exact live
    · exact inv.live e (by simpa [same] using on)
  · by_cases same : m = n
    · simpa [same] using target
    · simpa [same] using inv.subs m live

theorem setTop (inv : EventsInv t v) {f g : Frame} {rest : List Frame}
    (frames : v.frames = f :: rest) (same : g.e = f.e)
    {el : EventId → Option EventList} {flags : EventId → EventFlag}
    {next : EventId → Option EventId} {stack : Option EventId}
    (others : ∀ e, e ≠ f.e → el e = v.el e) (flagged : ∀ e, e ≠ f.e → flags e = v.flags e)
    (waits : flags f.e ≠ .signal ∧ flags f.e ≠ .exiting) (located : Located t el g)
    (stacked : WeakStack next stack (g :: rest)) :
    EventsInv t { v with
      el := el
      flags := flags
      next := next
      stack := stack
      frames := g :: rest } := by
  have member : f ∈ v.frames := frames ▸ List.mem_cons_self
  obtain ⟨⟨n, auto⟩, live⟩ := inv.frame f member
  refine { inv with
    flagsAuto := fun k => ?_
    flagsSub := fun k => ?_
    flagsSelf := ?_
    owned := fun e on => ?_
    live := fun e on => ?_
    frame := fun h member => ?_
    nodup := ?_
    autoLive := fun k live => ?_
    lower := fun h rest' equal => ?_
    located := fun h member => ?_
    stack := stacked
    subs := fun k live => ?_ }
  · dsimp only
    by_cases equal : EventId.auto t k = f.e
    · rw [equal]
      exact waits
    · rw [flagged _ equal]
      exact inv.flagsAuto k
  · exact (flagged _ (by simp [auto])).trans (inv.flagsSub k)
  · dsimp only
    rw [flagged _ (by simp [auto])]
    exact inv.flagsSelf
  · by_cases equal : e = f.e
    · rw [equal, auto, EventId.owner]
    · exact inv.owned e (by simpa only [others e equal] using on)
  · by_cases equal : e = f.e
    · rw [equal]
      exact live
    · exact inv.live e (by simpa only [others e equal] using on)
  · rcases List.mem_cons.mp member with rfl | below
    · rw [same]
      exact ⟨⟨n, auto⟩, live⟩
    · exact inv.frame h (frames ▸ .tail _ below)
  · have nodup := inv.nodup
    simpa only [frames, List.map_cons, same] using nodup
  · obtain ⟨h, member, equal⟩ := inv.autoLive k live
    rw [frames] at member
    rcases List.mem_cons.mp member with rfl | below
    · exact ⟨g, .head _, same.trans equal⟩
    · exact ⟨h, .tail _ below, equal⟩
  · obtain ⟨rfl, rfl⟩ : g = h ∧ rest = rest' := by simpa using equal
    exact inv.lower f rest frames
  · rcases List.mem_cons.mp member with rfl | below
    · exact located
    · refine (inv.located h (frames ▸ .tail _ below)).mono (.inl ?_)
      exact others h.e (inv.fresh_below frames h below)
  · have different : EventId.sub t k ≠ f.e := by simp [auto]
    simpa only [others _ different] using inv.subs k live

theorem drop (inv : EventsInv t v) {f : Frame} {rest : List Frame}
    (frames : v.frames = f :: rest) {stack : Option EventId}
    (stacked : WeakStack v.next stack rest) :
    EventsInv t { v with
      el := Function.update v.el f.e none
      life := Function.update v.life f.e .dead
      stack := stack
      frames := rest } := by
  obtain ⟨⟨n, auto⟩, _⟩ := inv.frame f (frames ▸ List.mem_cons_self)
  have fresh := inv.fresh_below frames
  have kept : ∀ e, Function.update v.el f.e none e ≠ none → e ≠ f.e ∧ v.el e ≠ none :=
    fun _ on => Update.ne_of_ne on
  refine { inv with
    owned := fun e on => inv.owned e (kept e on).2
    live := fun e on => ?_
    frame := fun h member => ?_
    nodup := ?_
    autoLive := fun k live => ?_
    lower := fun h rest' equal k member => ?_
    located := fun h member => ?_
    stack := stacked
    subs := fun k live => ?_ }
  · dsimp only
    rw [Function.update_of_ne (kept e on).1]
    exact inv.live e (kept e on).2
  · dsimp only
    rw [Function.update_of_ne (fresh h member)]
    exact inv.frame h (frames ▸ .tail _ member)
  · have nodup := inv.nodup
    rw [frames, List.map_cons] at nodup
    exact nodup.of_cons
  · have different : EventId.auto t k ≠ f.e := by
      intro equal
      simp [equal] at live
    obtain ⟨h, member, equal⟩ := inv.autoLive k (by simpa [different] using live)
    rw [frames] at member
    rcases List.mem_cons.mp member with rfl | below
    · exact absurd equal.symm different
    · exact ⟨h, below, equal⟩
  · dsimp only at equal
    exact inv.lower f rest frames k (equal ▸ .tail _ member)
  · refine (inv.located h (frames ▸ .tail _ member)).mono (.inl ?_)
    exact Function.update_of_ne (fresh h member) _ _
  · have different : EventId.sub t k ≠ f.e := by simp [auto]
    dsimp only at live ⊢
    rw [Function.update_of_ne different] at live ⊢
    exact inv.subs k live

theorem begin (inv : EventsInv t v) {n : Nat} {call : Call} {pc : Pc} {saved : Option EventId}
    (unused : v.life (.auto t n) = .unused) (unplaced : pc.unplaced = true)
    (condition : ∀ f rest, v.frames = f :: rest → f.inCondition = true) :
    EventsInv t { v with
      frames := ⟨call, .auto t n, pc, saved⟩ :: v.frames
      life := Function.update v.life (.auto t n) .live
      next := Function.update v.next (.auto t n) none } := by
  have off : v.el (.auto t n) = none := by
    by_contra on
    have live := inv.live _ on
    simp [unused] at live
  have fresh : ∀ f ∈ v.frames, f.e ≠ .auto t n := by
    intro f member equal
    have live := (inv.frame f member).2
    simp [equal, unused] at live
  refine { inv with
    live := fun e on => ?_
    frame := fun h member => ?_
    nodup := ?_
    autoLive := fun k live => ?_
    lower := fun h rest equal g member => ?_
    located := fun h member => ?_
    stack := ?_
    subs := fun k live => inv.subs k (by simpa using live) }
  · have different : e ≠ .auto t n := by
      rintro rfl
      exact on off
    dsimp only
    rw [Function.update_of_ne different]
    exact inv.live e on
  · rcases List.mem_cons.mp member with rfl | below
    · exact ⟨⟨n, rfl⟩, by simp⟩
    · dsimp only
      rw [Function.update_of_ne (fresh h below)]
      exact inv.frame h below
  · rw [List.map_cons, List.nodup_cons]
    refine ⟨?_, inv.nodup⟩
    intro listed
    obtain ⟨f, member, equal⟩ := List.mem_map.mp listed
    exact fresh f member equal
  · by_cases same : k = n
    · exact ⟨_, .head _, by rw [same]⟩
    · obtain ⟨f, member, equal⟩ := inv.autoLive k (by simpa [same] using live)
      exact ⟨f, .tail _ member, equal⟩
  · obtain ⟨_, rfl⟩ : _ ∧ v.frames = rest := List.cons.inj equal
    cases older : v.frames with
    | nil => simp [older] at member
    | cons f rest' =>
        rw [older] at member
        rcases List.mem_cons.mp member with rfl | below
        · exact condition g rest' older
        · exact inv.lower f rest' older g below
  · rcases List.mem_cons.mp member with rfl | below
    · simpa [Located, unplaced] using off
    · exact inv.located h below
  · have onStack : pc.onStack = false := by cases pc <;> simp_all [Pc.unplaced, Pc.onStack]
    refine (weakStack_off onStack).mpr (inv.stack.congr ?_)
    intro f member
    exact Function.update_of_ne (fresh f member) _ _

theorem subscribe (inv : EventsInv t v) (n : Nat) (g : SignalId) :
    EventsInv t { v with
      el := Function.update v.el (.sub t n) (some (.waiters (.signal g)))
      life := Function.update v.life (.sub t n) .live
      next := Function.update v.next (.sub t n) none
      flags := Function.update v.flags (.sub t n) .signal
      signal := Function.update v.signal (.sub t n) g } := by
  have other : ∀ f ∈ v.frames, f.e ≠ .sub t n := fun f member => inv.auto_ne_sub member n
  refine { inv with
    flagsAuto := fun k => by simpa using inv.flagsAuto k
    flagsSub := fun k => ?_
    flagsSelf := by simpa using inv.flagsSelf
    owned := fun e on => ?_
    live := fun e on => ?_
    frame := fun f member => ?_
    autoLive := fun k live => inv.autoLive k (by simpa using live)
    located := fun f member => (inv.located f member).mono
      (.inl (Function.update_of_ne (other f member) _ _))
    stack := inv.stack.congr fun f member => Function.update_of_ne (other f member) _ _
    subs := fun k live => ?_ }
  · by_cases same : k = n
    · simp [same]
    · simpa [same] using inv.flagsSub k
  · by_cases same : e = .sub t n
    · rw [same, EventId.owner]
    · exact inv.owned e (by simpa [same] using on)
  · by_cases same : e = .sub t n
    · simp [same]
    · simpa [same] using inv.live e (by simpa [same] using on)
  · dsimp only
    rw [Function.update_of_ne (other f member)]
    exact inv.frame f member
  · by_cases same : k = n
    · simp [same]
    · simpa [same] using inv.subs k (by simpa [same] using live)

end EventsInv

end Libtcr
