import Libtcr.ThreadInvariant

/-! Every step keeps the invariant of every thread. -/

set_option autoImplicit false

namespace Libtcr

namespace ThreadInv

variable {t : Tid} {v : View}

private theorem away_of_not_running (inv : ThreadInv t v) (idle : v.running = false)
    (w : WorkerId) :
    v.place w = .away := by
  cases place : v.place w with
  | away => rfl
  | entering x =>
      have running := inv.occupied w x (.inl place)
      simp [idle] at running
  | on x =>
      have running := inv.occupied w x (.inr place)
      simp [idle] at running
  | freeing =>
      have exiting := (inv.freeing w place).1
      rcases inv.idle idle with ⟨newborn, _⟩ | ⟨executable, _⟩
      · simp [exiting, Status.newborn] at newborn
      · simp [exiting, Status.executable] at executable

private theorem running_of_status (inv : ThreadInv t v) (newborn : v.status.newborn = false)
    (executable : v.status.executable = false) : v.running = true := by
  cases running : v.running with
  | true => rfl
  | false =>
      rcases inv.idle running with ⟨contra, _⟩ | ⟨contra, _⟩
      · simp [newborn] at contra
      · simp [executable] at contra

private theorem self_of_executable (inv : ThreadInv t v) (status : v.status.executable = true) :
    v.el (.self t) = none := by
  cases self : v.el (.self t) with
  | none => rfl
  | some k =>
      rcases (inv.selfEvent k self).2 with ⟨posted, _⟩ | ⟨exiting, _⟩
      · simp [posted, Status.executable] at status
      · simp [exiting, Status.executable] at status

private theorem selfLive_of_executable (inv : ThreadInv t v) (status : v.status.executable = true) :
    v.life (.self t) = .live := by
  refine inv.selfLive ?_ ?_ <;> rintro equal <;> simp [equal, Status.executable] at status

private theorem place_update (inv : ThreadInv t v) {w : WorkerId} (present : v.place w ≠ .away)
    (place : Place) :
    Function.update v.place w place = Function.update (fun _ => .away) w place := by
  funext w'
  by_cases same : w' = w
  · simp [same]
  · rw [Function.update_of_ne same, Function.update_of_ne same]
    by_contra other
    exact same (inv.unique w' w other present)

theorem pending_self (inv : ThreadInv t v) {e : EventId} {u : Tid}
    (pending : v.el e = some (.pending u)) : u = t := by
  have placed : v.el e ≠ none := by simp [pending]
  have own := inv.owned e placed
  by_cases signal : v.flags e = .signal
  · obtain ⟨n, rfl⟩ := inv.sub_of_signal own signal
    simpa [pending] using inv.subs n (inv.live _ placed)
  · rcases inv.frame_of_event placed signal with ⟨f, member, rfl⟩ | rfl
    · have located := (inv.located f member).placed placed
      have home : f.call.home ≠ .pending u := by cases f.call <;> simp [Call.home]
      simpa [Placed, pending, Ne.symm home] using located
    · cases (inv.selfEvent _ pending).1

/-! ## Steps of other threads -/

theorem activate (inv : ThreadInv t v) {el : EventId → Option EventList}
    (moved : ∀ e, el e = v.el e ∨
      v.el e ≠ none ∧ (el e = some .immediate ∨ el e = some (.pending t)))
    (self : el (.self t) = v.el (.self t))
    (quiet : v.running = false → ∀ e, el e = some (.pending t) →
      v.el e = some (.pending t) ∨ v.flags e ≠ .signal ∧ v.stack ≠ none ∧ v.stack ≠ some e) :
    ThreadInv t { v with el := el } := by
  have off : ∀ e, el e = none ↔ v.el e = none := by
    intro e
    rcases moved e with same | ⟨on, active | active⟩
    · rw [same]
    · simp [active, on]
    · simp [active, on]
  refine { inv.toEventsInv.activate moved, inv with
    idle := fun idle => ?_
    selfEvent := fun k on => inv.selfEvent k (self ▸ on)
    freeing := fun w freeing => ⟨(inv.freeing w freeing).1, (off _).mpr (inv.freeing w freeing).2⟩
    delivered := fun w x f rest frames place => ?_
    sleep := fun idle e pending => ?_ }
  · rcases inv.idle idle with newborn | ⟨status, f, rest, frames, pc, on⟩
    · exact .inl newborn
    · exact .inr ⟨status, f, rest, frames, pc, mt (off f.e).mp on⟩
  · obtain ⟨y, equal, ⟨same, gone⟩ | ⟨sub, on⟩⟩ := inv.delivered w x f rest frames place
    · exact ⟨y, equal, .inl ⟨same, (off _).mpr gone⟩⟩
    · exact ⟨y, equal, .inr ⟨sub, mt (off _).mp on⟩⟩
  · rcases quiet idle e pending with old | new
    · exact inv.sleep idle e old
    · exact new

theorem wake (inv : ThreadInv t v) (woken : EventId → Bool)
    (queued : ∀ e, woken e = true → ∃ k, v.el e = some k ∧ k.wakes = true) :
    ThreadInv t { v with el := fun e => if woken e then some .immediate else v.el e } := by
  refine inv.activate ?_ ?_ ?_
  · intro e
    cases chosen : woken e with
    | true =>
        obtain ⟨k, on, _⟩ := queued e chosen
        exact .inr ⟨by simp [on], .inl (by simp)⟩
    | false => exact .inl (by simp)
  · cases chosen : woken (.self t) with
    | true =>
        obtain ⟨k, on, wakes⟩ := queued _ chosen
        rw [(inv.selfEvent k on).1] at wakes
        cases wakes
    | false => simp
  · intro _ e pending
    cases chosen : woken e with
    | true => simp [chosen] at pending
    | false => exact .inl (by simpa [chosen] using pending)

theorem fire (inv : ThreadInv t v) (g : SignalId) (fires : EventId → Nat) :
    ThreadInv t { v with
      el := fun e => if v.el e = some (.waiters (.signal g)) then some .immediate else v.el e
      fires := fires } := by
  have activated : ThreadInv t { v with
      el := fun e => if v.el e = some (.waiters (.signal g)) then some .immediate
        else v.el e } := by
    refine inv.activate ?_ ?_ ?_
    · intro e
      by_cases armed : v.el e = some (.waiters (.signal g))
      · exact .inr ⟨by simp [armed], .inl (by simp [armed])⟩
      · exact .inl (by simp [armed])
    · by_cases armed : v.el (.self t) = some (.waiters (.signal g))
      · cases (inv.selfEvent _ armed).1
      · simp [armed]
    · intro _ e pending
      by_cases armed : v.el e = some (.waiters (.signal g))
      · simp [armed] at pending
      · exact .inl (by simpa [armed] using pending)
  exact { activated with }

theorem grant (inv : ThreadInv t v) (e : EventId) (m : MutexId) (mutex : MutexId → Share)
    (queued : v.el e = some (.waiters (.mutex m))) :
    ThreadInv t { v with
      el := Function.update v.el e (some .immediate)
      mutex := mutex } := by
  have activated : ThreadInv t { v with el := Function.update v.el e (some .immediate) } := by
    refine inv.activate ?_ ?_ ?_
    · intro x
      by_cases same : x = e
      · exact .inr ⟨by simp [same, queued], .inl (by simp [same])⟩
      · exact .inl (by simp [same])
    · by_cases same : EventId.self t = e
      · cases (inv.selfEvent _ (same ▸ queued)).1
      · simp [same]
    · intro _ x pending
      by_cases same : x = e
      · simp [same] at pending
      · exact .inl (by simpa [same] using pending)
  exact { activated with }

theorem queue (inv : ThreadInv t v) (e : EventId) (k : EventList) (on : v.el e = some k)
    (stays : v.flags e ≠ .exiting)
    (refused : v.running = true ∨
      (v.flags e ≠ .signal ∧ v.stack ≠ none ∧ v.stack ≠ some e)) :
    ThreadInv t { v with el := Function.update v.el e (some (.pending t)) } := by
  refine inv.activate ?_ ?_ ?_
  · intro x
    by_cases same : x = e
    · exact .inr ⟨by simp [same, on], .inr (by simp [same])⟩
    · exact .inl (by simp [same])
  · by_cases same : EventId.self t = e
    · -- the start event finds its thread not running, with an empty event stack
      subst e
      rcases (inv.selfEvent k on).2 with ⟨posted, _, idle⟩ | ⟨_, exiting, _⟩
      · have empty := (inv.newborn (by simp [posted, Status.newborn])).2.1
        rcases refused with running | ⟨_, present, _⟩
        · simp [idle] at running
        · exact absurd empty present
      · exact absurd exiting stays
    · simp [same]
  · intro idle x pending
    by_cases same : x = e
    · subst x
      exact .inr (refused.resolve_left (by simp [idle]))
    · exact .inl (by simpa [same] using pending)

theorem cancel (inv : ThreadInv t v) (n : Nat) :
    ThreadInv t { v with
      el := Function.update v.el (.sub t n) none
      life := Function.update v.life (.sub t n) .dead } := by
  have other : ∀ f ∈ v.frames, Function.update v.el (.sub t n) none f.e = v.el f.e :=
    fun f member => Function.update_of_ne (inv.auto_ne_sub member n) _ _
  have kept : ∀ e, Function.update v.el (.sub t n) none e ≠ none →
      e ≠ .sub t n ∧ v.el e ≠ none :=
    fun _ on => Update.ne_of_ne on
  refine { inv with
    owned := fun e on => inv.owned e (kept e on).2
    live := fun e on => ?_
    frame := fun f member => ?_
    autoLive := fun k live => inv.autoLive k (by simpa using live)
    located := fun f member => (inv.located f member).mono (.inl (other f member))
    subs := fun k live => ?_
    idle := fun idle => ?_
    newborn := fun newborn => ?_
    selfLive := fun used alive => by simpa using inv.selfLive used alive
    selfEvent := fun k on => inv.selfEvent k (by simpa using on)
    freeing := fun w freeing => ?_
    delivered := fun w x f rest frames place => ?_
    sleep := fun idle e pending => ?_ }
  · dsimp only
    rw [Function.update_of_ne (kept e on).1]
    exact inv.live e (kept e on).2
  · refine ⟨(inv.frame f member).1, ?_⟩
    dsimp only
    rw [Function.update_of_ne (inv.auto_ne_sub member n)]
    exact (inv.frame f member).2
  · have different : k ≠ n := by
      rintro rfl
      simp at live
    simpa [different] using inv.subs k (by simpa [different] using live)
  · rcases inv.idle idle with newborn | ⟨status, f, rest, frames, pc, on⟩
    · exact .inl newborn
    · have member : f ∈ v.frames := frames ▸ List.mem_cons_self
      exact .inr ⟨status, f, rest, frames, pc, by simpa only [other f member] using on⟩
  · refine ⟨(inv.newborn newborn).1, (inv.newborn newborn).2.1, fun k => ?_⟩
    by_cases same : k = n
    · simp [same]
    · simpa [same] using (inv.newborn newborn).2.2 k
  · obtain ⟨exiting, off⟩ := inv.freeing w freeing
    exact ⟨exiting, by simpa using off⟩
  · have member : f ∈ v.frames := frames ▸ List.mem_cons_self
    simpa only [Delivered, other f member] using inv.delivered w x f rest frames place
  · have different : e ≠ .sub t n := by
      rintro rfl
      simp at pending
    exact inv.sleep idle e (by simpa [different] using pending)

theorem born (inv : ThreadInv t v) (unused : v.status = .unused) :
    ThreadInv t { v with
      status := .created
      life := Function.update v.life (.self t) .live
      next := Function.update v.next (.self t) none } := by
  have empty := inv.newborn (by simp [unused, Status.newborn])
  have idle := inv.unborn (.inl unused)
  have away := inv.away_of_not_running idle
  refine { inv with
    live := fun e on => ?_
    frame := fun f member => by simp [empty.1] at member
    autoLive := fun n live => inv.autoLive n (by simpa using live)
    stack := by simp [empty.1, WeakStack]
    subs := fun n live => inv.subs n (by simpa using live)
    idle := fun _ => .inl ⟨rfl, empty.1⟩
    entering := fun w x entering => by simp [away w] at entering
    executing := fun w x on => by simp [away w] at on
    newborn := fun _ => ⟨empty.1, empty.2.1, fun n => by simpa using empty.2.2 n⟩
    unborn := fun _ => idle
    selfLive := fun _ _ => by simp
    selfEvent := fun k on => ?_
    freeing := fun w freeing => by simp [away w] at freeing }
  · by_cases same : e = .self t
    · simp [same]
    · simpa [same] using inv.live e on
  · rcases (inv.selfEvent k on).2 with ⟨posted, _⟩ | ⟨exiting, _⟩
    · simp [unused] at posted
    · simp [unused] at exiting

private theorem queueSelf (inv : ThreadInv t v) (live : v.life (.self t) = .live) (flag : EventFlag)
    (event : flag ≠ .signal) :
    EventsInv t { v with
      el := Function.update v.el (.self t) (some .immediate)
      flags := Function.update v.flags (.self t) flag } := by
  refine { inv with
    flagsAuto := fun n => by simpa using inv.flagsAuto n
    flagsSub := fun n => by simpa using inv.flagsSub n
    flagsSelf := by simpa using event
    owned := fun e on => ?_
    live := fun e on => ?_
    located := fun f member => (inv.located f member).mono
      (.inl (Function.update_of_ne (inv.auto_ne_self member) _ _))
    subs := fun n live => by simpa using inv.subs n live }
  · by_cases same : e = .self t
    · simp [same, EventId.owner]
    · exact inv.owned e (by simpa [same] using on)
  · by_cases same : e = .self t
    · simpa [same] using live
    · exact inv.live e (by simpa [same] using on)

theorem post (inv : ThreadInv t v) (created : v.status = .created) :
    ThreadInv t { v with
      status := .posted
      el := Function.update v.el (.self t) (some .immediate)
      flags := Function.update v.flags (.self t) .ready } := by
  have empty := inv.newborn (by simp [created, Status.newborn])
  have idle := inv.unborn (.inr created)
  have away := inv.away_of_not_running idle
  have live := inv.selfLive (by simp [created]) (by simp [created])
  have events := inv.queueSelf live .ready (by simp)
  refine { events, inv with
    idle := fun _ => .inl ⟨rfl, empty.1⟩
    entering := fun w x entering => by simp [away w] at entering
    executing := fun w x on => by simp [away w] at on
    newborn := fun _ => empty
    unborn := fun _ => idle
    selfLive := fun _ _ => live
    selfEvent := fun k on => ?_
    freeing := fun w freeing => by simp [away w] at freeing
    delivered := fun w x f rest frames => by simp [empty.1] at frames
    sleep := fun _ e pending => ?_ }
  · simp only [Function.update_self, Option.some.injEq] at on
    exact ⟨on.symm, .inl ⟨rfl, by simp, idle⟩⟩
  · by_cases same : e = .self t
    · simp [same] at pending
    · have old := inv.sleep idle e (by simpa [same] using pending)
      exact absurd empty.2.1 old.2.1

/-! ## Being selected -/

theorem select (inv : ThreadInv t v) (idle : v.running = false) (w : WorkerId) (x : EventId)
    (owned : x.owner = t) {el : EventId → Option EventList}
    (events : EventsInv t { v with el := el }) (self : el (.self t) = none)
    (ready : (v.status = .posted ∧ v.frames = []) ∨ v.status.executable = true ∧
      ∃ f rest, v.frames = f :: rest ∧ f.pc = .asleep ∧ Delivered t el f (some x)) :
    ThreadInv t { v with
      running := true
      el := el
      place := Function.update v.place w (.entering (some x)) } := by
  have away := inv.away_of_not_running idle
  have only : ∀ w' p, Function.update v.place w (.entering (some x)) w' = p → p ≠ .away →
      w' = w ∧ p = .entering (some x) := by
    intro w' p placed present
    rcases Update.eq_cases placed with ⟨same, placed⟩ | ⟨_, placed⟩
    · exact ⟨same, placed.symm⟩
    · exact absurd (placed.symm.trans (away w')) present
  have known : v.status ≠ .unused ∧ v.status ≠ .created := by
    rcases ready with ⟨posted, _⟩ | ⟨executable, _⟩
    · simp [posted]
    · constructor <;> rintro equal <;> simp [equal, Status.executable] at executable
  refine { events, inv with
    unique := fun w₁ w₂ first second =>
      (only w₁ _ rfl first).1.trans (only w₂ _ rfl second).1.symm
    occupied := fun _ _ _ => rfl
    woken := fun w' y placed => ?_
    idle := fun running => by simp at running
    entering := fun _ _ _ => ?_
    executing := fun w' y on => by cases (only w' _ on (by simp)).2
    unborn := fun unborn => by simp [known] at unborn
    selfEvent := fun k on => by simp [self] at on
    freeing := fun w' freeing => by cases (only w' _ freeing (by simp)).2
    delivered := fun w' y g rest' frames place => ?_
    sleep := fun running => by simp at running }
  · rcases placed with entering | on
    · cases (only w' _ entering (by simp)).2
      exact owned
    · cases (only w' _ on (by simp)).2
  · rcases ready with posted | ⟨status, f, rest, frames, pc, _⟩
    · exact .inl posted
    · exact .inr ⟨status, f, rest, frames, pc⟩
  · rcases place with entering | ⟨on, _⟩
    · cases (only w' _ entering (by simp)).2
      rcases ready with ⟨_, empty⟩ | ⟨_, f, rest, equal, _, delivered⟩
      · simp [empty] at frames
      · obtain ⟨rfl, _⟩ := List.cons.inj (equal.symm.trans frames)
        exact delivered
    · cases (only w' _ on (by simp)).2

theorem selectSignal (inv : ThreadInv t v) (w : WorkerId) {e : EventId} {k : EventList}
    (owned : e.owner = t) (on : v.el e = some k) (signal : v.flags e = .signal)
    (idle : v.running = false) :
    ThreadInv t { v with
      running := true
      el := Function.update v.el e (some (.waiters (.signal (v.signal e))))
      place := Function.update v.place w (.entering (some e)) } := by
  obtain ⟨n, rfl⟩ := inv.sub_of_signal owned signal
  have live : v.life (.sub t n) = .live := inv.live _ (by simp [on])
  have grown : v.status.newborn ≠ true := fun newborn => (inv.newborn newborn).2.2 n live
  obtain ⟨newborn, _⟩ | ⟨status, f, rest, frames, pc, placed⟩ := inv.idle idle
  · exact absurd newborn grown
  refine inv.select idle w _ owned (inv.moveSub live (.inl rfl)) ?_
    (.inr ⟨status, f, rest, frames, pc, .sub t n, rfl, .inr ⟨⟨n, rfl⟩, ?_⟩⟩)
  · simpa using inv.self_of_executable status
  · have different := inv.auto_ne_sub (frames ▸ List.mem_cons_self : f ∈ v.frames) n
    rwa [Function.update_of_ne different]

private theorem clearSelf (inv : ThreadInv t v) :
    EventsInv t { v with el := Function.update v.el (.self t) none } := by
  have kept : ∀ e, Function.update v.el (.self t) none e ≠ none → v.el e ≠ none := by
    intro e on
    by_cases same : e = .self t
    · simp [same] at on
    · simpa [same] using on
  exact { inv with
    owned := fun e on => inv.owned e (kept e on)
    live := fun e on => inv.live e (kept e on)
    located := fun f member => (inv.located f member).mono
      (.inl (Function.update_of_ne (inv.auto_ne_self member) _ _))
    subs := fun n live => by simpa using inv.subs n live }

private theorem clearTop (inv : EventsInv t v) {f : Frame} {rest : List Frame}
    (frames : v.frames = f :: rest) (pc : f.pc = .asleep) :
    EventsInv t { v with el := Function.update v.el f.e none } := by
  obtain ⟨⟨n, auto⟩, _⟩ := inv.frame f (frames ▸ List.mem_cons_self)
  have events : EventsInv t { v with
      el := Function.update v.el f.e none
      frames := f :: rest } :=
    inv.setTop frames rfl (fun e different => Function.update_of_ne different _ _)
      (fun _ _ => rfl) (by simpa only [auto] using inv.flagsAuto n)
      (by simp [Located, pc, Pc.unplaced]) (by simpa only [frames] using inv.stack)
  simpa only [frames] using events

theorem selectEvent (inv : ThreadInv t v) (w : WorkerId) {e : EventId} {k : EventList}
    (owned : e.owner = t) (on : v.el e = some k) (event : v.flags e ≠ .signal)
    (stays : v.flags e ≠ .exiting) (idle : v.running = false)
    (top : v.stack = none ∨ v.stack = some e) :
    ThreadInv t { v with
      running := true
      el := Function.update v.el e none
      place := Function.update v.place w (.entering (some e)) } := by
  rcases inv.frame_of_event (by simp [on]) event with ⟨g, member, equal⟩ | rfl
  · obtain ⟨_, empty⟩ | ⟨status, f, rest, frames, pc, _⟩ := inv.idle idle
    · simp [empty] at member
    obtain ⟨rfl, _⟩ := inv.top_of_stack frames (by simp [pc, Pc.onStack]) member equal top
    refine inv.select idle w _ owned (clearTop inv.toEventsInv frames pc) ?_
      (.inr ⟨status, f, rest, frames, pc, f.e, rfl, .inl ⟨rfl, by simp⟩⟩)
    rw [Function.update_of_ne (inv.auto_ne_self (frames ▸ List.mem_cons_self)).symm]
    exact inv.self_of_executable status
  · rcases (inv.selfEvent k on).2 with ⟨posted, _⟩ | ⟨_, exiting, _⟩
    · have empty := inv.newborn (by simp [posted, Status.newborn])
      exact inv.select idle w _ owned inv.clearSelf (by simp) (.inl ⟨posted, empty.1⟩)
    · exact absurd exiting stays

theorem reap (inv : ThreadInv t v) (w : WorkerId) {e : EventId} (owned : e.owner = t)
    (on : v.el e = some .immediate) (exiting : v.flags e = .exiting) :
    ThreadInv t { v with
      el := Function.update v.el e none
      place := Function.update v.place w .freeing } := by
  have own : e = .self t := by
    have placed : v.el e ≠ none := by simp [on]
    rcases inv.frame_of_event placed (by simp [exiting]) with ⟨f, member, equal⟩ | self
    · obtain ⟨n, auto⟩ := (inv.frame f member).1
      rw [← equal, auto] at exiting
      exact absurd exiting (inv.flagsAuto n).2
    · exact self
  subst own
  obtain ⟨_, ⟨_, ready, _⟩ | ⟨status, _, away⟩⟩ := inv.selfEvent _ on
  · simp [exiting] at ready
  have running := inv.running_of_status (by simp [status, Status.newborn])
    (by simp [status, Status.executable])
  have only : ∀ w' p, Function.update v.place w .freeing w' = p → p ≠ .away →
      w' = w ∧ p = .freeing := by
    intro w' p placed present
    rcases Update.eq_cases placed with ⟨same, placed⟩ | ⟨_, placed⟩
    · exact ⟨same, placed.symm⟩
    · exact absurd (placed.symm.trans (away w')) present
  refine { inv.clearSelf, inv with
    unique := fun w₁ w₂ first second =>
      (only w₁ _ rfl first).1.trans (only w₂ _ rfl second).1.symm
    occupied := fun _ _ _ => running
    woken := fun w' y placed => ?_
    idle := fun idle => by simp [running] at idle
    entering := fun w' y entering => by cases (only w' _ entering (by simp)).2
    executing := fun w' y on => by cases (only w' _ on (by simp)).2
    selfEvent := fun k on => by simp at on
    freeing := fun _ _ => ⟨status, by simp⟩
    delivered := fun w' y g rest' frames place => ?_
    sleep := fun idle => by simp [running] at idle }
  · rcases placed with entering | on
    · cases (only w' _ entering (by simp)).2
    · cases (only w' _ on (by simp)).2
  · rcases place with entering | ⟨on, _⟩
    · cases (only w' _ entering (by simp)).2
    · cases (only w' _ on (by simp)).2

/-- A worker leaves the thread, which stays marked as running: no worker will select
it again, because its own event is on no list, or carries `EF_EXITING`. -/
theorem abandoned (inv : ThreadInv t v) (running : v.running = true) (w : WorkerId)
    (here : v.place w ≠ .away)
    {status : Status} {el : EventId → Option EventList} {flags : EventId → EventFlag}
    {life : EventId → Life} (events : EventsInv t { v with el := el, flags := flags, life := life })
    (grown : status.newborn = false) (live : status ≠ .dead → life (.self t) = .live)
    (self : ∀ k, el (.self t) = some k → k = .immediate ∧ status = .exiting ∧
      flags (.self t) = .exiting) :
    ThreadInv t { v with
      status := status
      el := el
      flags := flags
      life := life
      place := Function.update v.place w .away } := by
  have away : ∀ w', Function.update v.place w .away w' = .away := by
    intro w'
    by_cases same : w' = w
    · simp [same]
    · rw [Function.update_of_ne same]
      by_contra present
      exact same (inv.unique w' w present here)
  have unborn : ¬(status = .unused ∨ status = .created) :=
    fun unborn => by simp [Status.newborn_of_unborn unborn] at grown
  refine { events, inv with
    unique := fun w₁ w₂ first => absurd (away w₁) first
    occupied := fun _ _ _ => running
    woken := fun w' y placed => by simp [away w'] at placed
    idle := fun idle => by simp [running] at idle
    entering := fun w' y entering => by simp [away w'] at entering
    executing := fun w' y on => by simp [away w'] at on
    newborn := fun newborn => by simp [grown] at newborn
    unborn := fun contra => absurd contra unborn
    selfLive := fun _ => live
    selfEvent := fun k on => ?_
    freeing := fun w' freeing => by simp [away w'] at freeing
    delivered := fun w' y f rest frames place => by simp [away w'] at place
    sleep := fun idle => by simp [running] at idle }
  obtain ⟨immediate, exiting, flag⟩ := self k on
  exact ⟨immediate, .inr ⟨exiting, flag, away⟩⟩

theorem freed (inv : ThreadInv t v) (w : WorkerId) (freeing : v.place w = .freeing) :
    ThreadInv t { v with
      status := .dead
      life := Function.update v.life (.self t) .dead
      place := Function.update v.place w .away } := by
  obtain ⟨status, off⟩ := inv.freeing w freeing
  have running := inv.running_of_status (by simp [status, Status.newborn])
    (by simp [status, Status.executable])
  have events : EventsInv t { v with life := Function.update v.life (.self t) .dead } := by
    refine { inv with
      live := fun e on => ?_
      frame := fun f member => ?_
      autoLive := fun n live => inv.autoLive n (by simpa using live)
      subs := fun n live => inv.subs n (by simpa using live) }
    · have different : e ≠ .self t := by
        rintro rfl
        exact on off
      simpa [different] using inv.live e on
    · simpa [inv.auto_ne_self member] using inv.frame f member
  exact inv.abandoned running w (by simp [freeing]) events rfl (by simp)
    (fun k on => by simp [off] at on)

end ThreadInv

/-! ## Steps of the thread itself -/

/-- The invariant while worker `w` executes the thread; `x` is the worker's
`woken_by_event`. -/
structure Executed (t : Tid) (v : View) (w : WorkerId) (x : Option EventId) : Prop
    extends EventsInv t v where
  place : v.place = Function.update (fun _ => .away) w (.on x)
  running : v.running = true
  status : v.status.executable = true
  self : v.el (.self t) = none
  selfLive : v.life (.self t) = .live
  woken : ∀ y, x = some y → y.owner = t
  awake : ∀ f rest, v.frames = f :: rest → f.pc ≠ .asleep
  delivered : ∀ f rest, v.frames = f :: rest → f.pc = .woke → Delivered t v.el f x

theorem ThreadInv.executed {t : Tid} {v : View} {w : WorkerId} {x : Option EventId}
    (inv : ThreadInv t v) (on : v.place w = .on x) : Executed t v w x := by
  have status := (inv.executing w x on).1
  exact { inv with
    place := by rw [← inv.place_update (by simp [on]), ← on, Function.update_eq_self]
    running := inv.occupied w x (.inr on)
    status := status
    self := inv.self_of_executable status
    selfLive := inv.selfLive_of_executable status
    woken := fun y equal => inv.woken w y (.inr (equal ▸ on))
    awake := (inv.executing w x on).2
    delivered := fun f rest frames pc => inv.delivered w x f rest frames (.inr ⟨on, pc⟩) }

theorem Turn.stays {v : View} {call : Call} {before after : Pc} (turned : Turn v call before after) :
    after.unplaced = before.unplaced ∧ after.onStack = before.onStack ∧ before ≠ .woke ∧
      after ≠ .woke ∧ after ≠ .asleep := by
  cases turned <;> simp [Pc.unplaced, Pc.onStack]

theorem Begins.unplaced {v : View} {call : Call} {pc : Pc} (begins : Begins v call pc) :
    pc.unplaced = true := by
  cases begins <;> rfl

theorem Dying.executable {before after : Status} (dies : Dying before after) :
    after.executable = true := by
  cases dies <;> rfl

namespace Executed

variable {t : Tid} {v : View} {w : WorkerId} {x : Option EventId}

private theorem status_ne (act : Executed t v w x) :
    v.status.newborn = false ∧ v.status ≠ .exiting := by
  have status := act.status
  cases equal : v.status <;> simp_all [Status.newborn, Status.executable]

theorem placed (act : Executed t v w x) {w' : WorkerId} {p : Place} (at_ : v.place w' = p)
    (present : p ≠ .away) : w' = w ∧ p = .on x := by
  rw [act.place] at at_
  rcases Update.eq_cases at_ with ⟨same, placed⟩ | ⟨_, placed⟩
  · exact ⟨same, placed.symm⟩
  · exact absurd placed.symm present

theorem threadInv (act : Executed t v w x) : ThreadInv t v := by
  obtain ⟨grown, notExiting⟩ := act.status_ne
  refine { act with
    unique := fun w₁ w₂ first second =>
      (act.placed rfl first).1.trans (act.placed rfl second).1.symm
    occupied := fun _ _ _ => act.running
    woken := fun w' y placed => ?_
    idle := fun idle => by simp [act.running] at idle
    entering := fun w' y entering => by cases (act.placed entering (by simp)).2
    executing := fun _ _ _ => ⟨act.status, act.awake⟩
    newborn := fun newborn => by simp [grown] at newborn
    unborn := fun unborn => by simp [Status.newborn_of_unborn unborn] at grown
    selfLive := fun _ _ => act.selfLive
    selfEvent := fun k on => by simp [act.self] at on
    freeing := fun w' freeing => by cases (act.placed freeing (by simp)).2
    delivered := fun w' y f rest frames place => ?_
    sleep := fun idle => by simp [act.running] at idle }
  · rcases placed with entering | on
    · cases (act.placed entering (by simp)).2
    · cases (act.placed on (by simp)).2
      exact act.woken y rfl
  · rcases place with entering | ⟨on, pc⟩
    · cases (act.placed entering (by simp)).2
    · cases (act.placed on (by simp)).2
      exact act.delivered f rest frames pc

theorem replace (act : Executed t v w x) (y : Option EventId) :
    Function.update v.place w (.on y) = Function.update (fun _ => .away) w (.on y) := by
  rw [act.place, Function.update_idem]

private theorem placed_top (act : Executed t v w x) {f : Frame} {rest : List Frame}
    (frames : v.frames = f :: rest) (pc : f.pc.unplaced = false) (awake : f.pc ≠ .woke) :
    Placed t v.el f.call f.e := by
  have located := act.located f (frames ▸ List.mem_cons_self)
  rw [Located, if_neg (by simp [pc])] at located
  rcases located with placed | ⟨_, asleep | woke⟩
  · exact placed
  · exact absurd asleep (act.awake f rest frames)
  · exact absurd woke awake

theorem setTop (act : Executed t v w x) {f g : Frame} {rest : List Frame}
    (frames : v.frames = f :: rest) (same : g.e = f.e)
    {el : EventId → Option EventList} {flags : EventId → EventFlag}
    {next : EventId → Option EventId} {stack : Option EventId} {place : WorkerId → Place}
    {y : Option EventId} (others : ∀ e, e ≠ f.e → el e = v.el e)
    (flagged : ∀ e, e ≠ f.e → flags e = v.flags e)
    (waits : flags f.e ≠ .signal ∧ flags f.e ≠ .exiting) (located : Located t el g)
    (stacked : WeakStack next stack (g :: rest))
    (moved : place = Function.update (fun _ => .away) w (.on y))
    (woken : ∀ z, y = some z → z.owner = t) (awake : g.pc ≠ .asleep)
    (delivered : g.pc = .woke → Delivered t el g y) :
    Executed t { v with
      el := el
      flags := flags
      next := next
      stack := stack
      place := place
      frames := g :: rest } w y := by
  have member : f ∈ v.frames := frames ▸ List.mem_cons_self
  refine { act.toEventsInv.setTop frames same others flagged waits located stacked, act with
    place := moved
    self := (others _ (act.auto_ne_self member).symm).trans act.self
    woken := woken
    awake := fun h rest' equal => ?_
    delivered := fun h rest' equal pc => ?_ }
  · obtain ⟨rfl, _⟩ := List.cons.inj equal
    exact awake
  · obtain ⟨rfl, _⟩ := List.cons.inj equal
    exact delivered pc

theorem setPc (act : Executed t v w x) {f : Frame} {rest : List Frame}
    (frames : v.frames = f :: rest) {pc : Pc} (unplaced : pc.unplaced = f.pc.unplaced)
    (onStack : pc.onStack = f.pc.onStack) (before : f.pc ≠ .woke)
    (after : pc ≠ .woke) (awake : pc ≠ .asleep) :
    Executed t { v with frames := { f with pc := pc } :: rest } w x := by
  have member : f ∈ v.frames := frames ▸ List.mem_cons_self
  obtain ⟨⟨n, auto⟩, _⟩ := act.frame f member
  have located := act.located f member
  have asleep := act.awake f rest frames
  refine act.setTop (g := { f with pc := pc }) frames rfl (fun _ _ => rfl) (fun _ _ => rfl)
    (by simpa only [auto] using act.flagsAuto n) ?_ ?_ act.place act.woken awake
    (fun woke => absurd woke after)
  · simpa [Located, unplaced, before, asleep, after, awake] using located
  · have stack := act.stack
    rw [frames] at stack
    exact stack.setPc rfl onStack

theorem drop (act : Executed t v w x) {f : Frame} {rest : List Frame}
    (frames : v.frames = f :: rest) {stack : Option EventId} {place : WorkerId → Place}
    {y : Option EventId} (stacked : WeakStack v.next stack rest)
    (moved : place = Function.update (fun _ => .away) w (.on y))
    (woken : ∀ z, y = some z → z.owner = t) :
    Executed t { v with
      el := Function.update v.el f.e none
      life := Function.update v.life f.e .dead
      stack := stack
      place := place
      frames := rest } w y := by
  have self := (act.auto_ne_self (frames ▸ List.mem_cons_self)).symm
  have condition : ∀ h rest', rest = h :: rest' → h.inCondition = true := by
    intro h rest' equal
    exact act.lower f rest frames h (equal ▸ .head _)
  refine { act.toEventsInv.drop frames stacked, act with
    place := moved
    self := by simpa [self] using act.self
    selfLive := by simpa [self] using act.selfLive
    woken := woken
    awake := fun h rest' equal pc => ?_
    delivered := fun h rest' equal pc => ?_ }
  · have contra := condition h rest' equal
    simp [Frame.inCondition, pc] at contra
  · have contra := condition h rest' equal
    simp [Frame.inCondition, pc] at contra

theorem begin (act : Executed t v w x) {n : Nat} {call : Call} {pc : Pc}
    {saved : Option EventId} (unused : v.life (.auto t n) = .unused)
    (unplaced : pc.unplaced = true)
    (condition : ∀ f rest, v.frames = f :: rest → f.inCondition = true) :
    Executed t { v with
      frames := ⟨call, .auto t n, pc, saved⟩ :: v.frames
      life := Function.update v.life (.auto t n) .live
      next := Function.update v.next (.auto t n) none } w x := by
  refine { act.toEventsInv.begin unused unplaced condition, act with
    selfLive := by simpa using act.selfLive
    awake := fun h rest equal => ?_
    delivered := fun h rest equal woke => ?_ }
  · obtain ⟨rfl, _⟩ := List.cons.inj equal
    rintro rfl
    simp [Pc.unplaced] at unplaced
  · obtain ⟨rfl, _⟩ := List.cons.inj equal
    dsimp only at woke
    simp [woke, Pc.unplaced] at unplaced

/-- The event of the thread's top frame, unless a signal woke it, is off its list. -/
theorem off_of_woke (act : Executed t v w x) {f : Frame} {rest : List Frame}
    (frames : v.frames = f :: rest) (pc : f.pc = .woke) (woken : x = some f.e) :
    v.el f.e = none := by
  obtain ⟨y, equal, ⟨_, off⟩ | ⟨⟨n, sub⟩, _⟩⟩ := act.delivered f rest frames pc
  · exact off
  · have same : f.e = y := Option.some.inj (woken.symm.trans equal)
    exact absurd (same.trans sub) (act.auto_ne_sub (frames ▸ List.mem_cons_self) n)

private theorem stack_below (act : Executed t v w x) {f : Frame} {rest : List Frame}
    (frames : v.frames = f :: rest) (pc : f.pc.onStack = true) :
    WeakStack v.next (v.next f.e) rest := by
  have stack := act.stack
  rw [frames, weakStack_on pc] at stack
  exact stack.2.2

private theorem stack_above (act : Executed t v w x) {f : Frame} {rest : List Frame}
    (frames : v.frames = f :: rest) (pc : f.pc.onStack = false) :
    WeakStack v.next v.stack rest := by
  have stack := act.stack
  rwa [frames, weakStack_off pc] at stack

theorem enqueue (act : Executed t v w x) {f : Frame} {rest : List Frame} {flag : EventFlag}
    (frames : v.frames = f :: rest) (pc : f.pc = .prep)
    (waits : flag = .ready ∨ flag = .priority) :
    Executed t { v with
      el := Function.update v.el f.e (some f.call.home)
      flags := Function.update v.flags f.e flag
      frames := { f with pc := .queued } :: rest } w x := by
  refine act.setTop (g := { f with pc := .queued }) frames rfl
    (fun e different => Function.update_of_ne different _ _)
    (fun e different => Function.update_of_ne different _ _) ?_
    (by simp [Located, Placed, Pc.unplaced]) ?_ act.place act.woken (by simp) (by simp)
  · rcases waits with rfl | rfl <;> simp
  · exact (weakStack_off rfl).mpr (act.stack_above frames (by simp [pc, Pc.onStack]))

theorem push (act : Executed t v w x) {f : Frame} {rest : List Frame}
    (frames : v.frames = f :: rest) (pc : f.pc = .queued) :
    Executed t { v with
      next := Function.update v.next f.e v.stack
      stack := some f.e
      frames := { f with pc := .pushed, saved := v.stack } :: rest } w x := by
  obtain ⟨⟨n, auto⟩, _⟩ := act.frame f (frames ▸ List.mem_cons_self)
  have placed := act.placed_top frames (by simp [pc, Pc.unplaced]) (by simp [pc])
  have stack := act.stack
  rw [frames] at stack
  exact act.setTop (g := { f with pc := .pushed, saved := v.stack }) frames rfl
    (fun _ _ => rfl) (fun _ _ => rfl) (by simpa only [auto] using act.flagsAuto n)
    (by simpa [Located, Pc.unplaced] using placed)
    (stack.push (by simp [pc, Pc.onStack]) rfl rfl (act.fresh_below frames))
    act.place act.woken (by simp) (by simp)

theorem prepare (act : Executed t v w x) {f : Frame} {rest : List Frame}
    (frames : v.frames = f :: rest) (pc : f.pc = .prep) :
    Executed t { v with
      el := Function.update v.el f.e (some f.call.home)
      flags := Function.update v.flags f.e .ready
      next := Function.update v.next f.e v.stack
      stack := some f.e
      place := Function.update v.place w (.on none)
      frames := { f with pc := f.call.afterPrepare, saved := v.stack } :: rest } w none := by
  have stack := act.stack
  rw [frames] at stack
  have unplaced : f.call.afterPrepare.unplaced = false := by cases f.call <;> rfl
  refine act.setTop (g := { f with pc := f.call.afterPrepare, saved := v.stack }) frames rfl
    (fun e different => Function.update_of_ne different _ _)
    (fun e different => Function.update_of_ne different _ _) (by simp)
    (by simp [Located, unplaced, Placed])
    (stack.push (by simp [pc, Pc.onStack]) rfl ?_ (act.fresh_below frames))
    (act.replace none) (by simp) ?_ ?_
  all_goals cases f.call <;> simp [Call.afterPrepare, Pc.onStack]

theorem turn (act : Executed t v w x) {f : Frame} {rest : List Frame} {pc : Pc}
    (frames : v.frames = f :: rest) (turned : Turn v f.call f.pc pc) :
    Executed t { v with frames := { f with pc := pc } :: rest } w x := by
  obtain ⟨unplaced, onStack, before, after, awake⟩ := turned.stays
  exact act.setPc frames unplaced onStack before after awake

theorem ret (act : Executed t v w x) {f : Frame} {rest : List Frame}
    (frames : v.frames = f :: rest) (unplaced : f.pc.unplaced = true) :
    Executed t { v with
      frames := rest
      life := Function.update v.life f.e .dead } w x := by
  have off := (act.located f (frames ▸ List.mem_cons_self)).unplaced unplaced
  have onStack : f.pc.onStack = false := by
    revert unplaced
    cases f.pc <;> simp [Pc.unplaced, Pc.onStack]
  have dropped := act.drop frames (act.stack_above frames onStack) act.place act.woken
  rwa [← off, Function.update_eq_self] at dropped

theorem sleep (act : Executed t v w x) {f : Frame} {rest : List Frame}
    (frames : v.frames = f :: rest) (pc : f.pc = .pushed)
    (nothing : ∀ e, v.el e = some (.pending t) →
      v.flags e ≠ .signal ∧ v.stack ≠ none ∧ v.stack ≠ some e) :
    ThreadInv t { v with
      running := false
      place := Function.update v.place w .away
      frames := { f with pc := .asleep } :: rest } := by
  obtain ⟨⟨n, auto⟩, _⟩ := act.frame f (frames ▸ List.mem_cons_self)
  have placed := act.placed_top frames (by simp [pc, Pc.unplaced]) (by simp [pc])
  have away : ∀ w', Function.update v.place w .away w' = .away := by
    intro w'
    rw [act.place, Function.update_idem]
    by_cases same : w' = w <;> simp [same]
  obtain ⟨grown, notExiting⟩ := act.status_ne
  have stack := act.stack
  rw [frames] at stack
  have events : EventsInv t { v with frames := { f with pc := .asleep } :: rest } :=
    act.toEventsInv.setTop (g := { f with pc := .asleep }) frames rfl (fun _ _ => rfl)
      (fun _ _ => rfl) (by simpa only [auto] using act.flagsAuto n)
      (by simpa [Located, Pc.unplaced] using .inl placed)
      (stack.setPc rfl (by simp [pc, Pc.onStack]))
  refine { events with
    unique := fun w₁ w₂ first => absurd (away w₁) first
    occupied := fun w' y placed => by simp [away w'] at placed
    woken := fun w' y placed => by simp [away w'] at placed
    idle := fun _ => .inr ⟨act.status, _, rest, rfl, rfl, ?_⟩
    entering := fun w' y entering => by simp [away w'] at entering
    executing := fun w' y on => by simp [away w'] at on
    newborn := fun newborn => by simp [grown] at newborn
    unborn := fun _ => rfl
    selfLive := fun _ _ => act.selfLive
    selfEvent := fun k on => by simp [act.self] at on
    freeing := fun w' freeing => by simp [away w'] at freeing
    delivered := fun w' y g rest' _ place => by simp [away w'] at place
    sleep := fun _ => nothing }
  rcases placed with on | on | on <;> simp [on]

theorem resumeEvent (act : Executed t v w x) {f : Frame} {rest : List Frame} {e : EventId}
    (frames : v.frames = f :: rest) (pc : f.pc = .pushed)
    (pending : v.el e = some (.pending t)) (event : v.flags e ≠ .signal)
    (first : v.stack = none ∨ v.stack = some e) :
    Executed t { v with
      el := Function.update v.el e none
      place := Function.update v.place w (.on (some e))
      frames := { f with pc := .woke } :: rest } w (some e) := by
  have placed : v.el e ≠ none := by simp [pending]
  rcases act.frame_of_event placed event with ⟨g, member, equal⟩ | rfl
  · obtain ⟨rfl, _⟩ := act.top_of_stack frames (by simp [pc, Pc.onStack]) member equal first
    obtain ⟨⟨n, auto⟩, _⟩ := act.frame f (frames ▸ List.mem_cons_self)
    have stack := act.stack
    rw [frames] at stack
    refine act.setTop (g := { f with pc := .woke }) frames rfl
      (fun e different => Function.update_of_ne different _ _) (fun _ _ => rfl)
      (by simpa only [auto] using act.flagsAuto n) (by simp [Located, Pc.unplaced])
      (stack.setPc rfl (by simp [pc, Pc.onStack])) (act.replace _) ?_ (by simp) ?_
    · rintro z ⟨⟩
      exact act.owned f.e placed
    · intro _
      exact ⟨f.e, rfl, .inl ⟨rfl, by simp⟩⟩
  · simp [act.self] at pending

theorem moveSub (act : Executed t v w x) {n : Nat} {k : EventList}
    (live : v.life (.sub t n) = .live)
    (target : k = .waiters (.signal (v.signal (.sub t n))) ∨ k = .immediate ∨ k = .pending t) :
    Executed t { v with el := Function.update v.el (.sub t n) (some k) } w x := by
  refine { act.toEventsInv.moveSub live target, act with
    self := by simpa using act.self
    delivered := fun f rest frames pc => ?_ }
  have different := act.auto_ne_sub (frames ▸ List.mem_cons_self : f ∈ v.frames) n
  simpa only [Delivered, Function.update_of_ne different] using act.delivered f rest frames pc

theorem resumeSignal (act : Executed t v w x) {f : Frame} {rest : List Frame} {e : EventId}
    (frames : v.frames = f :: rest) (pc : f.pc = .pushed)
    (pending : v.el e = some (.pending t)) (signal : v.flags e = .signal) :
    Executed t { v with
      el := Function.update v.el e (some (.waiters (.signal (v.signal e))))
      place := Function.update v.place w (.on (some e))
      frames := { f with pc := .woke } :: rest } w (some e) := by
  have on : v.el e ≠ none := by simp [pending]
  obtain ⟨n, rfl⟩ := act.sub_of_signal (act.owned e on) signal
  obtain ⟨⟨k, auto⟩, _⟩ := act.frame f (frames ▸ List.mem_cons_self)
  have placed := act.placed_top frames (by simp [pc, Pc.unplaced]) (by simp [pc])
  have stack := act.stack
  rw [frames] at stack
  have woke := act.setTop (g := { f with pc := .woke }) (y := some (.sub t n)) frames rfl
    (fun _ _ => rfl) (fun _ _ => rfl) (by simpa only [auto] using act.flagsAuto k)
    (by simpa [Located, Pc.unplaced] using .inl placed)
    (stack.setPc rfl (by simp [pc, Pc.onStack])) (act.replace _) ?_ (by simp) ?_
  · exact woke.moveSub (act.live _ on) (.inl rfl)
  · rintro z ⟨⟩
    rfl
  · intro _
    refine ⟨.sub t n, rfl, .inr ⟨⟨n, rfl⟩, ?_⟩⟩
    rcases placed with at_ | at_ | at_ <;> simp [at_]

/-- `tc_waitq_finish_wait` takes the event off its list and off the event stack. -/
theorem finish (act : Executed t v w x) {f : Frame} {rest : List Frame}
    (frames : v.frames = f :: rest) (pc : f.pc = .woke ∨ f.pc = .holds) :
    Executed t { v with
      el := Function.update v.el f.e none
      stack := v.next f.e
      place := Function.update v.place w (.on none)
      frames := { f with pc := .prep } :: rest } w none := by
  obtain ⟨⟨n, auto⟩, _⟩ := act.frame f (frames ▸ List.mem_cons_self)
  have onStack : f.pc.onStack = true := by rcases pc with pc | pc <;> simp [pc, Pc.onStack]
  exact act.setTop (g := { f with pc := .prep }) frames rfl
    (fun e different => Function.update_of_ne different _ _) (fun _ _ => rfl)
    (by simpa only [auto] using act.flagsAuto n) (by simp [Located, Pc.unplaced])
    ((weakStack_off rfl).mpr (act.stack_below frames onStack)) (act.replace none)
    (by simp) (by simp) (by simp)

theorem finishRequeue (act : Executed t v w x) {f : Frame} {rest : List Frame} {e : EventId}
    (frames : v.frames = f :: rest) (pc : f.pc = .woke ∨ f.pc = .holds) (owned : e.owner = t)
    (live : v.life e = .live) (signal : v.flags e = .signal) :
    Executed t { v with
      el := Function.update (Function.update v.el f.e none) e (some (.pending t))
      stack := v.next f.e
      place := Function.update v.place w (.on none)
      frames := { f with pc := .prep } :: rest } w none := by
  obtain ⟨n, rfl⟩ := act.sub_of_signal owned signal
  exact (act.finish frames pc).moveSub live (.inr (.inr rfl))

private theorem finishSignal (act : Executed t v w x) {f : Frame} {rest : List Frame}
    (frames : v.frames = f :: rest) (pc : f.pc = .woke ∨ f.pc = .holds) :
    Executed t { v with
      el := Function.update v.el f.e none
      frames := rest
      life := Function.update v.life f.e .dead } w x := by
  have stack := act.stack
  rw [frames] at stack
  have onStack : f.pc.onStack = true := by rcases pc with pc | pc <;> simp [pc, Pc.onStack]
  exact act.drop frames (stack.abandon onStack) act.place act.woken

theorem leaf (act : Executed t v w x) {f : Frame} {rest : List Frame} {y : Option EventId}
    (frames : v.frames = f :: rest) (pc : f.pc = .woke)
    (woken : ∀ z, y = some z → z.owner = t) :
    Executed t { v with
      el := Function.update v.el f.e none
      stack := v.next f.e
      place := Function.update v.place w (.on y)
      frames := rest
      life := Function.update v.life f.e .dead } w y :=
  act.drop frames (act.stack_below frames (by simp [pc, Pc.onStack])) (act.replace y) woken

theorem subscribe (act : Executed t v w x) (n : Nat) (g : SignalId)
    (condition : ∀ f rest, v.frames = f :: rest → f.inCondition = true) :
    Executed t { v with
      el := Function.update v.el (.sub t n) (some (.waiters (.signal g)))
      life := Function.update v.life (.sub t n) .live
      next := Function.update v.next (.sub t n) none
      flags := Function.update v.flags (.sub t n) .signal
      signal := Function.update v.signal (.sub t n) g
      place := Function.update v.place w (.on none) } w none := by
  refine { act.toEventsInv.subscribe n g, act with
    place := act.replace none
    self := by simpa using act.self
    selfLive := by simpa using act.selfLive
    woken := by simp
    delivered := fun f rest frames pc => ?_ }
  have contra := condition f rest frames
  simp [Frame.inCondition, pc] at contra

end Executed

theorem ThreadInv.enter {t : Tid} {v : View} {w : WorkerId} {x : Option EventId} {f : Frame}
    {rest : List Frame} (inv : ThreadInv t v) (entering : v.place w = .entering x)
    (frames : v.frames = f :: rest) :
    Executed t { v with
      place := Function.update v.place w (.on x)
      frames := { f with pc := .woke } :: rest } w x := by
  obtain ⟨_, empty⟩ | ⟨status, f', rest', equal, pc⟩ := inv.entering w x entering
  · simp [empty] at frames
  obtain ⟨rfl, rfl⟩ := List.cons.inj (equal.symm.trans frames)
  obtain ⟨⟨n, auto⟩, _⟩ := inv.frame f' (frames ▸ List.mem_cons_self)
  have running := inv.occupied w x (.inl entering)
  have stack := inv.stack
  rw [frames] at stack
  have located := inv.located f' (frames ▸ List.mem_cons_self)
  have events : EventsInv t { v with frames := { f' with pc := .woke } :: rest' } :=
    inv.toEventsInv.setTop (g := { f' with pc := .woke }) frames rfl (fun _ _ => rfl)
      (fun _ _ => rfl) (by simpa only [auto] using inv.flagsAuto n)
      (by simpa [Located, pc, Pc.unplaced] using located)
      (stack.setPc rfl (by simp [pc, Pc.onStack]))
  refine { events with
    place := inv.place_update (by simp [entering]) _
    running := running
    status := status
    self := inv.self_of_executable status
    selfLive := inv.selfLive_of_executable status
    woken := fun y equal => inv.woken w y (.inl (equal ▸ entering))
    awake := fun h rest'' equal => ?_
    delivered := fun h rest'' equal _ => ?_ }
  · obtain ⟨rfl, _⟩ := List.cons.inj equal
    simp
  · obtain ⟨rfl, _⟩ := List.cons.inj equal
    exact inv.delivered w x f' rest' frames (.inl entering)

theorem ThreadInv.start {t : Tid} {v : View} {w : WorkerId} {x : Option EventId}
    (inv : ThreadInv t v) (entering : v.place w = .entering x) (empty : v.frames = [])
    (posted : v.status = .posted) :
    Executed t { v with
      place := Function.update v.place w (.on none)
      status := .alive } w none := by
  have running := inv.occupied w x (.inl entering)
  refine { inv with
    place := inv.place_update (by simp [entering]) _
    running := running
    status := rfl
    self := ?_
    selfLive := inv.selfLive (by simp [posted]) (by simp [posted])
    woken := by simp
    awake := fun f rest frames => by simp [empty] at frames
    delivered := fun f rest frames => by simp [empty] at frames }
  cases self : v.el (.self t) with
  | none => rfl
  | some k =>
      rcases (inv.selfEvent k self).2 with ⟨_, _, idle⟩ | ⟨exiting, _⟩
      · simp [running] at idle
      · simp [posted] at exiting

theorem View.InUserCode.condition {v : View} {w : WorkerId} {x : Option EventId}
    (user : v.InUserCode w x) (f : Frame) (rest : List Frame) (frames : v.frames = f :: rest) :
    f.inCondition = true := by
  rcases user.2.2 with empty | ⟨g, rest', equal, condition⟩
  · simp [empty] at frames
  · obtain ⟨rfl, _⟩ := List.cons.inj (equal.symm.trans frames)
    exact condition

theorem ViewStep.threadInv {t : Tid} {v v' : View} {kind : Kind} (step : ViewStep t v kind v')
    (inv : ThreadInv t v) : ThreadInv t v' := by
  cases step with
  | wake woken queued => exact inv.wake woken queued
  | fire g fires _ => exact inv.fire g fires
  | grant e m queued _ => exact inv.grant e m _ queued
  | share m after _ _ _ => exact { inv with }
  | cancel n _ => exact inv.cancel n
  | born unused => exact inv.born unused
  | post created _ => exact inv.post created
  | queue e k _ on _ stays refused => exact inv.queue e k on stays refused
  | selectSignal w e k owned on _ signal idle _ => exact inv.selectSignal w owned on signal idle
  | selectEvent w e k owned on _ event stays idle top _ =>
      exact inv.selectEvent w owned on event stays idle top
  | reap w e owned on exiting _ => exact inv.reap w owned on exiting
  | freed w freeing => exact inv.freed w freeing
  | enter w x f rest entering frames => exact (inv.enter entering frames).threadInv
  | start w x entering frames posted => exact (inv.start entering frames posted).threadInv
  | begin w x n call pc user unused begins =>
      exact ((inv.executed user.1).begin unused begins.unplaced user.condition).threadInv
  | enqueue w x f rest flag top pc _ waits =>
      exact ((inv.executed top.1).enqueue top.2 pc waits).threadInv
  | push w x f rest top pc => exact ((inv.executed top.1).push top.2 pc).threadInv
  | prepare w x f rest top pc _ => exact ((inv.executed top.1).prepare top.2 pc).threadInv
  | turn w x f rest pc top turned => exact ((inv.executed top.1).turn top.2 turned).threadInv
  | acquire w x f rest m top _ pc _ =>
      have act : Executed t { v with frames := { f with pc := .holds } :: rest } w x :=
        (inv.executed top.1).setPc top.2 (by simp [pc, Pc.unplaced])
          (by simp [pc, Pc.onStack]) (by simp [pc]) (by simp) (by simp)
      exact { act.threadInv with }
  | refused w x f rest rv top pc _ =>
      have act := inv.executed top.1
      have off := act.stack_above top.2 (by simp [pc, Pc.onStack])
      exact { (act.drop top.2 off act.place act.woken).threadInv with }
  | returnPlain w x f rest rv top unplaced _ _ =>
      exact { ((inv.executed top.1).ret top.2 unplaced).threadInv with }
  | returnLocked w x f rest m top unplaced _ _ =>
      exact { ((inv.executed top.1).ret top.2 unplaced).threadInv with }
  | sleep w x f rest top pc nothing => exact (inv.executed top.1).sleep top.2 pc nothing
  | resumeEvent w x f rest e top pc _ pending event first =>
      exact ((inv.executed top.1).resumeEvent top.2 pc pending event first).threadInv
  | resumeSignal w x f rest e top pc _ pending signal =>
      exact ((inv.executed top.1).resumeSignal top.2 pc pending signal).threadInv
  | finishExpected w x f rest top pc _ _ _ =>
      exact ((inv.executed top.1).finish top.2 pc).threadInv
  | finishRequeue w e f rest top pc _ owned live signal _ =>
      exact ((inv.executed top.1).finishRequeue top.2 pc owned live signal).threadInv
  | finishIgnored w e f rest top pc _ _ _ _ _ _ =>
      exact { ((inv.executed top.1).finishSignal top.2 (.inr pc)).threadInv with }
  | finishIntr w e f rest top pc _ _ _ _ _ =>
      exact { ((inv.executed top.1).finishSignal top.2 (.inl pc)).threadInv with }
  | leafDone w f rest rv top pc _ _ =>
      have act := inv.executed top.1
      have off := act.off_of_woke top.2 pc rfl
      have left := (act.leaf (y := none) top.2 pc (by simp)).threadInv
      rw [← off, Function.update_eq_self] at left
      exact { left with }
  | leafIntr w e after f rest top pc _ owned _ left =>
      have woken : ∀ z, after = some z → z.owner = t := by
        rintro z rfl
        simp at left
        exact left ▸ owned
      exact { ((inv.executed top.1).leaf top.2 pc woken).threadInv with }
  | subscribe w x n g user _ =>
      exact { ((inv.executed user.1).subscribe n g user.condition).threadInv with }
  | trylock w x m _ _ => exact { inv with }
  | unlock w x m after _ _ _ _ => exact { inv with }
  | dying w x status on frames dies =>
      have act := inv.executed on
      have left : Executed t { v with status := status } w x :=
        { act with status := dies.executable }
      exact left.threadInv
  | postExit w x on frames announced _ =>
      have act := inv.executed on
      refine inv.abandoned act.running w (by simp [on])
        { inv.queueSelf act.selfLive .exiting (by simp) with } rfl (fun _ => act.selfLive) ?_
      intro k equal
      have immediate : EventList.immediate = k := by simpa using equal
      exact ⟨immediate.symm, rfl, by simp⟩
  | exitMain w x on frames =>
      have act := inv.executed on
      refine inv.abandoned act.running w (by simp [on]) { inv with } act.status_ne.1
        (fun _ => act.selfLive) ?_
      intro k equal
      simp [act.self] at equal

end Libtcr
