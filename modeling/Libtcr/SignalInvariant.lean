import Libtcr.ThreadInvariantProperties

/-! The way of a signal from `tc_signal_fire` to `RV_INTR`, as a small machine for every
subscription: its event waits on the signal, is active, or has just woken its thread. -/

set_option autoImplicit false

namespace Libtcr

/-- The event is on one of the lists from which its thread is woken. -/
def Active (t : Tid) (v : View) (e : EventId) : Prop :=
  v.el e = some .immediate ∨ v.el e = some (.pending t)

/-- The event has woken its thread, and the sleeping call has not yet looked at it. -/
def InFlight (v : View) (e : EventId) : Prop :=
  ∃ w, v.place w = .entering (some e) ∨
    v.place w = .on (some e) ∧ ∃ f rest, v.frames = f :: rest ∧ f.pc = .woke

structure SameCounts (v v' : View) (e : EventId) : Prop where
  fires : v'.fires e = v.fires e
  interrupts : v'.interrupts e = v.interrupts e

/-- What a step can do to the subscription with event `e`. -/
inductive Delivery (t : Tid) (v v' : View) (e : EventId) : Kind → Prop where
  | quiet {kind : Kind} (life : v'.life e = v.life e) (counts : SameCounts v v' e)
      (active : Active t v' e ↔ Active t v e) (flight : InFlight v' e ↔ InFlight v e) :
      Delivery t v v' e kind
  | fired (life : v'.life e = v.life e) (fires : v'.fires e = v.fires e + 1)
      (interrupts : v'.interrupts e = v.interrupts e) (active : Active t v' e)
      (flight : InFlight v' e ↔ InFlight v e) : Delivery t v v' e .plain
  | delivered (life : v'.life e = v.life e) (counts : SameCounts v v' e) (active : Active t v e)
      (taken : ¬ Active t v' e) (flight : InFlight v' e) : Delivery t v v' e .plain
  | reported {kind : Kind} (life : v'.life e = v.life e) (fires : v'.fires e = v.fires e)
      (interrupts : v'.interrupts e = v.interrupts e + 1) (flight : InFlight v e)
      (done : ¬ InFlight v' e) (active : Active t v' e ↔ Active t v e) : Delivery t v v' e kind
  | requeued (life : v'.life e = v.life e) (counts : SameCounts v v' e) (flight : InFlight v e)
      (done : ¬ InFlight v' e) (active : Active t v' e) : Delivery t v v' e .plain
  | stale (life : v'.life e = v.life e) (counts : SameCounts v v' e) (active : Active t v' e) :
      Delivery t v v' e .staleRequeue
  | gone {kind : Kind} (used : v.life e ≠ .unused → v'.life e ≠ .unused)
      (dead : v'.life e ≠ .live) (counts : SameCounts v v' e)
      (active : Active t v' e → Active t v e) (flight : InFlight v' e → InFlight v e) :
      Delivery t v v' e kind
  | subscribed (unused : v.life e = .unused) (fires : v'.fires e = 0)
      (interrupts : v'.interrupts e = 0) (passive : ¬ Active t v' e) (done : ¬ InFlight v' e) :
      Delivery t v v' e .plain

section InFlight

variable {t : Tid} {v v' : View} {e : EventId} {w : WorkerId} {x : Option EventId}

theorem inFlight_on (place : v.place = Function.update (fun _ => .away) w (.on x)) :
    InFlight v e ↔ x = some e ∧ ∃ f rest, v.frames = f :: rest ∧ f.pc = .woke := by
  constructor
  · rintro ⟨w', flight⟩
    rw [place] at flight
    by_cases same : w' = w
    · rcases flight with entering | ⟨on, top⟩
      · simp [same] at entering
      · exact ⟨by simpa [same] using on, top⟩
    · simp [same] at flight
  · rintro ⟨rfl, top⟩
    exact ⟨w, .inr ⟨by simp [place], top⟩⟩

private theorem not_inFlight_stopped (inv : ThreadInv t v) (stopped : v.running = false) :
    ¬ InFlight v e := by
  rintro ⟨w, flight⟩
  have running := inv.occupied w (some e) (flight.imp_right And.left)
  simp [stopped] at running

private theorem not_inFlight_calm {place : WorkerId → Place} (calm : ∀ w y, place w ≠ .entering y)
    (same : v.place = place) (awake : ∀ f rest, v.frames = f :: rest → f.pc ≠ .woke) :
    ¬ InFlight v e := by
  rintro ⟨w, entering | ⟨_, f, rest, frames, pc⟩⟩
  · exact calm w (some e) (same ▸ entering)
  · exact awake f rest frames pc

end InFlight

theorem Executed.moved {t : Tid} {v : View} {w : WorkerId} {x : Option EventId}
    (act : Executed t v w x) (p : Place) :
    Function.update v.place w p = Function.update (fun _ => .away) w p := by
  rw [act.place, Function.update_idem]

theorem not_inFlight_executed {t : Tid} {v v' : View} {w : WorkerId} {x : Option EventId}
    {e : EventId} (act : Executed t v w x) (place : v'.place = v.place ∨
      ∃ p, v'.place = Function.update v.place w p ∧ ∀ y, p ≠ .entering y)
    (awake : ∀ f rest, v'.frames = f :: rest → f.pc ≠ .woke) : ¬ InFlight v' e := by
  refine not_inFlight_calm (fun w' y => ?_) rfl awake
  rcases place with same | ⟨p, moved, calm⟩
  · rw [same, act.place]
    by_cases equal : w' = w <;> simp [equal]
  · rw [moved, act.moved]
    by_cases equal : w' = w
    · simpa [equal] using calm y
    · simp [equal]

theorem Frame.awake_of_condition {f : Frame} (condition : f.inCondition = true) : f.pc ≠ .woke := by
  intro pc
  simp [Frame.inCondition, pc] at condition

namespace Delivery

variable {t : Tid} {v v' : View} {e : EventId} {kind : Kind}

private theorem active_iff (el : v'.el e = v.el e) : Active t v' e ↔ Active t v e := by
  rw [Active, Active, el]

theorem still (life : v'.life e = v.life e) (counts : SameCounts v v' e) (el : v'.el e = v.el e)
    (place : v'.place = v.place) (frames : v'.frames = v.frames) : Delivery t v v' e kind :=
  .quiet life counts (active_iff el) (by rw [InFlight, InFlight, place, frames])

theorem calm (life : v'.life e = v.life e) (counts : SameCounts v v' e) (el : v'.el e = v.el e)
    (before : ¬ InFlight v e) (after : ¬ InFlight v' e) : Delivery t v v' e kind :=
  .quiet life counts (active_iff el) (iff_of_false after before)

variable {w : WorkerId} {x : Option EventId}

/-- The thread takes a step of its own that leaves the event alone, and `tc_scheduler` has
not just returned, neither before nor after. -/
theorem acts (act : Executed t v w x) (before : ∀ f rest, v.frames = f :: rest → f.pc ≠ .woke)
    (after : ∀ f rest, v'.frames = f :: rest → f.pc ≠ .woke) (place : v'.place = v.place ∨
      ∃ p, v'.place = Function.update v.place w p ∧ ∀ y, p ≠ .entering y)
    (life : v'.life e = v.life e) (counts : SameCounts v v' e) (el : v'.el e = v.el e) :
    Delivery t v v' e kind :=
  .calm life counts el (not_inFlight_executed act (.inl rfl) before)
    (not_inFlight_executed act place after)

/-- A sleeping call returns `RV_INTR` because of the signal that has woken its thread. -/
theorem intr {f : Frame} {rest : List Frame} {cause : EventId} (act : Executed t v w (some cause))
    (frames : v.frames = f :: rest) (pc : f.pc = .woke) (place : v'.place = v.place ∨
      ∃ p, v'.place = Function.update v.place w p ∧ ∀ y, p ≠ .entering y)
    (after : ∀ g rest', v'.frames = g :: rest' → g.pc ≠ .woke) (life : v'.life e = v.life e)
    (fires : v'.fires e = v.fires e)
    (interrupts : v'.interrupts = Function.update v.interrupts cause (v.interrupts cause + 1))
    (el : v'.el e = v.el e) : Delivery t v v' e kind := by
  have done := not_inFlight_executed (e := e) act place after
  by_cases same : e = cause
  · subst same
    refine .reported life fires (by simp [interrupts]) ?_ done (active_iff el)
    exact (inFlight_on act.place).mpr ⟨rfl, f, rest, frames, pc⟩
  · refine .calm life ⟨fires, by simp [interrupts, same]⟩ el (fun flight => ?_) done
    exact same (Option.some.inj ((inFlight_on act.place).mp flight).1).symm

end Delivery

theorem awake_cons {f : Frame} {rest : List Frame} (pc : f.pc ≠ .woke) (g : Frame)
    (rest' : List Frame) (frames : f :: rest = g :: rest') : g.pc ≠ .woke := by
  obtain ⟨rfl, _⟩ := List.cons.inj frames
  exact pc

theorem View.Top.awake {v : View} {w : WorkerId} {x : Option EventId} {f : Frame}
    {rest : List Frame} (top : v.Top w x f rest) (pc : f.pc ≠ .woke) (g : Frame) (rest' : List Frame)
    (frames : v.frames = g :: rest') : g.pc ≠ .woke :=
  awake_cons pc g rest' (top.2.symm.trans frames)

theorem Pc.awake_of_unplaced {pc : Pc} (unplaced : pc.unplaced = true) : pc ≠ .woke := by
  rintro rfl
  cases unplaced

theorem Turn.awake {v : View} {call : Call} {before after : Pc} (turned : Turn v call before after) :
    before ≠ .woke ∧ after ≠ .woke := by
  cases turned <;> simp

private theorem ThreadInv.sub_ne_frame {t : Tid} {v : View} {f : Frame} {rest : List Frame}
    (inv : ThreadInv t v) (frames : v.frames = f :: rest) (n : Nat) : .sub t n ≠ f.e :=
  fun equal => inv.auto_ne_sub (frames ▸ .head _) n equal.symm

private theorem ThreadInv.sub_ne_event {t : Tid} {v : View} {e : EventId} (inv : ThreadInv t v)
    (event : v.flags e ≠ .signal) (n : Nat) : .sub t n ≠ e := by
  rintro rfl
  exact event (inv.flagsSub n)

private theorem ThreadInv.sub_placed {t : Tid} {v : View} {n : Nat} {k : EventList}
    (inv : ThreadInv t v) (on : v.el (.sub t n) = some k) :
    k = .waiters (.signal (v.signal (.sub t n))) ∨ k = .immediate ∨ k = .pending t := by
  have lists := inv.subs n (inv.live _ (by simp [on]))
  simpa [on] using lists

private theorem ThreadInv.sub_active {t : Tid} {v : View} {n : Nat} {k : EventList}
    (inv : ThreadInv t v) (on : v.el (.sub t n) = some k) (served : k.served = true) :
    Active t v (.sub t n) := by
  rcases inv.sub_placed on with rfl | rfl | rfl
  · cases served
  · exact .inl on
  · exact .inr on

private theorem ThreadInv.below_awake {t : Tid} {v : View} {f : Frame} {rest : List Frame}
    (inv : ThreadInv t v) (frames : v.frames = f :: rest) (g : Frame) (rest' : List Frame)
    (equal : rest = g :: rest') : g.pc ≠ .woke :=
  Frame.awake_of_condition (inv.lower _ _ frames g (equal ▸ .head _))

theorem View.InUserCode.awake {v : View} {w : WorkerId} {x : Option EventId}
    (user : v.InUserCode w x) (g : Frame) (rest' : List Frame) (frames : v.frames = g :: rest') :
    g.pc ≠ .woke :=
  Frame.awake_of_condition (user.condition g rest' frames)

/-! ### The steps by which a signal moves -/

section Cases

variable {t : Tid} {v v' : View} {e : EventId} {w : WorkerId} {x : Option EventId} {f : Frame}
  {rest : List Frame} {kind : Kind} {n : Nat}

private theorem inFlight_moved {p : Place} (place : v'.place = Function.update v.place w p)
    (frames : v'.frames = v.frames) (before : v.place w ≠ .entering (some e) ∧ v.place w ≠ .on (some e))
    (after : p ≠ .entering (some e) ∧ p ≠ .on (some e)) : InFlight v' e ↔ InFlight v e := by
  refine exists_congr fun w' => ?_
  rw [place, frames]
  by_cases here : w' = w
  · subst here
    simp [before, after]
  · simp [here]

private theorem Delivery.of_fire {g : SignalId} {fires : EventId → Nat} (inv : ThreadInv t v)
    (fired : ∀ e, fires e = v.fires e + 1 ∧ v.Subscribed g e ∨
      fires e = v.fires e ∧ ¬ v.Subscribed g e) :
    Delivery t v { v with
      el := fun e => if v.el e = some (.waiters (.signal g)) then some .immediate else v.el e
      fires := fires } (.sub t n) .plain := by
  rcases fired (.sub t n) with ⟨more, subscribed⟩ | ⟨fires, foreign⟩
  · refine .fired rfl more rfl ?_ .rfl
    rcases inv.subs n subscribed.2.1 with waits | active | pending
    · exact .inl (by simp [waits, subscribed.2.2])
    · exact .inl (by simp [active])
    · exact .inr (by simp [pending])
  · refine .still rfl ⟨fires, rfl⟩ ?_ rfl rfl
    have elsewhere : v.el (.sub t n) ≠ some (.waiters (.signal g)) := by
      intro on
      have here := inv.sub_placed on
      simp only [EventList.waiters.injEq, Waitq.signal.injEq, reduceCtorEq, or_false] at here
      exact foreign ⟨⟨t, n, rfl⟩, inv.live _ (by simp [on]), here.symm⟩
    simp [elsewhere]

private theorem Delivery.of_queue {k : EventList} (inv : ThreadInv t v) (on : v.el e = some k)
    (served : k.served = true) :
    Delivery t v { v with el := Function.update v.el e (some (.pending t)) } (.sub t n) .plain := by
  by_cases same : .sub t n = e
  · subst same
    exact .quiet rfl ⟨rfl, rfl⟩ (iff_of_true (.inr (by simp)) (inv.sub_active on served)) .rfl
  · exact .still rfl ⟨rfl, rfl⟩ (by simp [same]) rfl rfl

private theorem Delivery.selectsOther (inv : ThreadInv t v) (idle : v.running = false)
    (place : v'.place = Function.update v.place w (.entering (some e))) (frames : v'.frames = v.frames)
    (other : .sub t n ≠ e) (life : v'.life = v.life) (counts : SameCounts v v' (.sub t n))
    (el : v'.el (.sub t n) = v.el (.sub t n)) : Delivery t v v' (.sub t n) kind := by
  have before := not_inFlight_stopped (e := .sub t n) inv idle
  refine .calm (by rw [life]) counts el before ?_
  rintro ⟨w', flight⟩
  rw [place, frames] at flight
  by_cases here : w' = w
  · simp [here, Ne.symm other] at flight
  · exact before ⟨w', by simpa [here] using flight⟩

private theorem Delivery.of_selectSignal {k : EventList} (inv : ThreadInv t v)
    (on : v.el e = some k) (served : k.served = true) (idle : v.running = false) :
    Delivery t v { v with
      running := true
      el := Function.update v.el e (some (.waiters (.signal (v.signal e))))
      place := Function.update v.place w (.entering (some e)) } (.sub t n) .plain := by
  by_cases same : .sub t n = e
  · subst same
    exact .delivered rfl ⟨rfl, rfl⟩ (inv.sub_active on served) (by simp [Active]) ⟨w, .inl (by simp)⟩
  · exact .selectsOther inv idle rfl rfl same rfl ⟨rfl, rfl⟩ (by simp [same])

private theorem Delivery.of_enter (inv : ThreadInv t v) (entering : v.place w = .entering x) :
    Delivery t v { v with
      place := Function.update v.place w (.on x)
      frames := { f with pc := .woke } :: rest } e .plain := by
  refine .quiet rfl ⟨rfl, rfl⟩ .rfl (exists_congr fun w' => ?_)
  by_cases here : w' = w
  · simp [here, entering]
  · have away : v.place w' = .away := by
      by_contra busy
      exact here (inv.unique w' w busy (by simp [entering]))
    simp [here, away]

private theorem Delivery.of_start (inv : ThreadInv t v) (posted : v.status = .posted) :
    Delivery t v { v with
      place := Function.update v.place w (.on none)
      status := .alive } (.sub t n) .plain := by
  refine .gone id ((inv.newborn (by rw [posted]; rfl)).2.2 n) ⟨rfl, rfl⟩ id ?_
  rintro ⟨w', flight⟩
  by_cases here : w' = w
  · simp [here] at flight
  · exact ⟨w', by simpa [here] using flight⟩

private theorem Delivery.resumesOther (inv : ThreadInv t v) (top : v.Top w x f rest)
    (pc : f.pc = .pushed) (place : v'.place = Function.update v.place w (.on (some e)))
    (other : .sub t n ≠ e) (life : v'.life = v.life) (counts : SameCounts v v' (.sub t n))
    (el : v'.el (.sub t n) = v.el (.sub t n)) : Delivery t v v' (.sub t n) kind := by
  have act := inv.executed top.1
  refine .calm (by rw [life]) counts el ?_ fun flight => ?_
  · exact not_inFlight_executed act (.inl rfl) (top.awake (by simp [pc]))
  · have moved := place.trans (act.moved _)
    exact other (Option.some.inj ((inFlight_on moved).mp flight).1).symm

private theorem Delivery.of_resumeSignal (inv : ThreadInv t v) (top : v.Top w x f rest)
    (pc : f.pc = .pushed) (pending : v.el e = some (.pending t)) :
    Delivery t v { v with
      el := Function.update v.el e (some (.waiters (.signal (v.signal e))))
      place := Function.update v.place w (.on (some e))
      frames := { f with pc := .woke } :: rest } (.sub t n) .plain := by
  by_cases same : .sub t n = e
  · subst same
    exact .delivered rfl ⟨rfl, rfl⟩ (.inr pending) (by simp [Active])
      ⟨w, .inr ⟨by simp, _, _, rfl, rfl⟩⟩
  · exact .resumesOther inv top pc rfl same rfl ⟨rfl, rfl⟩ (by simp [same])

private theorem Delivery.of_finishExpected (inv : ThreadInv t v) (top : v.Top w x f rest)
    (expected : x = none ∨ x = some f.e) :
    Delivery t v { v with
      el := Function.update v.el f.e none
      stack := v.next f.e
      place := Function.update v.place w (.on none)
      frames := { f with pc := .prep } :: rest } (.sub t n) .plain := by
  have act := inv.executed top.1
  have apart := inv.sub_ne_frame top.2 n
  refine .calm rfl ⟨rfl, rfl⟩ (by simp [apart]) (fun flight => ?_)
    (not_inFlight_executed act (.inr ⟨_, rfl, by simp⟩) (awake_cons (by simp)))
  have woken := ((inFlight_on act.place).mp flight).1
  rcases expected with none | own
  · simp [woken] at none
  · exact apart (Option.some.inj (woken.symm.trans own))

private theorem Delivery.of_finishRequeue (inv : ThreadInv t v) (top : v.Top w (some e) f rest)
    (pc : f.pc = .woke ∨ f.pc = .holds) :
    Delivery t v { v with
      el := Function.update (Function.update v.el f.e none) e (some (.pending t))
      stack := v.next f.e
      place := Function.update v.place w (.on none)
      frames := { f with pc := .prep } :: rest } (.sub t n)
      (if f.pc = .holds then .staleRequeue else .plain) := by
  have act := inv.executed top.1
  generalize equal : ({ v with
    el := Function.update (Function.update v.el f.e none) e (some (.pending t))
    stack := v.next f.e
    place := Function.update v.place w (.on none)
    frames := { f with pc := .prep } :: rest } : View) = v'
  have after : ¬ InFlight v' (.sub t n) := by
    rw [← equal]
    exact not_inFlight_executed act (.inr ⟨_, rfl, by simp⟩) (awake_cons (by simp))
  have life : v'.life (.sub t n) = v.life (.sub t n) := by rw [← equal]
  have counts : SameCounts v v' (.sub t n) := by
    rw [← equal]
    exact ⟨rfl, rfl⟩
  by_cases same : .sub t n = e
  · have active : Active t v' (.sub t n) := by
      rw [← equal, same]
      exact .inr (by simp)
    by_cases holds : f.pc = .holds
    · rw [if_pos holds]
      exact .stale life counts active
    · rw [if_neg holds]
      have flight := (inFlight_on act.place).mpr ⟨rfl, f, rest, top.2, pc.resolve_right holds⟩
      exact .requeued life counts (same ▸ flight) after active
  · refine .calm life counts ?_ (fun flight => ?_) after
    · rw [← equal]
      simp [same, inv.sub_ne_frame top.2 n]
    · exact same (Option.some.inj ((inFlight_on act.place).mp flight).1).symm

private theorem Delivery.of_leafDone (inv : ThreadInv t v) (top : v.Top w (some f.e) f rest)
    (place : v'.place = Function.update v.place w (.on none)) (frames : v'.frames = rest)
    (life : v'.life (.sub t n) = v.life (.sub t n)) (counts : SameCounts v v' (.sub t n))
    (el : v'.el = v.el) : Delivery t v v' (.sub t n) kind := by
  have act := inv.executed top.1
  refine .calm life counts (by rw [el]) (fun flight => ?_) ?_
  · exact inv.sub_ne_frame top.2 n (Option.some.inj ((inFlight_on act.place).mp flight).1).symm
  · exact not_inFlight_executed act (.inr ⟨_, place, by simp⟩) (frames ▸ inv.below_awake top.2)

private theorem Delivery.of_subscribe {k : Nat} {g : SignalId} (inv : ThreadInv t v)
    (user : v.InUserCode w x) (unused : v.life (.sub t k) = .unused) :
    Delivery t v { v with
      el := Function.update v.el (.sub t k) (some (.waiters (.signal g)))
      life := Function.update v.life (.sub t k) .live
      next := Function.update v.next (.sub t k) none
      flags := Function.update v.flags (.sub t k) .signal
      signal := Function.update v.signal (.sub t k) g
      place := Function.update v.place w (.on none)
      fires := Function.update v.fires (.sub t k) 0
      interrupts := Function.update v.interrupts (.sub t k) 0 } (.sub t n) .plain := by
  have act := inv.executed user.1
  by_cases same : n = k
  · subst same
    refine .subscribed unused (by simp) (by simp) (by simp [Active]) ?_
    exact not_inFlight_executed act (.inr ⟨_, rfl, by simp⟩) user.awake
  · exact .acts act user.awake user.awake (.inr ⟨_, rfl, by simp⟩) (by simp [same])
      ⟨by simp [same], by simp [same]⟩ (by simp [same])

end Cases

theorem ViewStep.delivery {t : Tid} {v v' : View} {kind : Kind} (step : ViewStep t v kind v')
    (inv : ThreadInv t v) (n : Nat) : Delivery t v v' (.sub t n) kind := by
  cases step with
  | wake woken queued =>
      refine .still rfl ⟨rfl, rfl⟩ ?_ rfl rfl
      cases chosen : woken (.sub t n) with
      | false => simp [chosen]
      | true =>
          obtain ⟨k, on, wakes⟩ := queued _ chosen
          rcases inv.sub_placed on with rfl | rfl | rfl <;> cases wakes
  | fire g fires fired => exact .of_fire inv fired
  | grant e m queued _ =>
      have other : .sub t n ≠ e := by
        rintro rfl
        simpa using inv.sub_placed queued
      exact .still rfl ⟨rfl, rfl⟩ (by simp [other]) rfl rfl
  | share _ _ _ _ _ => exact .still rfl ⟨rfl, rfl⟩ rfl rfl rfl
  | cancel k _ =>
      by_cases same : n = k
      · subst same
        refine .gone (by simp) (by simp) ⟨rfl, rfl⟩ (fun active => ?_) (fun flight => flight)
        simp [Active] at active
      · exact .still (by simp [same]) ⟨rfl, rfl⟩ (by simp [same]) rfl rfl
  | born _ => exact .still (by simp) ⟨rfl, rfl⟩ rfl rfl rfl
  | post _ _ => exact .still rfl ⟨rfl, rfl⟩ (by simp) rfl rfl
  | queue e k _ on served _ _ => exact .of_queue inv on served
  | selectSignal w e k _ on served _ idle _ => exact .of_selectSignal inv on served idle
  | selectEvent w e k _ _ _ event _ idle _ _ =>
      have other := inv.sub_ne_event event n
      exact .selectsOther inv idle rfl rfl other rfl ⟨rfl, rfl⟩ (by simp [other])
  | reap w e _ _ exiting away =>
      have other : .sub t n ≠ e := inv.sub_ne_event (by simp [exiting]) n
      exact .quiet rfl ⟨rfl, rfl⟩ (Delivery.active_iff (by simp [other]))
        (inFlight_moved rfl rfl (by simp [away]) (by simp))
  | freed w freeing =>
      exact .quiet (by simp) ⟨rfl, rfl⟩ .rfl (inFlight_moved rfl rfl (by simp [freeing]) (by simp))
  | enter w x f rest entering _ => exact .of_enter inv entering
  | start w x _ _ posted => exact .of_start inv posted
  | begin w x k call pc user unused begins =>
      exact .acts (inv.executed user.1) user.awake (awake_cons (by cases begins <;> simp)) (.inl rfl)
        (by simp) ⟨rfl, rfl⟩ rfl
  | enqueue w x f rest flag top pc _ _ =>
      exact .acts (inv.executed top.1) (top.awake (by simp [pc])) (awake_cons (by simp))
        (.inl rfl) rfl ⟨rfl, rfl⟩ (by simp [inv.sub_ne_frame top.2 n])
  | push w x f rest top pc =>
      exact .acts (inv.executed top.1) (top.awake (by simp [pc])) (awake_cons (by simp))
        (.inl rfl) rfl ⟨rfl, rfl⟩ rfl
  | prepare w x f rest top pc _ =>
      refine .acts (inv.executed top.1) (top.awake (by simp [pc])) (awake_cons ?_)
        (.inr ⟨_, rfl, by simp⟩) rfl ⟨rfl, rfl⟩ (by simp [inv.sub_ne_frame top.2 n])
      cases f.call <;> simp [Call.afterPrepare]
  | turn w x f rest pc top turned =>
      obtain ⟨before, after⟩ := turned.awake
      exact .acts (inv.executed top.1) (top.awake before) (awake_cons after) (.inl rfl) rfl
        ⟨rfl, rfl⟩ rfl
  | acquire w x f rest m top _ pc _ =>
      exact .acts (inv.executed top.1) (top.awake (by simp [pc])) (awake_cons (by simp))
        (.inl rfl) rfl ⟨rfl, rfl⟩ rfl
  | refused w x f rest rv top pc _ =>
      have apart := inv.sub_ne_frame top.2 n
      exact .acts (inv.executed top.1) (top.awake (by simp [pc])) (inv.below_awake top.2) (.inl rfl)
        (by simp [apart]) ⟨rfl, rfl⟩ (by simp [apart])
  | returnPlain w x f rest rv top unplaced _ _ =>
      exact .acts (inv.executed top.1) (top.awake (Pc.awake_of_unplaced unplaced))
        (inv.below_awake top.2) (.inl rfl) (by simp [inv.sub_ne_frame top.2 n]) ⟨rfl, rfl⟩ rfl
  | returnLocked w x f rest m top unplaced _ _ =>
      exact .acts (inv.executed top.1) (top.awake (Pc.awake_of_unplaced unplaced))
        (inv.below_awake top.2) (.inl rfl) (by simp [inv.sub_ne_frame top.2 n]) ⟨rfl, rfl⟩ rfl
  | sleep w x f rest top pc _ =>
      exact .acts (inv.executed top.1) (top.awake (by simp [pc])) (awake_cons (by simp))
        (.inr ⟨_, rfl, by simp⟩) rfl ⟨rfl, rfl⟩ rfl
  | resumeEvent w x f rest e top pc _ _ event _ =>
      have other := inv.sub_ne_event event n
      exact .resumesOther inv top pc rfl other rfl ⟨rfl, rfl⟩ (by simp [other])
  | resumeSignal w x f rest e top pc _ pending _ => exact .of_resumeSignal inv top pc pending
  | finishExpected w x f rest top _ _ _ expected => exact .of_finishExpected inv top expected
  | finishRequeue w e f rest top pc _ _ _ _ _ => exact .of_finishRequeue inv top pc
  | finishIgnored w e f rest top pc _ _ _ _ _ _ =>
      have apart := inv.sub_ne_frame top.2 n
      exact .acts (inv.executed top.1) (top.awake (by simp [pc])) (inv.below_awake top.2) (.inl rfl)
        (by simp [apart]) ⟨rfl, rfl⟩ (by simp [apart])
  | finishIntr w e f rest top pc _ _ _ _ _ =>
      have apart := inv.sub_ne_frame top.2 n
      exact .intr (inv.executed top.1) top.2 pc (.inl rfl) (inv.below_awake top.2) (by simp [apart])
        rfl rfl (by simp [apart])
  | leafDone w f rest rv top _ _ _ =>
      exact .of_leafDone inv top rfl rfl (by simp [inv.sub_ne_frame top.2 n]) ⟨rfl, rfl⟩ rfl
  | leafIntr w e after f rest top pc _ _ _ _ =>
      have apart := inv.sub_ne_frame top.2 n
      exact .intr (inv.executed top.1) top.2 pc (.inr ⟨_, rfl, by simp⟩) (inv.below_awake top.2)
        (by simp [apart]) rfl rfl (by simp [apart])
  | subscribe w x k g user unused => exact .of_subscribe inv user unused
  | trylock _ _ _ _ _ => exact .still rfl ⟨rfl, rfl⟩ rfl rfl rfl
  | unlock _ _ _ _ _ _ _ _ => exact .still rfl ⟨rfl, rfl⟩ rfl rfl rfl
  | dying _ _ _ _ _ _ => exact .still rfl ⟨rfl, rfl⟩ rfl rfl rfl
  | postExit w x on frames _ _ =>
      have awake : ∀ g rest', v.frames = g :: rest' → g.pc ≠ .woke := by simp [frames]
      exact .acts (inv.executed on) awake awake (.inr ⟨_, rfl, by simp⟩) rfl ⟨rfl, rfl⟩ (by simp)
  | exitMain w x on frames =>
      have awake : ∀ g rest', v.frames = g :: rest' → g.pc ≠ .woke := by simp [frames]
      exact .acts (inv.executed on) awake awake (.inr ⟨_, rfl, by simp⟩) rfl ⟨rfl, rfl⟩ rfl

/-! ## A fire is not forgotten -/

/-- The signal of the subscription has been fired when `count` interruptions had been caused
by it. Until it causes another one, its event is on the way to its thread. -/
structure Owed (t : Tid) (count : Nat) (e : EventId) (v : View) : Prop where
  used : v.life e ≠ .unused
  monotone : count ≤ v.interrupts e
  onTheWay : v.life e = .live → v.interrupts e = count → Active t v e ∨ InFlight v e

theorem Delivery.owed {t : Tid} {v v' : View} {e : EventId} {kind : Kind} {count : Nat}
    (delivery : Delivery t v v' e kind) (owed : Owed t count e v) : Owed t count e v' := by
  cases delivery with
  | quiet life counts active flight =>
      refine ⟨life ▸ owed.used, counts.interrupts ▸ owed.monotone, fun live same => ?_⟩
      exact (owed.onTheWay (life ▸ live) (counts.interrupts ▸ same)).imp active.mpr flight.mpr
  | fired life _ interrupts active _ =>
      exact ⟨life ▸ owed.used, interrupts ▸ owed.monotone, fun _ _ => .inl active⟩
  | delivered life counts _ _ flight =>
      exact ⟨life ▸ owed.used, counts.interrupts ▸ owed.monotone, fun _ _ => .inr flight⟩
  | reported life _ interrupts _ _ _ =>
      have monotone := owed.monotone
      refine ⟨life ▸ owed.used, by omega, fun _ same => ?_⟩
      omega
  | requeued life counts _ _ active =>
      exact ⟨life ▸ owed.used, counts.interrupts ▸ owed.monotone, fun _ _ => .inl active⟩
  | stale life counts active =>
      exact ⟨life ▸ owed.used, counts.interrupts ▸ owed.monotone, fun _ _ => .inl active⟩
  | gone used dead counts _ _ =>
      exact ⟨used owed.used, counts.interrupts ▸ owed.monotone, fun live => absurd live dead⟩
  | subscribed unused _ _ _ _ => exact absurd unused owed.used

/-! ## No delivery without a fire -/

/-- What is on its way, and what has been reported, has been fired. -/
structure Backed (t : Tid) (e : EventId) (v : View) : Prop where
  reported : v.interrupts e ≤ v.fires e
  active : Active t v e → v.interrupts e + 1 ≤ v.fires e
  flight : InFlight v e → v.interrupts e + 1 ≤ v.fires e
  both : Active t v e → InFlight v e → v.interrupts e + 2 ≤ v.fires e

theorem Delivery.backed {t : Tid} {v v' : View} {e : EventId} {kind : Kind}
    (delivery : Delivery t v v' e kind) (backed : Backed t e v) (fresh : kind ≠ .staleRequeue) :
    Backed t e v' := by
  obtain ⟨reported, active, flight, both⟩ := backed
  cases delivery with
  | quiet _ counts activeIff flightIff =>
      refine ⟨?_, fun on => ?_, fun on => ?_, fun on on' => ?_⟩
      · rw [counts.interrupts, counts.fires]
        exact reported
      · rw [counts.interrupts, counts.fires]
        exact active (activeIff.mp on)
      · rw [counts.interrupts, counts.fires]
        exact flight (flightIff.mp on)
      · rw [counts.interrupts, counts.fires]
        exact both (activeIff.mp on) (flightIff.mp on')
  | fired _ fires interrupts _ flightIff =>
      refine ⟨?_, fun _ => ?_, fun _ => ?_, fun _ on => ?_⟩
      · omega
      · omega
      · omega
      · have before := flight (flightIff.mp on)
        omega
  | delivered _ counts on taken _ =>
      have before := active on
      have fires := counts.fires
      have interrupts := counts.interrupts
      refine ⟨?_, fun on' => absurd on' taken, fun _ => ?_, fun on' => absurd on' taken⟩
      · omega
      · omega
  | reported _ fires interrupts on done activeIff =>
      have before := flight on
      refine ⟨?_, fun on' => ?_, fun on' => absurd on' done, fun _ on' => absurd on' done⟩
      · omega
      · have two := both (activeIff.mp on') on
        omega
  | requeued _ counts on done _ =>
      have before := flight on
      have fires := counts.fires
      have interrupts := counts.interrupts
      refine ⟨?_, fun _ => ?_, fun on' => absurd on' done, fun _ on' => absurd on' done⟩
      · omega
      · omega
  | stale _ _ _ => exact absurd rfl fresh
  | gone _ _ counts activeOld flightOld =>
      refine ⟨?_, fun on => ?_, fun on => ?_, fun on on' => ?_⟩
      · rw [counts.interrupts, counts.fires]
        exact reported
      · rw [counts.interrupts, counts.fires]
        exact active (activeOld on)
      · rw [counts.interrupts, counts.fires]
        exact flight (flightOld on)
      · rw [counts.interrupts, counts.fires]
        exact both (activeOld on) (flightOld on')
  | subscribed _ fires interrupts passive done =>
      refine ⟨by omega, fun on => absurd on passive, fun on => absurd on done,
        fun on => absurd on passive⟩

end Libtcr
