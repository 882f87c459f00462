import Libtcr.Unsubscribe

/-! What `tc_signal_unsubscribe_nofree` does to the subscription and to the rest of the system, and
what a second call for the same subscription does. -/

set_option autoImplicit false

namespace Libtcr

open State

structure EventFields where
  el : Option EventList
  tc : Tid
  flags : EventFlag
  epEvents : Mask
  tcfd : Option FdId
  signal : SignalId
  nextInStack : Option EventId
  domain : DomainId
  life : Life
  deriving DecidableEq

def State.eventFields (s : State) (e : EventId) : EventFields where
  el := s.el e
  tc := s.tc e
  flags := s.flags e
  epEvents := s.epEvents e
  tcfd := s.tcfd e
  signal := s.signal e
  nextInStack := s.nextInStack e
  domain := s.domain e
  life := s.life e

/-- The sleeping call with event `c` has been woken by `e`, and has not yet looked at it. -/
def State.CallWokenBy (s : State) (t : Tid) (c e : EventId) : Prop :=
  ∃ w f rest, s.frames t = f :: rest ∧ f.e = c ∧ s.wokenByEvent w = some e ∧
    (s.mode w = .enter t ∨ s.mode w = .thread t ∧ f.pc = .woke)

/-- The subscription `n` of thread `u`, and nothing else, has been taken away. -/
structure Unsubscribed (s : State) (u : Tid) (n : Nat) (s' : State) : Prop where
  offLists : s'.el (.sub u n) = none ∧ ∀ k, .sub u n ∉ s'.events k
  offSss : ∀ g, .sub u n ∉ s'.sss g
  refcnt : s'.refcnt u = s.refcnt u - 1
  count : s'.immediateCount = (s'.events .immediate).length
  order : ∀ k, s'.events k = (s.events k).erase (.sub u n)
  subs : ∀ g, s'.sss g = (s.sss g).erase (.sub u n)
  fields : ∀ e, e ≠ .sub u n → s'.eventFields e = s.eventFields e
  threads : ∀ t, t ≠ u → s'.refcnt t = s.refcnt t

section Removal

variable {s : State} {u : Tid} {n : Nat}

/-- With the three locks that the call has collected the event is always within its reach. -/
theorem unsubscribeLocked_eq (inv : SystemInv s) (live : s.life (.sub u n) = .live) :
    s.unsubscribeLocked (s.signal (.sub u n)) (.sub u n) u =
      some (s.tcSignalUnsubscribe (.sub u n)) := by
  have placed := (inv.thread u).subs n (by simpa [State.view] using live)
  simp only [State.view, own_sub] at placed
  have found : ∃ k, s.el (.sub u n) = some k ∧
      k ∈ [.waiters (.signal (s.signal (.sub u n))), .pending u, .immediate] := by
    rcases placed with waits | immediate | pending
    · exact ⟨_, waits, by simp⟩
    · exact ⟨_, immediate, by simp⟩
    · exact ⟨_, pending, by simp⟩
  obtain ⟨k, on, held⟩ := found
  have on' : (s.removeSub (s.signal (.sub u n)) (.sub u n)).el (.sub u n) = some k := on
  simp only [unsubscribeLocked, removeEventHoldingLocksOf, on', if_pos held, Option.map_some]
  have detached : s.removeEventHoldingLocks (.sub u n) = s.detachEvent (.sub u n) := by
    simp [removeEventHoldingLocks, detachEvent, on]
  rw [tcSignalUnsubscribe, detached]
  rfl

private theorem unsubscribed_of_live (inv : SystemInv s) (sss : SssInv s)
    (live : s.life (.sub u n) = .live) :
    Unsubscribed s u n (s.tcSignalUnsubscribe (.sub u n)) := by
  obtain ⟨k, _, only⟩ := inv.subscription_placed live
  have on : s.el (.sub u n) = some k := inv.lists.mem_events.mp ((only k).mpr rfl)
  have tc : s.tc (.sub u n) = u := inv.lists.owner (.sub u n) (by simp [on])
  have lists := inv.lists.removeEventHoldingLocks (.sub u n)
  have off : (s.tcSignalUnsubscribe (.sub u n)).el (.sub u n) = none := by
    simp [tcSignalUnsubscribe, State.el]
  have subs : ∀ g, (s.tcSignalUnsubscribe (.sub u n)).sss g = (s.sss g).erase (.sub u n) := by
    intro g
    by_cases own : g = s.signal (.sub u n)
    · simp [tcSignalUnsubscribe, own]
    · have foreign : .sub u n ∉ s.sss g := by
        rw [sss.mem, subscribed_sub]
        exact fun both => own both.2.symm
      rw [List.erase_of_not_mem foreign]
      simp [tcSignalUnsubscribe, own]
  constructor
  case offLists =>
    refine ⟨off, fun k' member => ?_⟩
    have here := lists.mem_events.mp member
    simp [State.el] at here
  case offSss =>
    intro g member
    rw [subs, (sss.nodup g).mem_erase_iff] at member
    exact member.1 rfl
  case refcnt => simp [tcSignalUnsubscribe, removeEventHoldingLocks, on, tc]
  case count => exact lists.count
  case order =>
    intro k'
    by_cases own : k' = k
    · subst own
      exact congrFun (IntrusiveLists.remove_elems_of_el on) k' |>.trans (by simp [State.events])
    · have elsewhere : .sub u n ∉ s.events k' := fun member => own ((only k').mp member)
      rw [List.erase_of_not_mem elsewhere]
      refine IntrusiveLists.remove_elems_of_ne (fun there => own ?_)
      exact (only k').mp (inv.lists.mem_events.mpr there)
  case subs => exact subs
  case fields =>
    intro e other
    simp [eventFields, tcSignalUnsubscribe, removeEventHoldingLocks, unlinkEvent, State.el, other]
  case threads =>
    intro t other
    simp [tcSignalUnsubscribe, removeEventHoldingLocks, on, tc, other]

end Removal

/-! ## The whole call -/

structure Collecting (w : WorkerId) (t : Tid) (g : SignalId) (u : Tid) (n : Nat)
    (s : UnsubState) : Prop where
  sys : SystemInv s.sys
  sss : SssInv s.sys
  on : s.sys.mode w = .thread t
  code : s.sys.inUserCode t = true
  live : s.sys.life (.sub u n) = .live
  signal : s.sys.signal (.sub u n) = g
  read : ∀ tc, s.pc = .pending tc ∨ s.pc = .waiters tc → tc = u
  pc : s.pc ≠ .done ∧ s.pc ≠ .poisoned

section Call

variable {s s' : UnsubState} {w : WorkerId} {t u : Tid} {g : SignalId} {n : Nat}

theorem SystemInv.sub_live {base after : State} {a : Action} (inv : SystemInv base)
    (stepped : base.step a = some after) (live : base.life (.sub u n) = .live)
    (kept : a ≠ .user a.worker (.unsubscribe u n)) : after.life (.sub u n) = .live := by
  have stays := (inv.moves stepped u).invariant
    (fun v => ViewInv u v ∧ v.life (.sub u n) = .live)
    ⟨inv.view u, by simpa [State.view] using live⟩ ?_
  · simpa [State.view] using stays.2
  · intro before after kind both special step
    refine ⟨step.viewInv both.1, step.sub_live both.1.thread both.2 ?_⟩
    rintro rfl
    rcases special with plain | ⟨_, w, k, rfl, same⟩
    · cases plain
    · cases same
      exact kept rfl

theorem Collecting.other {a : Action} (inv : Collecting w t g u n s)
    (stepped : s.step w g u n (.other a) = some s') : Collecting w t g u n s' := by
  simp only [UnsubState.step] at stepped
  split at stepped
  case isFalse => cases stepped
  next allowed =>
  obtain ⟨foreign, kept⟩ := allowed
  obtain ⟨sys, acted, rfl⟩ := Option.map_eq_some_iff.mp stepped
  have live := inv.sys.sub_live acted inv.live kept
  have once : Transition.Run State.step Transition.always s.sys sys := .next .refl trivial acted
  have sss := inv.sss.later inv.sys once
  have stays := inv.sys.stays_other acted inv.on foreign
  have status := inv.sys.status_other acted inv.on foreign inv.code
  have code : sys.inUserCode t = true := by
    have before := inv.code
    simp only [inUserCode] at before ⊢
    rwa [status, stays.2]
  have signal := (inv.sys.signal_stays acted inv.live).trans inv.signal
  exact ⟨inv.sys.step acted, sss, stays.1, code, live, signal, inv.read, inv.pc⟩

/-- The next statement of the call: it takes the next lock, or it holds all of them and takes the
subscription away. -/
theorem Collecting.call (inv : Collecting w t g u n s) (runs : s.sys.fault = none) :
    ∃ s', s.step w g u n .call = some s' ∧ s'.pc.left < s.pc.left ∧
      (Collecting w t g u n s' ∨
        s'.pc = .done ∧ s'.sys = s.sys.tcSignalUnsubscribe (.sub u n)) := by
  obtain ⟨sys, pc⟩ := s
  replace runs : sys.fault = none := runs
  have owner : sys.tc (.sub u n) = u := by
    obtain ⟨k, _, only⟩ := inv.sys.subscription_placed inv.live
    have on : sys.el (.sub u n) = some k := inv.sys.lists.mem_events.mp ((only k).mpr rfl)
    exact inv.sys.lists.owner (.sub u n) (by simp [on])
  cases pc with
  | start =>
      refine ⟨⟨sys, .immediate⟩, by simp [UnsubState.step, runs], by simp [UnsubPc.left], .inl ?_⟩
      exact { inv with read := by simp, pc := by simp }
  | immediate =>
      have read : sys.subTc (.sub u n) = some u := by
        rw [subTc, if_pos inv.live, owner]
      refine ⟨⟨sys, .pending u⟩, by simp [UnsubState.step, runs, read], by simp [UnsubPc.left], .inl ?_⟩
      exact { inv with read := by simp, pc := by simp }
  | pending tc =>
      obtain rfl := inv.read tc (.inl rfl)
      refine ⟨⟨sys, .waiters tc⟩, by simp [UnsubState.step, runs], by simp [UnsubPc.left], .inl ?_⟩
      exact { inv with read := by simp, pc := by simp }
  | waiters tc =>
      obtain rfl := inv.read tc (.inr rfl)
      have removed := unsubscribeLocked_eq inv.sys inv.live
      have signal : sys.signal (.sub tc n) = g := inv.signal
      rw [signal] at removed
      refine ⟨⟨sys.tcSignalUnsubscribe (.sub tc n), .done⟩, ?_, by simp [UnsubPc.left], .inr ⟨rfl, rfl⟩⟩
      simp [UnsubState.step, runs, removed]
  | done => exact absurd rfl inv.pc.1
  | poisoned => exact absurd rfl inv.pc.2

private theorem Collecting.atomic (inv : Collecting w t g u n s) (runs : s.sys.fault = none)
    (removed : s'.sys = s.sys.tcSignalUnsubscribe (.sub u n)) :
    s.sys.step (.user w (.unsubscribe u n)) = some s'.sys := by
  simp [State.step, State.act, userStep, runs, inv.on, inv.code, inv.live, removed]

theorem Collecting.run (initially : Collecting w t g u n s)
    (run : Transition.Run (UnsubState.step w g u n) Transition.always s s') :
    s'.pc = .done ∨ Collecting w t g u n s' := by
  refine run.invariant (fun s => s.pc = .done ∨ Collecting w t g u n s) (.inr initially) ?_
  intro before after label held _ stepped
  rcases held with done | inv
  · cases label with
    | other a =>
        simp only [UnsubState.step] at stepped
        split at stepped
        · obtain ⟨sys, _, rfl⟩ := Option.map_eq_some_iff.mp stepped
          exact .inl done
        · cases stepped
    | call => simp [UnsubState.step, done] at stepped
  · cases label with
    | other a => exact .inr (inv.other stepped)
    | call =>
        have runs : before.sys.fault = none := by
          by_contra ended
          simp [UnsubState.step, ended] at stepped
        obtain ⟨after', stepped', _, next⟩ := inv.call runs
        obtain rfl : after' = after := Option.some.inj (stepped'.symm.trans stepped)
        exact next.symm.imp And.left id

private theorem callWokenBy_iff {s : State} {c e : EventId} :
    s.CallWokenBy t c e ↔ FlightOf (s.view t) e c := by
  refine exists_congr fun w => exists_congr fun f => exists_congr fun rest => ?_
  refine and_congr_right fun _ => and_congr_right fun _ => ?_
  simp only [State.view, placeOf_eq_entering, placeOf_eq_on]
  tauto

/-- A cancelled subscription stays cancelled, and does not wake anybody any more. -/
theorem SystemInv.silent {base after : State} (inv : SystemInv base)
    (dead : base.life (.sub u n) = .dead)
    (run : Transition.Run State.step Transition.always base after) :
    after.life (.sub u n) = .dead ∧
      ∀ v c, after.CallWokenBy v c (.sub u n) → base.CallWokenBy v c (.sub u n) := by
  have stays := inv.view_later run u
    (fun view => view.life (.sub u n) = .dead ∧
      ∀ c, FlightOf view (.sub u n) c → FlightOf (base.view u) (.sub u n) c)
    ⟨by simpa [State.view] using dead, fun c flight => flight⟩ ?_
  · refine ⟨by simpa [State.view] using stays.1, fun v c woken => ?_⟩
    have own : v = u := by
      obtain ⟨w, f, rest, _, _, woken, place⟩ := woken
      refine ((((inv.later run).thread v).woken w (.sub u n) ?_).symm : v = u)
      rcases place with entering | ⟨on, _⟩
      · exact .inl (by simp [State.view, entering, woken])
      · exact .inr (by simp [State.view, on, woken])
    subst own
    exact callWokenBy_iff.mpr (stays.2 c (callWokenBy_iff.mp woken))
  · intro _ _ view after _ _ _ inv held _ step
    exact ⟨(step.delivery inv.thread n).dead held.1,
      fun c flight => held.2 c (step.flightOf inv.thread held.1 flight)⟩

theorem Collecting.initial {workers : Nat} {domainOf : WorkerId → DomainId} {s : State}
    (reached : Reachable workers domainOf s) (on : s.mode w = .thread t)
    (code : s.inUserCode t = true) (live : s.life (.sub u n) = .live) :
    Collecting w t (s.signal (.sub u n)) u n ⟨s, .start⟩ where
  sys := SystemInv.run reached
  sss := (SssInv.initial workers domainOf).later (SystemInv.initial workers domainOf) reached
  on := on
  code := code
  live := live
  signal := rfl
  read := by simp
  pc := by simp

end Call

/-- Whatever the other workers do while the call collects its locks, it goes on, and its last step
takes away this subscription and nothing else. In no later state is the event on a list, and a call
that is found woken by it had been woken by it before that step. -/
theorem unsubscribe_removes_one {workers : Nat} {domainOf : WorkerId → DomainId} {s₀ : State}
    (reached : Reachable workers domainOf s₀) {w : WorkerId} {t : Tid} (on : s₀.mode w = .thread t)
    (code : s₀.inUserCode t = true) {u : Tid} {n : Nat} (live : s₀.life (.sub u n) = .live)
    {s : UnsubState} (run : Transition.Run (UnsubState.step w (s₀.signal (.sub u n)) u n)
      Transition.always ⟨s₀, .start⟩ s) (before : s.pc ≠ .done) (runs : s.sys.fault = none) :
    ∃ s', s.step w (s₀.signal (.sub u n)) u n .call = some s' ∧ s'.pc.left < s.pc.left ∧
      s'.pc ≠ .poisoned ∧
      (s'.pc = .done → Unsubscribed s.sys u n s'.sys ∧
        ∀ s₂, Transition.Run State.step Transition.always s'.sys s₂ →
          (∀ k, .sub u n ∉ s₂.events k) ∧ (∀ g, .sub u n ∉ s₂.sss g) ∧
          ∀ v c, s₂.CallWokenBy v c (.sub u n) → s.sys.CallWokenBy v c (.sub u n)) := by
  have inv := ((Collecting.initial reached on code live).run run).resolve_left before
  obtain ⟨s', stepped, less, next⟩ := inv.call runs
  refine ⟨s', stepped, less, ?_⟩
  rcases next with collecting | ⟨done, removed⟩
  · exact ⟨collecting.pc.2, fun done => absurd done collecting.pc.1⟩
  refine ⟨by simp [done], fun _ => ?_⟩
  have atomic := inv.atomic runs removed
  have sys := inv.sys.step atomic
  have once : Transition.Run State.step Transition.always s.sys s'.sys := .next .refl trivial atomic
  have sss := inv.sss.later inv.sys once
  have dead : s'.sys.life (.sub u n) = .dead := by simp [removed, tcSignalUnsubscribe]
  refine ⟨removed ▸ unsubscribed_of_live inv.sys inv.sss inv.live, fun s₂ later => ?_⟩
  obtain ⟨dead₂, silent⟩ := sys.silent dead later
  refine ⟨fun k member => ?_, fun g member => ?_, fun v c woken => ?_⟩
  · have placed := (sys.later later).lists.mem_events.mp member
    have live := (sys.later later).live_of_placed (e := .sub u n) (by simp [placed])
    simp [dead₂] at live
  · have live := (((sss.later sys later).mem g _).mp member).2.1
    simp [dead₂] at live
  · have woken' := silent v c woken
    rw [removed] at woken'
    exact woken'

set_option maxRecDepth 10000 in
/-- Thread 1 cancels the subscription of thread 0, which fires the signal meanwhile. -/
theorem unsubscribe_removes_one_fired :
    ∃ s₀ s s', Reachable 2 (fun _ => 0) s₀ ∧
      Transition.Run (UnsubState.step 1 0 0 0) Transition.always ⟨s₀, .start⟩ s ∧
      s.sys.events .immediate = [.sub 0 0] ∧ s.step 1 0 0 0 .call = some s' ∧ s'.pc = .done ∧
      Unsubscribed s.sys 0 0 s'.sys := by
  obtain ⟨s₀, reached, shown⟩ := reachable_of_exec 2 (fun _ => 0) [.user 0 (.subscribe 0 0)]
    (fun s₀ => s₀.mode 1 = .thread 1 && s₀.inUserCode 1 && s₀.life (.sub 0 0) = .live &&
      s₀.signal (.sub 0 0) = 0 &&
      (Transition.exec (UnsubState.step 1 0 0 0) ⟨s₀, .start⟩
        [.call, .call, .other (.user 0 (.fire 0)), .call]).any fun s =>
          s.pc = .waiters 0 ∧ s.sys.fault = none ∧ s.sys.events .immediate = [.sub 0 0]) (by decide)
  obtain ⟨facts, called⟩ := Bool.and_eq_true_iff.mp shown
  simp only [Bool.and_eq_true, decide_eq_true_eq] at facts
  obtain ⟨⟨⟨on, code⟩, live⟩, signal⟩ := facts
  obtain ⟨s, ended, shown⟩ := (Option.any_eq_true _ _).mp called
  obtain ⟨pc, runs, fired⟩ := of_decide_eq_true shown
  have run := Transition.run_of_exec ended
  obtain ⟨s', stepped, less, clean, removed⟩ := unsubscribe_removes_one reached on code live
    (by rwa [signal]) (by simp [pc]) runs
  have done : s'.pc = .done := by
    rw [pc] at less
    cases after : s'.pc with
    | done => rfl
    | poisoned => exact absurd after clean
    | _ => simp [after, UnsubPc.left] at less
  rw [signal] at stepped
  exact ⟨s₀, s, s', reached, run, fired, stepped, done, (removed done).1⟩

/-! ## A second call -/

/-- A call for the subscription `n` of `u` returns, and leaves the event lists, the subscriptions and
the counters as they were. -/
def State.UnsubscribeHarmless (s : State) (w : WorkerId) (g : SignalId) (u : Tid) (n : Nat) : Prop :=
  ∃ r, Transition.Run (UnsubState.step w g u n) Transition.always ⟨s, .start⟩ r ∧ r.pc = .done ∧
    r.sys.lists = s.lists ∧ r.sys.sss = s.sss ∧ r.sys.refcnt = s.refcnt ∧
    r.sys.immediateCount = s.immediateCount

section SecondCall

variable {s : State} {w : WorkerId} {u : Tid} {g : SignalId} {n : Nat}

/-- A call for a subscription whose memory has been overwritten does not return. -/
theorem SystemInv.not_done (inv : SystemInv s) (dead : s.life (.sub u n) = .dead) {r : UnsubState}
    (run : Transition.Run (UnsubState.step w g u n) Transition.always ⟨s, .start⟩ r) :
    r.pc ≠ .done := by
  have kept : (SystemInv r.sys ∧ r.sys.life (.sub u n) = .dead) ∧
      (r.pc = .start ∨ r.pc = .immediate ∨ r.pc = .poisoned) := by
    refine run.invariant (fun r => (SystemInv r.sys ∧ r.sys.life (.sub u n) = .dead) ∧
      (r.pc = .start ∨ r.pc = .immediate ∨ r.pc = .poisoned)) ⟨⟨inv, dead⟩, .inl rfl⟩ ?_
    rintro ⟨sys, pc⟩ after label ⟨⟨inv, dead⟩, early⟩ _ stepped
    cases label with
    | other a =>
        simp only [UnsubState.step] at stepped
        split at stepped
        · obtain ⟨sys', acted, rfl⟩ := Option.map_eq_some_iff.mp stepped
          exact ⟨⟨inv.step acted, (inv.silent dead (.next .refl trivial acted)).1⟩, early⟩
        · cases stepped
    | call =>
        replace dead : sys.life (.sub u n) = .dead := dead
        have poisoned : sys.subTc (.sub u n) = none := by simp [subTc, dead]
        simp only [UnsubState.step] at stepped
        split at stepped
        case isFalse => cases stepped
        rcases early with rfl | rfl | rfl
        · cases stepped
          exact ⟨⟨inv, dead⟩, by simp⟩
        · simp only [poisoned] at stepped
          cases stepped
          exact ⟨⟨inv, dead⟩, by simp⟩
        · cases stepped
  rcases kept.2 with pc | pc | pc <;> simp [pc]

private theorem dead_poisons (dead : s.life (.sub u n) = .dead) (runs : s.fault = none) :
    Transition.Run (UnsubState.step w g u n) Transition.always ⟨s, .start⟩ ⟨s, .poisoned⟩ := by
  have ended : Transition.exec (UnsubState.step w g u n) ⟨s, .start⟩ [.call, .call] =
      some ⟨s, .poisoned⟩ := by
    simp [Transition.exec, UnsubState.step, subTc, dead, runs]
  exact Transition.run_of_exec ended

end SecondCall

section FirstCall

variable {workers : Nat} {domainOf : WorkerId → DomainId} {s₀ : State} {w : WorkerId} {t u : Tid}
  {n : Nat} {s s₁ : UnsubState}

private theorem unsubscribed_dead (reached : Reachable workers domainOf s₀)
    (on : s₀.mode w = .thread t) (code : s₀.inUserCode t = true) (live : s₀.life (.sub u n) = .live)
    (run : Transition.Run (UnsubState.step w (s₀.signal (.sub u n)) u n) Transition.always
      ⟨s₀, .start⟩ s) (stepped : s.step w (s₀.signal (.sub u n)) u n .call = some s₁)
    (done : s₁.pc = .done) : SystemInv s₁.sys ∧ s₁.sys.life (.sub u n) = .dead := by
  have before : s.pc ≠ .done := by
    intro ended
    simp [UnsubState.step, ended] at stepped
  have runs : s.sys.fault = none := by
    by_contra ended
    simp [UnsubState.step, ended] at stepped
  have inv := ((Collecting.initial reached on code live).run run).resolve_left before
  obtain ⟨s', stepped', _, next⟩ := inv.call runs
  obtain rfl : s' = s₁ := Option.some.inj (stepped'.symm.trans stepped)
  rcases next with collecting | ⟨_, removed⟩
  · exact absurd done collecting.pc.1
  · exact ⟨inv.sys.step (inv.atomic runs removed), by simp [removed, tcSignalUnsubscribe]⟩

/-- Once a call has cancelled a subscription, no further call for it returns, in no later state and
on no worker: it uses the pointer that the first call has overwritten. -/
theorem second_unsubscribe_poisoned (reached : Reachable workers domainOf s₀)
    (on : s₀.mode w = .thread t) (code : s₀.inUserCode t = true)
    (live : s₀.life (.sub u n) = .live)
    (run : Transition.Run (UnsubState.step w (s₀.signal (.sub u n)) u n) Transition.always
      ⟨s₀, .start⟩ s)
    (stepped : s.step w (s₀.signal (.sub u n)) u n .call = some s₁) (done : s₁.pc = .done)
    {s₂ : State} (later : Transition.Run State.step Transition.always s₁.sys s₂) (w' : WorkerId) :
    ¬ s₂.UnsubscribeHarmless w' (s₀.signal (.sub u n)) u n ∧
      (s₂.fault = none → Transition.Run (UnsubState.step w' (s₀.signal (.sub u n)) u n)
        Transition.always ⟨s₂, .start⟩ ⟨s₂, .poisoned⟩) := by
  obtain ⟨sys, dead⟩ := unsubscribed_dead reached on code live run stepped done
  have dead₂ := (sys.silent dead later).1
  refine ⟨?_, dead_poisons dead₂⟩
  rintro ⟨r, run, returned, _⟩
  exact (sys.later later).not_done dead₂ run returned

end FirstCall

private theorem twice_unsubscribed : ∃ s₀ s s₁, Reachable 1 (fun _ => 0) s₀ ∧
    s₀.mode 0 = .thread 0 ∧ s₀.inUserCode 0 = true ∧ s₀.life (.sub 0 0) = .live ∧
    Transition.Run (UnsubState.step 0 (s₀.signal (.sub 0 0)) 0 0) Transition.always
      ⟨s₀, .start⟩ s ∧
    s.step 0 (s₀.signal (.sub 0 0)) 0 0 .call = some s₁ ∧ s₁.pc = .done ∧ s₁.sys.fault = none := by
  obtain ⟨s₀, reached, shown⟩ := reachable_of_exec 1 (fun _ => 0) [.user 0 (.subscribe 0 0)]
    (fun s₀ => s₀.mode 0 = .thread 0 && s₀.inUserCode 0 && s₀.life (.sub 0 0) = .live &&
      (Transition.exec (UnsubState.step 0 (s₀.signal (.sub 0 0)) 0 0) ⟨s₀, .start⟩
        [.call, .call, .call]).any fun s =>
          (s.step 0 (s₀.signal (.sub 0 0)) 0 0 .call).any fun s₁ =>
            s₁.pc = .done ∧ s₁.sys.fault = none) (by decide)
  obtain ⟨facts, called⟩ := Bool.and_eq_true_iff.mp shown
  simp only [Bool.and_eq_true, decide_eq_true_eq] at facts
  obtain ⟨⟨on, code⟩, live⟩ := facts
  obtain ⟨s, ended, shown⟩ := (Option.any_eq_true _ _).mp called
  obtain ⟨s₁, stepped, shown⟩ := (Option.any_eq_true _ _).mp shown
  obtain ⟨done, runs⟩ := of_decide_eq_true shown
  exact ⟨s₀, s, s₁, reached, on, code, live, Transition.run_of_exec ended, stepped, done, runs⟩

/-- The subscriber itself calls twice. -/
theorem second_unsubscribe_poisoned_own : ∃ s₀ s s₁, Reachable 1 (fun _ => 0) s₀ ∧
    s₀.life (.sub 0 0) = .live ∧
    Transition.Run (UnsubState.step 0 (s₀.signal (.sub 0 0)) 0 0) Transition.always
      ⟨s₀, .start⟩ s ∧
    s.step 0 (s₀.signal (.sub 0 0)) 0 0 .call = some s₁ ∧ s₁.pc = .done ∧
    ¬ s₁.sys.UnsubscribeHarmless 0 (s₀.signal (.sub 0 0)) 0 0 := by
  obtain ⟨s₀, s, s₁, reached, on, code, live, run, stepped, done, _⟩ := twice_unsubscribed
  have harmful := (second_unsubscribe_poisoned reached on code live run stepped done .refl 0).1
  exact ⟨s₀, s, s₁, reached, live, run, stepped, done, harmful⟩

/-- The second of two calls in a row locks a lock through the pointer `0xc2c2c2c2c2c2c2c2`. -/
theorem second_unsubscribe_not_harmless : ∃ s₀ s s₁, Reachable 1 (fun _ => 0) s₀ ∧
    s₀.life (.sub 0 0) = .live ∧
    Transition.Run (UnsubState.step 0 (s₀.signal (.sub 0 0)) 0 0) Transition.always
      ⟨s₀, .start⟩ s ∧
    s.step 0 (s₀.signal (.sub 0 0)) 0 0 .call = some s₁ ∧ s₁.pc = .done ∧
    Transition.Run (UnsubState.step 0 (s₀.signal (.sub 0 0)) 0 0) Transition.always
      ⟨s₁.sys, .start⟩ ⟨s₁.sys, .poisoned⟩ ∧
    ¬ s₁.sys.UnsubscribeHarmless 0 (s₀.signal (.sub 0 0)) 0 0 := by
  obtain ⟨s₀, s, s₁, reached, on, code, live, run, stepped, done, runs⟩ := twice_unsubscribed
  obtain ⟨sys, dead⟩ := unsubscribed_dead reached on code live run stepped done
  refine ⟨s₀, s, s₁, reached, live, run, stepped, done, dead_poisons dead runs, ?_⟩
  rintro ⟨r, second, returned, _⟩
  exact sys.not_done dead second returned

end Libtcr
