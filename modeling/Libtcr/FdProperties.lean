import Libtcr.Fd
import Libtcr.SchedulerProperties

/-! Which waiters a report of epoll wakes. -/

set_option autoImplicit false

namespace Libtcr

section Selection

variable {α : Type} [DecidableEq α] {epEvents : α → Mask} {priority here : α → Bool}

/-- The variables of `matching_event` hold events with property `P`; `in` and `out`
match the direction they stand for. -/
structure Found (epEvents : α → Mask) (P : α → Prop) (found : Option α × Option α × Option α) :
    Prop where
  inn : ∀ x, found.1 = some x → P x ∧ epEvents x &&& EPOLLIN ≠ 0
  out : ∀ x, found.2.1 = some x → P x ∧ epEvents x &&& EPOLLOUT ≠ 0
  ew : ∀ x, found.2.2 = some x → P x

omit [DecidableEq α] in
private theorem chosen_ite {P : α → Prop} {bit : Mask} {found keep : Prop} [Decidable found]
    [Decidable keep] {old : Option α} {e : α} (now : found → P e ∧ epEvents e &&& bit ≠ 0)
    (start : ∀ x, old = some x → P x ∧ epEvents x &&& bit ≠ 0) (x : α)
    (chosen : (if found then (if keep then some e else old) else old) = some x) :
    P x ∧ epEvents x &&& bit ≠ 0 := by
  split at chosen
  · split at chosen
    · cases chosen
      exact now (by assumption)
    · exact start x chosen
  · exact start x chosen

omit [DecidableEq α] in
private theorem picked_ite {P : α → Prop} {found : Prop} [Decidable found] {old : Option α} {e : α}
    (now : P e) (start : ∀ x, old = some x → P x) (x : α)
    (picked : (if found then some e else old) = some x) : P x := by
  split at picked
  · cases picked
    exact now
  · exact start x picked

omit [DecidableEq α] in
private theorem found_ite {P : α → Prop} {done : Prop} [Decidable done]
    {now later : Option α × Option α × Option α} (first : Found epEvents P now)
    (second : Found epEvents P later) : Found epEvents P (if done then now else later) := by
  split
  · exact first
  · exact second

omit [DecidableEq α] in
private theorem matchLoop_found {P : α → Prop} {em : Mask} {inn out ew : Option α} {es : List α}
    (start : Found epEvents P (inn, out, ew)) (listed : ∀ x ∈ es, P x) :
    Found epEvents P (matchLoop epEvents priority here em inn out ew es) := by
  induction es generalizing em inn out ew with
  | nil => exact start
  | cons e es ih =>
      have now : P e := listed e (.head _)
      have hit : ∀ (mask bit : Mask), mask &&& epEvents e &&& bit ≠ 0 →
          P e ∧ epEvents e &&& bit ≠ 0 := by
        intro mask bit hit
        refine ⟨now, fun none => ?_⟩
        rw [BitVec.and_assoc, none] at hit
        simp at hit
      unfold matchLoop
      dsimp only
      exact found_ite
        ⟨chosen_ite (hit _ _) start.inn, chosen_ite (hit _ _) start.out,
          picked_ite now (picked_ite now start.ew)⟩
        (ih ⟨chosen_ite (hit _ _) start.inn, chosen_ite (hit _ _) start.out,
          picked_ite now (picked_ite now start.ew)⟩ fun x member => listed x (.tail _ member))

theorem matchingEvent_mem {em : Mask} {es : List α} {x : α}
    (found : (matchingEvent epEvents priority here em es).1 = some x ∨
      (matchingEvent epEvents priority here em es).2 = some x) : x ∈ es := by
  have all : Found epEvents (fun x => x ∈ es)
      (matchLoop epEvents priority here em none none none es) :=
    matchLoop_found ⟨by simp, by simp, by simp⟩ fun _ member => member
  unfold matchingEvent at found
  split at found
  · next inn out ew equal =>
    rw [equal] at all
    rcases found with moved | returned
    · split at moved
      · exact (all.out x moved).1
      · exact (all.inn x moved).1
    · exact all.ew x returned
  · next inn out equal =>
    rw [equal] at all
    rcases found with moved | returned
    · exact (all.inn x moved).1
    · exact (all.out x returned).1
  · next inn equal =>
    rw [equal] at all
    rcases found with moved | returned
    · cases moved
    · exact (all.inn x returned).1
  · next out equal =>
    rw [equal] at all
    rcases found with moved | returned
    · cases moved
    · exact (all.out x returned).1

private theorem matchingEvent_ne {em : Mask} {es : List α} {x y : α}
    (single : ∀ x ∈ es, epEvents x &&& EPOLLIN = 0 ∨ epEvents x &&& EPOLLOUT = 0)
    (moved : (matchingEvent epEvents priority here em es).1 = some x)
    (returned : (matchingEvent epEvents priority here em es).2 = some y) : x ≠ y := by
  have all : Found epEvents (fun x => x ∈ es)
      (matchLoop epEvents priority here em none none none es) :=
    matchLoop_found ⟨by simp, by simp, by simp⟩ fun _ member => member
  have apart : ∀ {x y}, (x ∈ es ∧ epEvents x &&& EPOLLIN ≠ 0) →
      (y ∈ es ∧ epEvents y &&& EPOLLOUT ≠ 0) → x ≠ y := by
    rintro x y ⟨member, inn⟩ ⟨_, out⟩ rfl
    rcases single x member with none | none
    · exact inn none
    · exact out none
  unfold matchingEvent at moved returned
  split at moved
  · next inn out ew equal =>
    rw [equal] at all returned
    obtain rfl := Option.some.inj returned
    split at moved
    · next same => exact (apart (all.inn ew same.symm) (all.out x moved)).symm
    · next different =>
      rintro rfl
      exact different moved.symm
  · next inn out equal =>
    rw [equal] at all returned
    exact apart (all.inn x moved) (all.out y returned)
  · cases moved
  · cases moved

omit [DecidableEq α] in
private theorem wakeupLoop_perm (here : α → Bool) (ew ex : Option α) (moved es : List α) :
    let r := wakeupLoop here ew ex moved es
    (r.1.toList ++ r.2.1.toList ++ r.2.2).Perm (ew.toList ++ ex.toList ++ moved ++ es) := by
  induction es generalizing ew ex moved with
  | nil => simp [wakeupLoop]
  | cons e es ih =>
      unfold wakeupLoop
      dsimp only
      split
      · next found =>
        refine (ih _ _ _).trans ?_
        simp only [found.1, Option.toList_some, Option.toList_none, List.nil_append,
          List.append_assoc, List.cons_append]
        have middle : ((ex.toList ++ moved) ++ e :: es).Perm (e :: (ex.toList ++ moved ++ es)) :=
          List.perm_middle
        simpa using middle.symm
      · split
        · next first =>
          refine (ih _ _ _).trans ?_
          simp only [first, Option.toList_some, Option.toList_none, List.append_assoc,
            List.nil_append, List.cons_append]
          exact .append_left _ List.perm_middle.symm
        · refine (ih _ _ _).trans ?_
          simp

omit [DecidableEq α] in
theorem wakeupAllEvents_perm (here : α → Bool) (es : List α) :
    ((wakeupAllEvents here es).1 ++ (wakeupAllEvents here es).2.toList).Perm es := by
  have all := wakeupLoop_perm here none none [] es
  unfold wakeupAllEvents
  split
  · next ew ex moved equal =>
    rw [equal] at all
    refine .trans ?_ (all.trans (by simp))
    simp only [Option.toList_some, List.append_assoc, List.cons_append, List.nil_append]
    exact List.perm_append_comm.trans (.swap _ _ _)
  · next ew moved equal =>
    rw [equal] at all
    refine .trans ?_ (all.trans (by simp))
    simp
  · next ex moved equal =>
    rw [equal] at all
    refine .trans ?_ (all.trans (by simp))
    simpa using List.perm_append_comm

end Selection

namespace State

/-- The effect of a report: the events `moved` go to `common.immediate`, and worker `w`
keeps the lock when there is an event `choice` to run. -/
structure HandleReport (s : State) (w : WorkerId) (f : FdId) (s' : State) (moved : List EventId)
    (choice : Option EventId) : Prop where
  effect : ∃ errHup fdEpEvents, s' = { s.moveToImmediate moved with
    errHup := errHup
    fdEpEvents := fdEpEvents }.keepReport w f choice
  nodup : moved.Nodup
  movedFrom : ∀ e ∈ moved, e ∈ s.events (.fd f)
  chosenFrom : ∀ e, choice = some e → e ∈ s.events (.fd f)
  stays : (∀ e ∈ s.events (.fd f),
      s.epEvents e &&& EPOLLIN = 0 ∨ s.epEvents e &&& EPOLLOUT = 0) →
    ∀ e, choice = some e → e ∉ moved

/-- The events that a report moves to `common.immediate`, and the one whose thread is to run. -/
def reportChoice (s : State) (w : WorkerId) (f : FdId) (em : Mask) :
    List EventId × Option EventId :=
  if s.errHup f ∨ em &&& (EPOLLERR ||| EPOLLHUP) ≠ 0 then
    wakeupAllEvents (s.here w) (s.events (.fd f))
  else
    let choice := matchingEvent s.epEvents (fun e => s.flags e = .priority) (s.here w) em
      (s.events (.fd f))
    (choice.1.toList, choice.2)

theorem handleReport_choice {s : State} (nodup : ∀ f, (s.events (.fd f)).Nodup) (w : WorkerId)
    (f : FdId) (em : Mask) :
    HandleReport s w f (s.handleReport w f em) (s.reportChoice w f em).1
      (s.reportChoice w f em).2 := by
  unfold handleReport reportChoice
  dsimp only
  split
  · have all := wakeupAllEvents_perm (s.here w) (s.events (.fd f))
    have distinct := all.nodup_iff.mpr (nodup f)
    refine ⟨⟨_, _, rfl⟩, distinct.of_append_left, ?_, ?_, ?_⟩
    · exact fun e member => all.mem_iff.mp (List.mem_append_left _ member)
    · intro e chosen
      exact all.mem_iff.mp (List.mem_append_right _ (by simp [chosen]))
    · intro _ e chosen member
      exact List.disjoint_of_nodup_append distinct member (by simp [chosen])
  · refine ⟨⟨s.errHup, _, rfl⟩, ?_, ?_, ?_, ?_⟩
    · cases (matchingEvent s.epEvents (fun e => s.flags e = .priority) (s.here w) em
        (s.events (.fd f))).1 <;> simp
    · intro e member
      exact matchingEvent_mem (.inl (by simpa using member))
    · intro e chosen
      exact matchingEvent_mem (.inr chosen)
    · intro single e chosen member
      exact matchingEvent_ne single (by simpa using member) chosen rfl

theorem handleReport_spec {s : State} (nodup : ∀ f, (s.events (.fd f)).Nodup) (w : WorkerId)
    (f : FdId) (em : Mask) : ∃ moved choice, HandleReport s w f (s.handleReport w f em) moved choice :=
  ⟨_, _, handleReport_choice nodup w f em⟩

inductive AddEventFd (s : State) (t : Tid) (e : EventId) (f : FdId) (mask : Mask)
    (flag : EventFlag) : Bool → State → Prop where
  | errHup : AddEventFd s t e f mask flag false s
  | armed (fdEpEvents : FdId → Mask) (free : s.el e = none) :
      AddEventFd s t e f mask flag true { s.attachEvent e (.fd f) t with
        epEvents := Function.update s.epEvents e mask
        flags := Function.update s.flags e flag
        fdEpEvents := fdEpEvents }
  | failed (fdEpEvents : FdId → Mask) (free : s.el e = none) :
      AddEventFd s t e f mask flag false ({ s.attachEvent e (.fd f) t with
        epEvents := Function.update s.epEvents e mask
        flags := Function.update s.flags e flag
        fdEpEvents := fdEpEvents }.detachEvent e)

theorem addEventFd_ok {s s' : State} {t : Tid} {e : EventId} {f : FdId} {mask : Mask}
    {flag : EventFlag} {ctl added : Bool}
    (done : s.addEventFd t e f mask flag ctl = .ok (added, s')) :
    AddEventFd s t e f mask flag added s' := by
  unfold addEventFd at done
  split at done
  · cases done
    exact .errHup
  · split at done
    · cases done
    · next s₁ queued =>
      obtain ⟨free, rfl⟩ := addEvent_ok queued
      dsimp only at done
      split at done
      · cases done
        exact .armed _ free
      · split at done
        · cases done
        · next s₂ removed =>
          obtain ⟨_, rfl⟩ := removeEventFrom_ok removed
          cases done
          exact .failed _ free

theorem addEventFd_error {s : State} {t : Tid} {e : EventId} {f : FdId} {mask : Mask}
    {flag : EventFlag} {ctl : Bool} {fault : Fault}
    (failed : s.addEventFd t e f mask flag ctl = .error fault) :
    s.el e ≠ none ∧ fault = .stillOnList := by
  unfold addEventFd at failed
  split at failed
  · cases failed
  · split at failed
    · next refused =>
      obtain ⟨on, rfl⟩ := addEvent_error refused
      exact ⟨on, (Except.error.inj failed).symm⟩
    · next s₁ queued =>
      obtain ⟨free, rfl⟩ := addEvent_ok queued
      dsimp only at failed
      split at failed
      · cases failed
      · split at failed
        · next refused =>
          -- the event has just been put on this list
          have contra := (removeEventFrom_error refused).1
          simp [arm, attachEvent, el] at contra
        · cases failed

end State

end Libtcr
