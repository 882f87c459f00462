import Libtcr.Scheduler

/-! The outcomes of the functions that decide which thread runs. -/

set_option autoImplicit false

namespace Libtcr.State

/-! ## Adding and removing events -/

theorem addEvent_ok {s s' : State} {e : EventId} {k : EventList} {t : Tid}
    (added : s.addEvent e k t = .ok s') : s.el e = none ∧ s' = s.attachEvent e k t := by
  unfold addEvent at added
  split at added
  · exact ⟨by assumption, (Except.ok.inj added).symm⟩
  · cases added

theorem addEvent_error {s : State} {e : EventId} {k : EventList} {t : Tid} {fault : Fault}
    (failed : s.addEvent e k t = .error fault) : s.el e ≠ none ∧ fault = .stillOnList := by
  unfold addEvent at failed
  split at failed
  · cases failed
  · exact ⟨by assumption, (Except.error.inj failed).symm⟩

theorem addEventCr_ok {s s' : State} {e : EventId} {flag : EventFlag} {t : Tid}
    (added : s.addEventCr e flag t = .ok s') : s.el e = none ∧
      s' = { s.attachEvent e .immediate t with
        flags := Function.update s.flags e flag
        epEvents := Function.update s.epEvents e 0
        immediateCount := s.immediateCount + 1 } := by
  unfold addEventCr at added
  split at added
  · cases added
  · next s₁ queued =>
    obtain ⟨free, rfl⟩ := addEvent_ok queued
    exact ⟨free, (Except.ok.inj added).symm⟩

theorem addEventCr_error {s : State} {e : EventId} {flag : EventFlag} {t : Tid} {fault : Fault}
    (failed : s.addEventCr e flag t = .error fault) : s.el e ≠ none ∧ fault = .stillOnList := by
  unfold addEventCr at failed
  split at failed
  · next refused =>
    obtain rfl := Except.error.inj failed
    exact addEvent_error refused
  · cases failed

private theorem moveEvent_ok {s s' : State} {e : EventId} {target : EventList}
    (moved : s.moveEvent e target = .ok s') :
    ∃ k, s.el e = some k ∧ k ≠ target ∧ s' = s.relocateEvent e target := by
  unfold moveEvent at moved
  split at moved
  · cases moved
  · next k on =>
    split at moved
    · cases moved
    · exact ⟨k, on, by assumption, (Except.ok.inj moved).symm⟩

theorem moveEvent_error {s : State} {e : EventId} {target : EventList} {fault : Fault}
    (failed : s.moveEvent e target = .error fault) :
    s.el e = none ∧ fault = .notOnList ∨ s.el e = some target ∧ fault = .assertMoveEvent := by
  unfold moveEvent at failed
  split at failed
  · exact .inl ⟨by assumption, (Except.error.inj failed).symm⟩
  · next k on =>
    split at failed
    · next same => exact .inr ⟨same ▸ on, (Except.error.inj failed).symm⟩
    · cases failed

theorem removeEventFrom_ok {s s' : State} {e : EventId} {k : EventList}
    (removed : s.removeEventFrom e k = .ok s') : s.el e = some k ∧ s' = s.detachEvent e := by
  unfold removeEventFrom at removed
  split at removed
  · exact ⟨by assumption, (Except.ok.inj removed).symm⟩
  · cases removed

theorem removeEventFrom_error {s : State} {e : EventId} {k : EventList} {fault : Fault}
    (failed : s.removeEventFrom e k = .error fault) :
    s.el e ≠ some k ∧ fault = .assertRemoveEvent := by
  unfold removeEventFrom at failed
  split at failed
  · cases failed
  · exact ⟨by assumption, (Except.error.inj failed).symm⟩

theorem removeEvent_some {s s' : State} {e : EventId} (removed : s.removeEvent e = some s') :
    s.el e ≠ none ∧ (∀ f, s.el e = some (.fd f) → s.fdLock f = false) ∧ s' = s.detachEvent e := by
  unfold removeEvent at removed
  split at removed
  · cases removed
  · next f on =>
    split at removed
    · cases removed
    · next free =>
      refine ⟨by simp [on], ?_, (Option.some.inj removed).symm⟩
      intro g same
      obtain rfl : f = g := by simpa [on] using same
      simpa using free
  · next k other on =>
    refine ⟨by simp [on], ?_, (Option.some.inj removed).symm⟩
    rintro f same
    exact absurd (Option.some.inj (on.symm.trans same)) (other f)

/-! ## Selecting a thread -/

inductive RunOrQueue (s : State) (w : WorkerId) (e : EventId) : Option Tid → State → Prop where
  | exits (exiting : s.flags e = .exiting) (on : s.el e = some .immediate) :
      RunOrQueue s w e (some (s.tc e)) (s.detachEvent e)
  | queued (k : EventList) (tcfd : EventId → Option FdId) (on : s.el e = some k)
      (elsewhere : k ≠ .pending (s.tc e)) (stays : s.flags e ≠ .exiting)
      (refused : s.running (s.tc e) = true ∨ s.flags e ≠ .signal ∧
        s.eventStack (s.tc e) ≠ none ∧ s.eventStack (s.tc e) ≠ some e) :
      RunOrQueue s w e none ({ s with tcfd := tcfd }.relocateEvent e (.pending (s.tc e)))
  | signalled (k : EventList) (on : s.el e = some k)
      (elsewhere : k ≠ .waiters (.signal (s.signal e))) (signal : s.flags e = .signal)
      (idle : s.running (s.tc e) = false) :
      RunOrQueue s w e (some (s.tc e))
        { s.relocateEvent e (.waiters (.signal (s.signal e))) with
          running := Function.update s.running (s.tc e) true
          wokenByEvent := Function.update s.wokenByEvent w (some e) }
  | selected (k : EventList) (on : s.el e = some k) (event : s.flags e ≠ .signal)
      (stays : s.flags e ≠ .exiting) (idle : s.running (s.tc e) = false)
      (top : s.eventStack (s.tc e) = none ∨ s.eventStack (s.tc e) = some e) :
      RunOrQueue s w e (some (s.tc e))
        { s.detachEvent e with
          running := Function.update s.running (s.tc e) true
          wokenByEvent := Function.update s.wokenByEvent w (some e) }

theorem RunOrQueue.frame {s s' : State} {w : WorkerId} {e : EventId} {chosen : Option Tid}
    (ran : RunOrQueue s w e chosen s') :
    ∃ lists count negative refcnt tcfd running woken, s' = { s with
      lists := lists
      immediateCount := count
      immediateNegative := negative
      refcnt := refcnt
      tcfd := tcfd
      running := running
      wokenByEvent := woken } := by
  cases ran with
  | exits _ _ => exact ⟨_, _, _, _, _, _, _, rfl⟩
  | queued _ _ _ _ _ _ => exact ⟨_, _, _, _, _, _, _, rfl⟩
  | signalled _ _ _ _ _ => exact ⟨_, _, _, _, _, _, _, rfl⟩
  | selected _ _ _ _ _ _ => exact ⟨_, _, _, _, _, _, _, rfl⟩

theorem RunOrQueue.placed {s s' : State} {w : WorkerId} {e : EventId} {chosen : Option Tid}
    (ran : RunOrQueue s w e chosen s') : s.el e ≠ none := by
  cases ran with
  | exits _ on => simp [on]
  | queued k _ on _ _ _ => simp [on]
  | signalled k on _ _ _ => simp [on]
  | selected k on _ _ _ _ => simp [on]

theorem runOrQueue_ok {s s' : State} {w : WorkerId} {e : EventId} {chosen : Option Tid}
    (ran : s.runOrQueue w e = .ok (chosen, s')) : RunOrQueue s w e chosen s' := by
  unfold runOrQueue at ran
  dsimp only at ran
  by_cases off : s.el e = none
  · rw [if_pos off] at ran
    cases ran
  rw [if_neg off] at ran
  obtain ⟨k, on⟩ := Option.ne_none_iff_exists'.mp off
  by_cases exiting : s.flags e = .exiting
  · rw [if_pos exiting] at ran
    split at ran
    · cases ran
    · next s₁ removed =>
      obtain ⟨immediate, rfl⟩ := removeEventFrom_ok removed
      cases ran
      exact .exits exiting immediate
  rw [if_neg exiting] at ran
  by_cases refused : s.running (s.tc e) = true ∨ s.flags e ≠ .signal ∧
      s.eventStack (s.tc e) ≠ none ∧ s.eventStack (s.tc e) ≠ some e
  · rw [if_pos refused] at ran
    split at ran
    · cases ran
    · next s₁ moved =>
      obtain ⟨k', on', elsewhere, rfl⟩ := moveEvent_ok moved
      cases ran
      exact .queued k' _ on' elsewhere exiting refused
  rw [if_neg refused] at ran
  have idle : s.running (s.tc e) = false := by simpa using fun run => refused (.inl run)
  by_cases signal : s.flags e = .signal
  · rw [if_pos signal] at ran
    split at ran
    · cases ran
    · next s₁ moved =>
      obtain ⟨k', on', elsewhere, rfl⟩ := moveEvent_ok moved
      cases ran
      exact .signalled k' on' elsewhere signal idle
  · rw [if_neg signal] at ran
    cases ran
    refine .selected k on signal exiting idle ?_
    by_contra other
    exact refused (.inr ⟨signal, fun none => other (.inl none), fun top => other (.inr top)⟩)

theorem searchImmediate_mem {s : State} {w : WorkerId} {scan : Scan} {es : List EventId}
    {e : EventId} (found : s.searchImmediate w scan es = .ok (some e)) : e ∈ es := by
  induction es with
  | nil => simp [searchImmediate] at found
  | cons x es ih =>
      unfold searchImmediate at found
      split at found
      · cases found
      · split at found
        · cases found
          exact .head _
        · exact .tail _ (ih found)

private theorem searchPending_some {s : State} {top e : EventId} {sig : Option EventId}
    {es : List EventId} (found : s.searchPending top sig es = some e) :
    e = top ∧ e ∈ es ∨ s.flags e = .signal ∧ e ∈ es ∨ sig = some e := by
  induction es generalizing sig with
  | nil => exact .inr (.inr found)
  | cons x es ih =>
      unfold searchPending at found
      split at found
      · next same =>
        cases found
        exact .inl ⟨same, .head _⟩
      · rcases ih found with ⟨same, member⟩ | ⟨signal, member⟩ | last
        · exact .inl ⟨same, .tail _ member⟩
        · exact .inr (.inl ⟨signal, .tail _ member⟩)
        · split at last
          · next signal =>
            cases last
            exact .inr (.inl ⟨signal, .head _⟩)
          · exact .inr (.inr last)

private theorem searchPending_none {s : State} {top : EventId} {sig : Option EventId}
    {es : List EventId} (nothing : s.searchPending top sig es = none) :
    sig = none ∧ ∀ e ∈ es, e ≠ top ∧ s.flags e ≠ .signal := by
  induction es generalizing sig with
  | nil => exact ⟨nothing, by simp⟩
  | cons x es ih =>
      unfold searchPending at nothing
      split at nothing
      · cases nothing
      · next different =>
        obtain ⟨last, rest⟩ := ih nothing
        split at last
        · cases last
        · next event =>
          refine ⟨last, fun e member => ?_⟩
          rcases List.mem_cons.mp member with rfl | later
          · exact ⟨different, event⟩
          · exact rest e later

private theorem pendingEvent_none {s : State} {t : Tid} (nothing : s.pendingEvent t = none) :
    ∀ e ∈ s.events (.pending t),
      s.flags e ≠ .signal ∧ s.eventStack t ≠ none ∧ s.eventStack t ≠ some e := by
  intro e member
  unfold pendingEvent at nothing
  split at nothing
  · rw [List.head?_eq_none_iff] at nothing
    simp [nothing] at member
  · next top stack =>
    obtain ⟨different, event⟩ := (searchPending_none nothing).2 e member
    refine ⟨event, by simp [stack], ?_⟩
    rw [stack]
    exact fun same => different (Option.some.inj same).symm

theorem pendingEvent_some {s : State} {t : Tid} {e : EventId} (found : s.pendingEvent t = some e) :
    e ∈ s.events (.pending t) ∧
      (s.flags e ≠ .signal → s.eventStack t = none ∨ s.eventStack t = some e) := by
  unfold pendingEvent at found
  split at found
  · next stack => exact ⟨List.mem_of_head? found, fun _ => .inl stack⟩
  · next top stack =>
    rcases searchPending_some found with ⟨rfl, member⟩ | ⟨signal, member⟩ | none
    · exact ⟨member, fun _ => .inr stack⟩
    · exact ⟨member, fun event => absurd signal event⟩
    · cases none

inductive TcScheduler (s : State) (w : WorkerId) (t : Tid) (f : Frame) : State → Prop where
  | slept (nothing : ∀ e ∈ s.events (.pending t),
        s.flags e ≠ .signal ∧ s.eventStack t ≠ none ∧ s.eventStack t ≠ some e) :
      TcScheduler s w t f ({ s with
        running := Function.update s.running t false
        mode := Function.update s.mode w (.leave t) }.setFrame t { f with pc := .asleep })
  | signalled (e : EventId) (tcfd : WorkerId → Option FdId) (pending : e ∈ s.events (.pending t))
      (on : s.el e ≠ none) (signal : s.flags e = .signal) :
      TcScheduler s w t f ({ s.relocateEvent e (.waiters (.signal (s.signal e))) with
        wokenByEvent := Function.update s.wokenByEvent w (some e)
        wokenByTcfd := tcfd }.setFrame t { f with pc := .woke })
  | resumed (e : EventId) (tcfd : WorkerId → Option FdId) (pending : e ∈ s.events (.pending t))
      (on : s.el e = some (.pending t)) (event : s.flags e ≠ .signal)
      (top : s.eventStack t = none ∨ s.eventStack t = some e) :
      TcScheduler s w t f ({ s.detachEvent e with
        wokenByEvent := Function.update s.wokenByEvent w (some e)
        wokenByTcfd := tcfd }.setFrame t { f with pc := .woke })

theorem tcScheduler_ok {s s' : State} {w : WorkerId} {t : Tid} {f : Frame}
    (scheduled : s.tcScheduler w t f = .ok s') : TcScheduler s w t f s' := by
  unfold tcScheduler at scheduled
  split at scheduled
  · next e found =>
    obtain ⟨pending, top⟩ := pendingEvent_some found
    split at scheduled
    · cases scheduled
    · next s₁ taken =>
      cases scheduled
      split at taken
      · next signal =>
        obtain ⟨k, on, _, rfl⟩ := moveEvent_ok taken
        exact .signalled e _ pending (by simp [on]) signal
      · next event =>
        obtain ⟨on, rfl⟩ := removeEventFrom_ok taken
        exact .resumed e _ pending on event (top event)
  · next nothing =>
    cases scheduled
    exact .slept (pendingEvent_none nothing)

end Libtcr.State
