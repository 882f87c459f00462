import Libtcr.CallSteps
import Libtcr.MutexProperties

/-! The owner of a mutex holds it, or is about to return from `tc_mutex_lock`. -/

set_option autoImplicit false

namespace Libtcr

open State

def OwnerInv (s : State) (m : MutexId) : Prop :=
  ∀ t, s.owner m = some t →
    s.held t m = true ∨ ∃ f rest, s.frames t = f :: rest ∧ f.call = .mutex m

section Steps

variable {s s' : State} {a : Action} {m : MutexId} {t : Tid}

theorem OwnerInv.kept (owned : OwnerInv s m) (inv : SystemInv s) (stepped : s.step a = some s')
    (done : s.act a = some (.ok s')) (before : s.owner m = some t) (after : s'.owner m = some t)
    (locked : ∀ w, a ≠ .user w (.unlock m)) :
    s'.held t m = true ∨ ∃ f rest, s'.frames t = f :: rest ∧ f.call = .mutex m := by
  cases act_callStep inv done t with
  | idle _ _ calls held =>
      rw [held, calls.1]
      exact owned t before
  | entered w f rest _ _ frames after _ _ held =>
      rw [held]
      refine (owned t before).imp_right fun ⟨g, rest', again, call⟩ => ?_
      obtain ⟨rfl, _⟩ := List.cons.inj (again.symm.trans frames)
      exact ⟨_, rest, after, call⟩
  | user w op _ _ code effect =>
      rcases owned t before with held | ⟨f, rest, frames, call⟩
      · rcases effect.held (t := t) m with same | ⟨_, rfl | rfl⟩
        · exact .inl (same.trans held)
        · cases effect with
          | locked _ free => simp [free] at before
          | notLocked _ => exact .inl held
        · exact absurd rfl (locked w)
      · simp [inUserCode, frames, Frame.inCondition, call] at code
  | moved w f g rest _ _ _ _ frames after _ call _ _ held =>
      rw [held]
      refine (owned t before).imp_right fun ⟨g', rest', again, mutex⟩ => ?_
      obtain ⟨rfl, _⟩ := List.cons.inj (again.symm.trans frames)
      exact ⟨g, rest, after, call.trans mutex⟩
  | returned w f rest rv _ _ _ _ frames _ _ lock result locked held =>
      rcases owned t before with holds | ⟨g, rest', again, call⟩
      · by_cases gets : f.call = .mutex m ∧ rv = .ok
        · exact .inl (locked m gets.1 gets.2)
        · exact .inl ((held m (not_and_or.mp gets)).trans holds)
      · obtain ⟨rfl, _⟩ := List.cons.inj (again.symm.trans frames)
        rcases lock m call with rfl | rfl
        · exact .inl (locked m call rfl)
        · have none : s.result g.e = none := by
            obtain ⟨⟨n, auto⟩, live⟩ := (inv.thread t).frame g (by simp [State.view, frames])
            have none := inv.results t n (by simp [← auto, live])
            simpa [State.view, auto] using none
          exact absurd after (interrupted_foreign inv frames call none stepped (by simp [result])).1

private theorem State.Effect.becomes_owner (effect : s.Effect a s') (inv : SystemInv s)
    (free : s.owner m = none) (after : s'.owner m = some t) :
    s'.held t m = true ∨ ∃ f rest, s'.frames t = f :: rest ∧ f.call = .mutex m := by
  have same : s'.owner m = s.owner m → s'.held t m = true ∨
      ∃ f rest, s'.frames t = f :: rest ∧ f.call = .mutex m := by
    intro same
    rw [same, free] at after
    cases after
  have taken : ∀ (m' : MutexId) (u : Tid),
      s'.owner = Function.update s.owner m' (some u) → m' = m ∧ u = t := by
    intro m' u owner
    by_cases equal : m = m'
    · subst equal
      rw [owner, Function.update_self] at after
      exact ⟨rfl, Option.some.inj after⟩
    · rw [owner, Function.update_of_ne equal, free] at after
      cases after
  cases effect with
  | queued w scan x s₁ _ _ ran => exact same (congrFun (runOrQueue_owner ran) m)
  | reaped w scan x u s₁ _ _ _ ran => exact same (congrFun (runOrQueue_owner ran) m)
  | chosen w scan x u s₁ immediateFd _ _ _ ran => exact same (congrFun (runOrQueue_owner ran) m)
  | reported w g em _ _ =>
      obtain ⟨moved, choice, handled⟩ :=
        handleReport_spec (fun f => inv.lists.lists.nodup (.fd f)) w g em
      obtain ⟨errHup, fdEpEvents, equal⟩ := handled.effect
      exact same (by rw [equal]; rfl)
  | reportQueued w g x s₁ _ _ ran => exact same (congrFun (runOrQueue_owner ran) m)
  | reportChosen w g x u s₁ _ _ ran => exact same (congrFun (runOrQueue_owner ran) m)
  | user w u op _ on code effect =>
      cases effect with
      | wakeupOne q => exact same (congrFun (tcWaitqWakeupOne_owner s (.user q)) m)
      | subscribe g n _ _ subscribed =>
          obtain ⟨_, rfl⟩ := tcSignalSubscribe_ok subscribed
          exact same rfl
      | locked m' _ =>
          obtain ⟨rfl, rfl⟩ := taken m' u rfl
          exact .inl (by simp)
      | unlock m' held =>
          have holder := (inv.mutex u).holder m' (by simpa [State.view] using held)
          have owner : s.owner m' = some u := by simpa [State.view] using holder
          have other : m ≠ m' := by
            rintro rfl
            simp [free] at owner
          simp [other, free] at after
      | threadPost v s₁ _ added =>
          obtain ⟨_, rfl⟩ := addEventCr_ok added
          exact same rfl
      | yield n s₁ _ added =>
          obtain ⟨_, rfl⟩ := addEventCr_ok added
          exact same rfl
      | waitFdFailed n g mask priority ctl s₁ _ refused => cases refused <;> exact same rfl
      | waitFd n g mask priority ctl s₁ _ added =>
          cases added
          exact same rfl
      | waitqWait n q s₁ _ prepared =>
          obtain ⟨_, rfl⟩ := tcWaitqPrepareToWait_ok prepared
          exact same rfl
      | threadWait n v d id s₁ _ prepared =>
          obtain ⟨_, rfl⟩ := tcWaitqPrepareToWait_ok prepared
          exact same rfl
      | _ => exact same rfl
  | advanced w u g rest _ on frames effect =>
      cases effect with
      | scheduled _ _ scheduled => cases scheduled <;> exact same rfl
      | interrupted s₁ _ _ finished => exact same (congrFun (finishWait_owner finished) m)
      | again s₁ _ _ finished => exact same (congrFun (finishWait_owner finished) m)
      | woken s₁ _ _ _ finished => exact same (congrFun (finishWait_owner finished) m)
      | prepared wq s₁ _ _ _ prepared =>
          obtain ⟨_, rfl⟩ := tcWaitqPrepareToWait_ok prepared
          exact same rfl
      | held s₁ rv _ finished => exact same (congrFun (finishWait_owner finished) m)
      | acquired m' _ call _ =>
          obtain ⟨rfl, rfl⟩ := taken m' u rfl
          exact .inl (by simp [State.returnCall, call])
      | taken m' _ call _ =>
          obtain ⟨rfl, rfl⟩ := taken m' u rfl
          exact .inr ⟨{ g with pc := .holds }, rest, by simp [State.setFrame, frames], call⟩
      | _ => exact same rfl
  | died w u _ _ _ effect =>
      cases effect with
      | settled _ => exact same rfl
      | announced _ => exact same rfl
      | exits s₁ _ added =>
          obtain ⟨_, rfl⟩ := addEventCr_ok added
          exact same rfl
  | _ => exact same rfl

end Steps

theorem OwnerInv.step {s s' : State} {a : Action} {m : MutexId} (owned : OwnerInv s m)
    (inv : SystemInv s) (stepped : s.step a = some s') : OwnerInv s' m := by
  intro t after
  rcases step_act stepped with done | ⟨fault, _, rfl⟩
  · have effect := act_ok done
    rcases effect.owner inv.lists m with same | free | ⟨w, u, rfl, _, _, _⟩
    · by_cases unlocks : ∃ w, a = .user w (.unlock m)
      · obtain ⟨w, rfl⟩ := unlocks
        obtain ⟨f, _, ⟨rest, frames⟩, call, _⟩ := Granted.of_unlock inv stepped after
        exact .inr ⟨f, rest, frames, call⟩
      · exact owned.kept inv stepped done (same.symm.trans after) after
          fun w equal => unlocks ⟨w, equal⟩
    · exact effect.becomes_owner inv free after
    · obtain ⟨f, _, ⟨rest, frames⟩, call, _⟩ := Granted.of_unlock inv stepped after
      exact .inr ⟨f, rest, frames, call⟩
  · exact owned t after

theorem OwnerInv.initial (workers : Nat) (domainOf : WorkerId → DomainId) (m : MutexId) :
    OwnerInv (.initial workers domainOf) m := by
  intro t owner
  simp [State.initial] at owner

/-! ## Who holds a mutex -/

section Holder

variable {s s' : State} {w : WorkerId} {t u : Tid} {m : MutexId}

theorem owner_of_held (inv : SystemInv s) (held : s.held t m = true) : s.owner m = some t := by
  have mine := (inv.mutex t).holder m (by simpa [State.view] using held)
  simpa [State.view] using mine

theorem held_unique (inv : SystemInv s) (first : s.held t m = true) (second : s.held u m = true) :
    t = u :=
  Option.some.inj ((owner_of_held inv first).symm.trans (owner_of_held inv second))

theorem act_trylock (on : s.mode w = .thread t)
    (done : s.act (.user w (.trylock m)) = some (.ok s')) :
    s'.frames = s.frames ∧ (s.owner m = none → s'.held t m = true) ∧
      (s.owner m ≠ none → s'.held = s.held) := by
  simp only [act, on] at done
  split at done
  · simp only [userStep, casOwner] at done
    by_cases free : s.owner m = none
    · simp only [free, if_true, Option.some.injEq, Except.ok.injEq] at done
      subst done
      exact ⟨rfl, fun _ => by simp, fun other => absurd free other⟩
    · simp only [free, if_false, Option.some.injEq, Except.ok.injEq] at done
      subst done
      exact ⟨rfl, fun none => absurd none free, fun _ => rfl⟩
  · cases done

end Holder

end Libtcr
