import Libtcr.Lib.Update
import Libtcr.SpinLocks

/-! The functions of the library take their spin locks in one order, so that no workers spin for each
other. -/

set_option autoImplicit false

namespace Libtcr

open LockMachine (Cmd)

/-! ## Places of events -/

/-- An event is active, or on the list on which it was queued first. -/
def EventObject.Fits (e : EventObject) (el : EventList) : Prop :=
  el = .immediate ∨ el = .pending e.owner ∨ el = e.home

def EventPlaces.Fit (d : EventPlaces) : Prop := ∀ e el, d e = some el → e.Fits el

inductive PlaceChange (held : List SpinLock) (d d' : EventPlaces) : Prop where
  | same (same : d' = d)
  | removed (e : EventObject) (removed : d' = Function.update d e none)
  | put (e : EventObject) (el : EventList) (fits : e.Fits el) (locked : .list el ∈ held)
      (put : d' = Function.update d e (some el))
  | woken (wq : Waitq) (locked : .list .immediate ∈ held) (woken : d' = d.wakeAll wq)

section Places

variable {held : List SpinLock} {d d' : EventPlaces} {e : EventObject} {el : EventList}

private theorem EventPlaces.add_change (done : d.add e el = some d') (fits : e.Fits el)
    (locked : .list el ∈ held) : PlaceChange held d d' := by
  unfold EventPlaces.add at done
  split at done
  · cases done
    exact .put e el fits locked rfl
  · cases done

private theorem EventPlaces.move_change (done : d.move e el = some d') (fits : e.Fits el)
    (locked : .list el ∈ held) : PlaceChange held d d' := by
  unfold EventPlaces.move at done
  split at done
  · split at done
    · cases done
    · cases done
      exact .put e el fits locked rfl
  · cases done

private theorem EventPlaces.remove_change (done : d.remove e el = some d') :
    PlaceChange held d d' := by
  unfold EventPlaces.remove at done
  split at done
  · cases done
    exact .removed e rfl
  · cases done

/-- An event is put on a list only by a worker that holds the lock of the list. -/
theorem PlaceChange.locked (change : PlaceChange held d d') (now : d' e = some el) :
    d e = some el ∨ .list el ∈ held := by
  cases change with
  | same same => exact .inl (same ▸ now)
  | removed x removed =>
      rw [removed] at now
      exact .inl (Update.old_of_ne now (by simp)).2
  | put x el' _ locked put =>
      rw [put] at now
      rcases Update.eq_cases now with ⟨_, new⟩ | ⟨_, before⟩
      · exact .inr (Option.some.inj new ▸ locked)
      · exact .inl before
  | woken wq locked woken =>
      rw [woken, EventPlaces.wakeAll] at now
      split at now
      · obtain rfl : EventList.immediate = el := by simpa using now
        exact .inr locked
      · exact .inl now

theorem PlaceChange.fit (change : PlaceChange held d d') (fit : d.Fit) : d'.Fit := by
  intro e el now
  cases change with
  | same same => exact fit e el (same ▸ now)
  | removed x removed =>
      rw [removed] at now
      exact fit e el (Update.old_of_ne now (by simp)).2
  | put x el' fits _ put =>
      rw [put] at now
      rcases Update.eq_cases now with ⟨same, new⟩ | ⟨_, before⟩
      · cases new
        exact same ▸ fits
      · exact fit e el before
  | woken wq _ woken =>
      rw [woken, EventPlaces.wakeAll] at now
      split at now
      · obtain rfl : EventList.immediate = el := by simpa using now
        exact .inl rfl
      · exact fit e el now

end Places

/-! ## The discipline -/

def SpinLock.rank (l : SpinLock) : Nat := l.lockClass.rank

@[simp] theorem SpinLock.rank_domain (d : DomainId) : (SpinLock.domain d).rank = 0 := rfl
@[simp] theorem SpinLock.rank_timer (d : DomainId) : (SpinLock.timer d).rank = 1 := rfl
@[simp] theorem SpinLock.rank_fd (f : FdId) : (SpinLock.list (.fd f)).rank = 2 := rfl
@[simp] theorem SpinLock.rank_immediate : (SpinLock.list .immediate).rank = 3 := rfl
@[simp] theorem SpinLock.rank_pending (t : Tid) : (SpinLock.list (.pending t)).rank = 4 := rfl
@[simp] theorem SpinLock.rank_waiters (wq : Waitq) : (SpinLock.list (.waiters wq)).rank = 5 := rfl

/-- The locks with which an instruction is executed. In `remove_event_holding_locks` the event may be
on a list that is not locked only if that is the one of a wait queue. -/
@[simp] def LockInstr.Allowed (held : List SpinLock) : LockInstr → Prop
  | .add e el | .move e el => .list el ∈ held ∧ e.Fits el
  | .addArmed _ _ f => .list (.fd f) ∈ held
  | .removeEvent _ => held = []
  | .recheck _ el => held = [.list el]
  | .removeHolding e els =>
    (∀ el, e.Fits el → el ∈ els) ∨
      held = [.list (.pending e.owner), .list .immediate] ∧ els = [.pending e.owner, .immediate] ∧
        ∃ wq, e.home = .waiters wq
  | .runOrQueue e => ∀ h ∈ held, h.rank < (SpinLock.list (.pending e.owner)).rank
  | .deliver e => .list (.pending e.owner) ∈ held ∧
      ∀ t n g, e = .sub t n g → .list (.waiters (.signal g)) ∈ held
  | .search | .found => held = [.list .immediate]
  | .resume t => held = [.list (.pending t)]
  | .wakeOne _ | .wakeAll _ => .list .immediate ∈ held
  | .matching f => held = [.list (.fd f)]
  | .valid _ _ _ => ∃ d, held = [.domain d]
  | .finish t _ _ _ _ => held = [.list (.pending t), .list .immediate]
  | .cancel t el => held = [.list el] ∧ (el = .immediate ∨ el = .pending t)
  | .newMaster | .sleepers => ∃ d, held = [.timer d]

/-- The locks that the worker holds when it has executed the instruction. -/
@[simp] def LockInstr.after (held : List SpinLock) : LockInstr → List SpinLock
  | .recheck _ el => held.erase (.list el)
  | _ => held

/-- The commands take locks in the order of their classes, and leave none behind. -/
@[simp] def LockOrderly : List SpinLock → List LockCmd → Prop
  | held, [] => held = []
  | held, .lock l :: rest => (∀ h ∈ held, h.rank < l.rank) ∧ LockOrderly (l :: held) rest
  | held, .unlock l :: rest => l ∈ held ∧ LockOrderly (held.erase l) rest
  | held, .run i :: rest => i.Allowed held ∧ LockOrderly (i.after held) rest

/-- Nobody has put the event on a list whose lock is held since it was found to be on none of them. -/
def EventPlaces.Settled (d : EventPlaces) (e : EventObject) : Prop :=
  d e ≠ some .immediate ∧ d e ≠ some (.pending e.owner)

/-- In `remove_event`, called by `remove_event_holding_locks` for an event on a wait queue. -/
inductive InRemoveEvent (e : EventObject) (wq : Waitq) (rest : List LockCmd) :
    List SpinLock → List LockCmd → Prop where
  | reads : InRemoveEvent e wq rest [.list (.pending e.owner), .list .immediate]
      (.run (.removeEvent e) :: rest)
  | locks : InRemoveEvent e wq rest [.list (.pending e.owner), .list .immediate]
      (.lock (.list (.waiters wq)) :: .run (.recheck e (.waiters wq)) :: rest)
  | rechecks : InRemoveEvent e wq rest
      [.list (.waiters wq), .list (.pending e.owner), .list .immediate]
      (.run (.recheck e (.waiters wq)) :: rest)
  | again : InRemoveEvent e wq rest
      [.list (.waiters wq), .list (.pending e.owner), .list .immediate]
      (.unlock (.list (.waiters wq)) :: .run (.removeEvent e) :: rest)

inductive LockFine (d : EventPlaces) (held : List SpinLock) (cmds : List LockCmd) : Prop where
  | safe (safe : LockOrderly held cmds)
  | removing (e : EventObject) (wq : Waitq) (rest : List LockCmd) (home : e.home = .waiters wq)
      (settled : d.Settled e) (safe : LockOrderly [.list (.pending e.owner), .list .immediate] rest)
      (removing : InRemoveEvent e wq rest held cmds)

section Discipline

variable {held held' : List SpinLock} {d d' : EventPlaces} {e : EventObject} {wq : Waitq}
  {i : LockInstr} {c : LockChoice} {cmds rest : List LockCmd} {l : SpinLock}

private theorem LockOp.body_safe (op : LockOp) : LockOrderly [] op.body := by
  cases op <;>
    simp [LockOp.body, critical, prepareToWaitLocks, tcWaitqWakeupAllLocks,
      tcWaitqWakeupOneOwnerLocks, EventObject.Fits, EventObject.home, EventObject.owner]

private theorem recheck_change {el : EventList}
    (done : (LockInstr.recheck e el).exec d c = some (d', cmds)) : PlaceChange held d d' := by
  simp only [LockInstr.exec] at done
  split at done <;> cases done
  · exact .removed e rfl
  · exact .same rfl

/-- What comes of an instruction that is executed with the right locks. -/
structure LockExecutes (held : List SpinLock) (d : EventPlaces) (after : List SpinLock) (d' : EventPlaces)
    (cmds : List LockCmd) : Prop where
  change : PlaceChange held d d'
  fine : ∀ rest, LockOrderly after rest → LockFine d' held (cmds ++ rest)

theorem LockExecutes.nil (change : PlaceChange held d d') : LockExecutes held d held d' [] :=
  ⟨change, fun _ safe => .safe safe⟩

theorem LockExecutes.same (fine : ∀ rest, LockOrderly held rest → LockOrderly held (cmds ++ rest)) :
    LockExecutes held d held d cmds :=
  ⟨.same rfl, fun rest safe => .safe (fine rest safe)⟩

theorem LockExecutes.add {el : EventList} (done : (d.add e el).map (·, []) = some (d', cmds))
    (fits : e.Fits el) (locked : .list el ∈ held) : LockExecutes held d held d' cmds := by
  obtain ⟨d₁, added, same⟩ := Option.map_eq_some_iff.mp done
  cases same
  exact .nil (EventPlaces.add_change added fits locked)

theorem LockExecutes.move {el : EventList} (done : (d.move e el).map (·, []) = some (d', cmds))
    (fits : e.Fits el) (locked : .list el ∈ held) : LockExecutes held d held d' cmds := by
  obtain ⟨d₁, moved, same⟩ := Option.map_eq_some_iff.mp done
  cases same
  exact .nil (EventPlaces.move_change moved fits locked)

theorem LockExecutes.remove {el : EventList} (done : (d.remove e el).map (·, []) = some (d', cmds)) :
    LockExecutes held d held d' cmds := by
  obtain ⟨d₁, removed, same⟩ := Option.map_eq_some_iff.mp done
  cases same
  exact .nil (EventPlaces.remove_change removed)

/-- `run_or_queue` takes its locks in order after that of the list on which it has found the event. -/
theorem runOrQueueLocks_safe (e : EventObject)
    (below : ∀ h ∈ held, h.rank < (SpinLock.list (.pending e.owner)).rank) (safe : LockOrderly held rest) :
    LockOrderly held (runOrQueueLocks e ++ rest) := by
  simp only [SpinLock.rank_pending] at below
  cases e with
  | sub t n g =>
      have waiters : ∀ h ∈ held, h.rank < 5 := fun h member => Nat.lt_succ_of_lt (below h member)
      simpa [runOrQueueLocks, EventObject.owner, safe] using ⟨below, waiters⟩
  | _ => simpa [runOrQueueLocks, EventObject.owner, safe]

private theorem tcWaitqWakeupAllLocks_safe (wq : Waitq)
    (below : ∀ h ∈ held, h.rank < (SpinLock.list .immediate).rank) (safe : LockOrderly held rest) :
    LockOrderly held (tcWaitqWakeupAllLocks wq ++ rest) := by
  simp only [SpinLock.rank_immediate] at below
  have waiters : ∀ h ∈ held, h.rank < 5 := by
    intro h member
    have less := below h member
    omega
  simpa [tcWaitqWakeupAllLocks, safe] using ⟨below, waiters⟩

private theorem runOrQueue_executes
    (below : ∀ h ∈ held, h.rank < (SpinLock.list (.pending e.owner)).rank)
    (done : (LockInstr.runOrQueue e).exec d c = some (d', cmds)) :
    LockExecutes held d held d' cmds := by
  by_cases exiting : ∃ t, e = .self t ∧ c = .yes
  · obtain ⟨t, rfl, rfl⟩ := exiting
    exact .remove done
  · rw [LockInstr.exec] at done
    · split at done <;> cases done
      exact .same fun rest safe => runOrQueueLocks_safe e below safe
    · intro t yes self
      exact exiting ⟨t, self, yes⟩

private theorem deliver_executes (allowed : (LockInstr.deliver e).Allowed held)
    (done : (LockInstr.deliver e).exec d c = some (d', cmds)) :
    LockExecutes held d held d' cmds := by
  have removed : c = .yes → (∀ t n g, e ≠ .sub t n g) → LockExecutes held d held d' cmds := by
    rintro rfl other
    rw [LockInstr.exec] at done
    · split at done <;> cases done
      exact .nil (.removed e rfl)
    · exact other
  cases c with
  | no => exact .move done (.inr (.inl rfl)) allowed.1
  | yes =>
      cases e with
      | sub t n g => exact .move done (.inr (.inr rfl)) (allowed.2 t n g rfl)
      | _ => exact removed rfl (by simp)
  | _ => cases e <;> cases done

private theorem resume_executes {t : Tid} (done : (LockInstr.resume t).exec d c = some (d', cmds)) :
    LockExecutes [.list (.pending t)] d [.list (.pending t)] d' cmds := by
  cases c with
  | no =>
      cases done
      exact .nil (.same rfl)
  | event x =>
      cases x with
      | sub u n g =>
          simp only [LockInstr.exec] at done
          split at done <;> cases done
          exact .same fun rest safe => by
            simpa [EventObject.Fits, EventObject.home] using safe
      | _ => exact .remove done
  | _ => cases done

private theorem cancel_executes {t : Tid} {el : EventList}
    (active : el = .immediate ∨ el = .pending t)
    (done : (LockInstr.cancel t el).exec d c = some (d', cmds)) :
    LockExecutes [.list el] d [.list el] d' cmds := by
  have below : (SpinLock.list el).rank < 5 := by
    rcases active with rfl | rfl <;> simp
  cases c with
  | no =>
      cases done
      exact .nil (.same rfl)
  | event x =>
      cases x with
      | sub u n g =>
          simp only [LockInstr.exec] at done
          split at done
          · obtain ⟨d₁, removed, same⟩ := Option.map_eq_some_iff.mp done
            cases same
            refine ⟨EventPlaces.remove_change removed, fun rest safe => .safe ?_⟩
            simpa [critical, below, active] using safe
          · cases done
      | _ => cases done
  | _ => cases done

private theorem removeEvent_executes {x : EventObject}
    (allowed : (LockInstr.removeEvent x).Allowed held)
    (done : (LockInstr.removeEvent x).exec d c = some (d', cmds)) :
    LockExecutes held d held d' cmds := by
  obtain rfl : held = [] := allowed
  simp only [LockInstr.exec] at done
  split at done <;> cases done
  · exact .same fun rest safe => ⟨rfl, safe⟩
  · exact .same fun rest safe => by simpa using safe

/-- The event is still on the list whose lock the worker has taken, or it starts again. -/
theorem recheck_executes {x : EventObject} {el : EventList}
    (allowed : (LockInstr.recheck x el).Allowed held)
    (done : (LockInstr.recheck x el).exec d c = some (d', cmds)) :
    LockExecutes held d ((LockInstr.recheck x el).after held) d' cmds := by
  obtain rfl : held = [.list el] := allowed
  refine ⟨recheck_change done, fun rest safe => .safe ?_⟩
  simp only [LockInstr.after, List.erase_cons_head] at safe
  simp only [LockInstr.exec] at done
  split at done <;> cases done
  · simpa using safe
  · simpa using safe

private theorem removeHolding_executes {x : EventObject} {els : List EventList}
    (allowed : (LockInstr.removeHolding x els).Allowed held) (fit : d.Fit)
    (done : (LockInstr.removeHolding x els).exec d c = some (d', cmds)) :
    LockExecutes held d held d' cmds := by
  simp only [LockInstr.exec] at done
  split at done
  · cases done
    exact .nil (.same rfl)
  · next el on =>
    split at done <;> cases done
    · exact .nil (.removed x rfl)
    · next away =>
      rcases allowed with all | ⟨rfl, rfl, wq, home⟩
      · exact absurd (all el (fit x el on)) away
      · refine ⟨.same rfl, fun rest safe => .removing x wq rest home ?_ safe .reads⟩
        simp only [List.mem_cons, List.not_mem_nil, or_false, not_or] at away
        constructor
        · simpa [on] using away.2
        · simpa [on] using away.1

private theorem search_executes (allowed : LockInstr.search.Allowed held)
    (done : LockInstr.search.exec d c = some (d', cmds)) : LockExecutes held d held d' cmds := by
  obtain rfl : held = [.list .immediate] := allowed
  cases c with
  | no =>
      cases done
      exact .nil (.same rfl)
  | event x =>
      simp only [LockInstr.exec] at done
      split at done <;> cases done
      exact .same fun rest safe => by simpa using safe
  | _ => cases done

private theorem found_executes (allowed : LockInstr.found.Allowed held)
    (done : LockInstr.found.exec d c = some (d', cmds)) : LockExecutes held d held d' cmds := by
  obtain rfl : held = [.list .immediate] := allowed
  cases c with
  | no =>
      cases done
      exact .same fun rest safe => ⟨rfl, safe⟩
  | again =>
      cases done
      exact .same fun rest safe => by simpa using safe
  | yes =>
      cases done
      exact .nil (.same rfl)
  | _ => cases done

private theorem wakeOne_executes {q : Waitq} (allowed : (LockInstr.wakeOne q).Allowed held)
    (done : (LockInstr.wakeOne q).exec d c = some (d', cmds)) :
    LockExecutes held d held d' cmds := by
  cases c with
  | no =>
      cases done
      exact .nil (.same rfl)
  | event x =>
      simp only [LockInstr.exec] at done
      split at done <;> cases done
      exact .nil (.put x .immediate (.inl rfl) allowed rfl)
  | _ => cases done

private theorem matching_executes {f : FdId} (allowed : (LockInstr.matching f).Allowed held)
    (done : (LockInstr.matching f).exec d c = some (d', cmds)) :
    LockExecutes held d held d' cmds := by
  obtain rfl : held = [.list (.fd f)] := allowed
  cases c with
  | no =>
      cases done
      exact .nil (.same rfl)
  | event x =>
      simp only [LockInstr.exec] at done
      split at done <;> cases done
      exact .same fun rest safe => by
        simpa [EventObject.Fits] using safe
  | last x =>
      simp only [LockInstr.exec] at done
      split at done <;> cases done
      exact .same fun rest safe => by simpa using safe
  | _ => cases done

private theorem valid_executes {t : Tid} {n : Nat} {u : Tid}
    (allowed : (LockInstr.valid t n u).Allowed held)
    (done : (LockInstr.valid t n u).exec d c = some (d', cmds)) :
    LockExecutes held d held d' cmds := by
  obtain ⟨dom, rfl⟩ := allowed
  cases c with
  | no =>
      cases done
      exact .nil (.same rfl)
  | yes =>
      cases done
      exact .same fun rest safe => by
        simpa [prepareToWaitLocks, EventObject.Fits, EventObject.home, EventObject.owner] using safe
  | _ => cases done

private theorem finish_executes {t : Tid} {n : Nat} {q : Waitq} {m : MutexId} {g : SignalId}
    (allowed : (LockInstr.finish t n q m g).Allowed held)
    (done : (LockInstr.finish t n q m g).exec d c = some (d', cmds)) :
    LockExecutes held d held d' cmds := by
  obtain rfl : held = [.list (.pending t), .list .immediate] := allowed
  cases c with
  | yes =>
      cases done
      exact .same fun rest safe => by
        simpa [EventObject.home, EventObject.owner] using safe
  | no =>
      simp only [LockInstr.exec] at done
      cases done
      refine .same fun rest safe => ?_
      split <;>
        simpa [EventObject.Fits, EventObject.home, EventObject.owner] using safe
  | _ => cases done

private theorem newMaster_executes (allowed : LockInstr.newMaster.Allowed held)
    (done : LockInstr.newMaster.exec d c = some (d', cmds)) : LockExecutes held d held d' cmds := by
  obtain ⟨dom, rfl⟩ := allowed
  cases c with
  | no =>
      cases done
      exact .nil (.same rfl)
  | queue q =>
      cases done
      exact .same fun rest safe => tcWaitqWakeupAllLocks_safe q (by simp) safe
  | _ => cases done

private theorem sleepers_executes (allowed : LockInstr.sleepers.Allowed held)
    (done : LockInstr.sleepers.exec d c = some (d', cmds)) : LockExecutes held d held d' cmds := by
  obtain ⟨dom, rfl⟩ := allowed
  cases c with
  | no =>
      cases done
      exact .nil (.same rfl)
  | queue q =>
      cases done
      refine .same fun rest safe => ?_
      rw [List.append_assoc]
      exact tcWaitqWakeupAllLocks_safe q (by simp) ⟨⟨dom, rfl⟩, safe⟩
  | _ => cases done

theorem LockInstr.Allowed.executes (allowed : i.Allowed held) (fit : d.Fit)
    (done : i.exec d c = some (d', cmds)) : LockExecutes held d (i.after held) d' cmds := by
  cases i with
  | add x el => exact .add done allowed.2 allowed.1
  | addArmed t n f =>
      cases c with
      | yes => exact .add done (.inr (.inr rfl)) allowed
      | no =>
          cases done
          exact .nil (.same rfl)
      | _ => cases done
  | move x el => exact .move done allowed.2 allowed.1
  | removeEvent x => exact removeEvent_executes allowed done
  | recheck x el => exact recheck_executes allowed done
  | removeHolding x els => exact removeHolding_executes allowed fit done
  | runOrQueue x => exact runOrQueue_executes allowed done
  | deliver x => exact deliver_executes allowed done
  | search => exact search_executes allowed done
  | found => exact found_executes allowed done
  | resume t =>
      obtain rfl : held = [.list (.pending t)] := allowed
      exact resume_executes done
  | wakeOne q => exact wakeOne_executes allowed done
  | wakeAll q =>
      cases done
      exact .nil (.woken q allowed rfl)
  | matching f => exact matching_executes allowed done
  | valid t n u => exact valid_executes allowed done
  | finish t n q m g => exact finish_executes allowed done
  | cancel t el =>
      obtain ⟨rfl, active⟩ := allowed
      exact cancel_executes active done
  | newMaster => exact newMaster_executes allowed done
  | sleepers => exact sleepers_executes allowed done

theorem InRemoveEvent.run (removing : InRemoveEvent e wq rest held (.run i :: cmds))
    (home : e.home = .waiters wq) (settled : d.Settled e) (fit : d.Fit)
    (safe : LockOrderly [.list (.pending e.owner), .list .immediate] rest) {more : List LockCmd}
    (done : i.exec d c = some (d', more)) :
    PlaceChange held d d' ∧ LockFine d' held (more ++ cmds) := by
  cases removing with
  | reads =>
      simp only [LockInstr.exec] at done
      split at done <;> cases done
      · exact ⟨.same rfl, .removing e wq _ home settled safe .reads⟩
      · next el on =>
        obtain rfl | rfl | rfl := fit e el on
        · exact absurd on settled.1
        · exact absurd on settled.2
        · rw [home]
          exact ⟨.same rfl, .removing e wq _ home settled safe .locks⟩
  | rechecks =>
      simp only [LockInstr.exec] at done
      split at done <;> cases done
      · exact ⟨.removed e rfl, .safe (by simpa using safe)⟩
      · exact ⟨.same rfl, .removing e wq _ home settled safe .again⟩

theorem LockFine.run {more : List LockCmd} (fine : LockFine d held (.run i :: rest)) (fit : d.Fit)
    (done : i.exec d c = some (d', more)) : PlaceChange held d d' ∧ LockFine d' held (more ++ rest) := by
  cases fine with
  | safe safe =>
      have executes := safe.1.executes fit done
      exact ⟨executes.change, executes.fine rest safe.2⟩
  | removing e wq rest home settled safe removing => exact removing.run home settled fit safe done

/-- What a worker in `remove_event` knows is protected by the locks that it holds. -/
theorem EventPlaces.Settled.kept (settled : d.Settled e) (change : PlaceChange held d d')
    (immediate : .list .immediate ∉ held) (pending : .list (.pending e.owner) ∉ held) :
    d'.Settled e := by
  constructor
  · intro now
    exact (change.locked now).elim settled.1 immediate
  · intro now
    exact (change.locked now).elim settled.2 pending

theorem InRemoveEvent.holds (removing : InRemoveEvent e wq rest held cmds) :
    .list .immediate ∈ held ∧ .list (.pending e.owner) ∈ held := by
  cases removing <;> simp

theorem LockFine.kept {code : List LockCmd} (fine : LockFine d held' code) (change : PlaceChange held d d')
    (apart : ∀ l ∈ held', l ∉ held) : LockFine d' held' code := by
  cases fine with
  | safe safe => exact .safe safe
  | removing e wq rest home settled safe removing =>
      have holds := removing.holds
      exact .removing e wq rest home
        (settled.kept change (apart _ holds.1) (apart _ holds.2)) safe removing

theorem LockFine.lock (fine : LockFine d held (.lock l :: rest)) :
    (∀ h ∈ held, h.rank < l.rank) ∧ LockFine d (l :: held) rest := by
  cases fine with
  | safe safe => exact ⟨safe.1, .safe safe.2⟩
  | removing e wq rest home settled safe removing =>
      cases removing with
      | locks => exact ⟨by simp, .removing e wq _ home settled safe .rechecks⟩

theorem LockFine.unlock (fine : LockFine d held (.unlock l :: rest)) :
    l ∈ held ∧ LockFine d (held.erase l) rest := by
  cases fine with
  | safe safe => exact ⟨safe.1, .safe safe.2⟩
  | removing e wq rest home settled safe removing =>
      cases removing with
      | again => exact ⟨by simp, by simpa using .removing e wq _ home settled safe .reads⟩

private theorem lockDiscipline :
    LockMachine.Discipline lockProgram SpinLock.rank EventPlaces.Fit LockFine where
  done fine := by
    cases fine with
    | safe safe => exact safe
    | removing e wq rest home settled safe removing => cases removing
  body op := .safe op.body_safe
  lock := LockFine.lock
  unlock := LockFine.unlock
  run fit fine done := by
    obtain ⟨change, after⟩ := fine.run fit done
    exact ⟨change.fit fit, after⟩
  others fit fine done apart other := other.kept (fine.run fit done).1 apart

end Discipline

theorem SpinReachable.inv {s : SpinState} (reached : SpinReachable s) :
    LockMachine.Inv EventPlaces.Fit LockFine s :=
  Transition.Run.invariant reached (LockMachine.Inv EventPlaces.Fit LockFine)
    ⟨nofun, by simp [SpinState.initial], by simp [SpinState.initial], fun _ => .safe rfl⟩
    fun inv _ stepped => inv.step lockDiscipline stepped

/-- However many workers execute functions of the library, none spins on a lock that it holds, and no
workers spin for each other in a circle: whoever takes a lock holds only locks of earlier classes. -/
theorem spinlocks_deadlock_free {s : SpinState} (reached : SpinReachable s) :
    (∀ w l rest, s.code w = .lock l :: rest → s.holder l ≠ some w) ∧
    (∀ w, ¬ Relation.TransGen s.WaitsOn w w) ∧
    ∀ w l rest h, s.code w = .lock l :: rest → s.holder h = some w →
      h.lockClass.rank < l.lockClass.rank := by
  have ordered := reached.inv.ordered lockDiscipline
  refine ⟨fun w l rest code holds => ?_, fun w => ordered.no_cycle, ordered⟩
  exact Nat.lt_irrefl _ (ordered w l rest l code holds)

/-- Worker 0 is in `remove_event`, with the locks of `tc_waitq_finish_wait` and that of the wait queue,
and worker 1 spins in `tc_waitq_wakeup_all`. -/
def SpinState.Nested (s : SpinState) : Bool :=
  decide (s.held 0 = [.list (.waiters (.user 0)), .list (.pending 3), .list .immediate] ∧
    (s.code 1).head? = some (.lock (.list .immediate)) ∧ s.holder (.list .immediate) = some 0)

theorem spinlocks_deadlock_free_nested : ∃ s : SpinState, SpinReachable s ∧ s.Nested = true ∧
    ¬ Relation.TransGen s.WaitsOn 1 1 := by
  obtain ⟨s, reached, nested⟩ := Transition.exists_run (LockMachine.step lockProgram) SpinState.initial
    [.start 0 (.prepareToWait 3 0 (.user 0)), .go 0 .no, .go 0 .no, .go 0 .no, .go 0 .no, .go 0 .no,
      .start 0 (.finishWait 3 0 (.user 0) 0 0), .start 1 (.wakeupAll (.user 0)), .go 0 .no, .go 0 .no,
      .go 0 .yes, .go 0 .no, .go 0 .no, .go 0 .no]
    SpinState.Nested (by decide)
  exact ⟨s, reached, nested, (spinlocks_deadlock_free reached).2.1 1⟩

end Libtcr
