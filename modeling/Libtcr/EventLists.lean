import Libtcr.State

/-! The functions of `threaded_cr.c` that put events on lists and take them off.
Each is the body of one critical section or part of one, so it acts on the whole
state at once. A failed assertion or a `msg_exit` is an error. -/

set_option autoImplicit false

namespace Libtcr.State

abbrev Result := Except Fault State

def iwiImmediate (s : State) (d : DomainId) : State :=
  { s with immediateFd := Function.update s.immediateFd d (s.immediateFd d + 1) }

/-- `__remove_event`. Its callers overwrite `e->el` at once; here it is cleared. -/
def unlinkEvent (s : State) (e : EventId) : State :=
  { s with
    lists := s.lists.remove e
    immediateCount :=
      if s.el e = some .immediate then
        if s.immediateCount - 1 < 0 then 0 else s.immediateCount - 1
      else s.immediateCount
    immediateNegative :=
      if s.el e = some .immediate ∧ s.immediateCount - 1 < 0 then true
      else s.immediateNegative }

/-- `_remove_event` without its assertion. -/
def detachEvent (s : State) (e : EventId) : State :=
  { s.unlinkEvent e with
    refcnt := Function.update s.refcnt (s.tc e) (s.refcnt (s.tc e) - 1) }

/-- `_remove_event(e, el)`, with the lock of the list held. -/
def removeEventFrom (s : State) (e : EventId) (k : EventList) : Result :=
  if s.el e = some k then .ok (s.detachEvent e) else .error .assertRemoveEvent

/-- `remove_event`: spins while the event is on no list, and waits for the lock of
the list it is on. Of the list locks only those of `tc_fd`s are ever held between
two steps of the model. -/
def removeEvent (s : State) (e : EventId) : Option State :=
  match s.el e with
  | none => none
  | some (.fd f) => if s.fdLock f then none else some (s.detachEvent e)
  | some _ => some (s.detachEvent e)

/-- `remove_event_holding_locks`: for an event on no list nothing changes. The wait
queues' and the signals' events it is used on are never on the list of a `tc_fd`. -/
def removeEventHoldingLocks (s : State) (e : EventId) : State :=
  { s.unlinkEvent e with
    refcnt :=
      if s.el e = none then s.refcnt
      else Function.update s.refcnt (s.tc e) (s.refcnt (s.tc e) - 1) }

/-- `_add_event` without its check. -/
def attachEvent (s : State) (e : EventId) (k : EventList) (t : Tid) : State :=
  { s with
    tc := Function.update s.tc e t
    refcnt := Function.update s.refcnt t (s.refcnt t + 1)
    lists := s.lists.pushBack e k }

def addEvent (s : State) (e : EventId) (k : EventList) (t : Tid) : Result :=
  if s.el e = none then .ok (s.attachEvent e k t) else .error .stillOnList

/-- `move_event` without its assertion. -/
def relocateEvent (s : State) (e : EventId) (target : EventList) : State :=
  { s.unlinkEvent e with lists := (s.lists.remove e).pushBack e target }

def moveEvent (s : State) (e : EventId) (target : EventList) : Result :=
  match s.el e with
  | none => .error .notOnList
  | some k => if k = target then .error .assertMoveEvent else .ok (s.relocateEvent e target)

/-- `move_to_immediate` for each event of a list in turn. -/
def moveToImmediate (s : State) (moved : List EventId) : State :=
  { s with
    lists := moved.foldl (fun lists e => (lists.remove e).pushBack e .immediate) s.lists
    immediateCount := s.immediateCount + moved.length }

def addEventCr (s : State) (e : EventId) (flags : EventFlag) (t : Tid) : Result :=
  match s.addEvent e .immediate t with
  | .error fault => .error fault
  | .ok s' => .ok { s' with
      flags := Function.update s'.flags e flags
      epEvents := Function.update s'.epEvents e 0
      immediateCount := s'.immediateCount + 1 }

def tcEventOnTcStack (s : State) (e : EventId) (t : Tid) : State :=
  { s with
    nextInStack := Function.update s.nextInStack e (s.eventStack t)
    eventStack := Function.update s.eventStack t (some e) }

/-- `tc_event_init` of a new event object; `e->el` of an unused object is `NULL`. -/
def tcEventInit (s : State) (e : EventId) (d : DomainId) : State :=
  { s with
    nextInStack := Function.update s.nextInStack e none
    domain := Function.update s.domain e d
    life := Function.update s.life e .live }

end Libtcr.State
