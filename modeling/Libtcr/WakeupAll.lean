import Libtcr.QueueProperties

/-! `tc_waitq_wakeup_all` with its array of ten domains and the order of its effects: the loop
that drains the list, the search in `alerted`, and the calls of `_iwi_immediate` under the locks
and after them. -/

set_option autoImplicit false

namespace Libtcr

/-- The effects whose order matters. -/
inductive WakeupMark where
  /-- The event is on `common.immediate` from here on. -/
  | queued (e : EventId)
  | sent (d : DomainId)
  deriving DecidableEq, Repr

def WakeupMark.event : WakeupMark → Option EventId
  | .queued e => some e
  | .sent _ => none

inductive WakeupError where
  | outOfBounds
  | uninitialised
  | outOfFuel
  deriving DecidableEq, Repr

/-- `tc_waitq_wakeup_all` with its local variables. An entry of `alerted` that has not been
written is `none`. -/
structure WakeupFrame where
  sys : State
  alerted : Vector (Option DomainId) 10
  alertedMax : Nat
  -- history
  marks : List WakeupMark

def State.wakeFirst (s : State) (e : EventId) : State :=
  { s with
    lists := (s.lists.remove e).pushFront e .immediate
    immediateCount := s.immediateCount + 1
    signalsSinceLastQuery :=
      if s.flags e = .signal then
        Function.update s.signalsSinceLastQuery (s.tc e) (s.signalsSinceLastQuery (s.tc e) + 1)
      else s.signalsSinceLastQuery }

namespace WakeupFrame

def start (s : State) : WakeupFrame := ⟨s, .replicate 10 none, 0, []⟩

def mark (c : WakeupFrame) (m : WakeupMark) : WakeupFrame := { c with marks := c.marks ++ [m] }

def iwiImmediate (c : WakeupFrame) (d : DomainId) : WakeupFrame :=
  { c with sys := c.sys.iwiImmediate d }.mark (.sent d)

/-- `for (i = 0; i < alerted_max; i++)`, from `i` on with `n` turns left: the `i` at its end. -/
def find (c : WakeupFrame) (dom : DomainId) : Nat → Nat → Except WakeupError Nat
  | i, 0 => .ok i
  | i, n + 1 =>
    match c.alerted[i]? with
    | none => .error .outOfBounds
    | some d => if d = some dom then .ok i else c.find dom (i + 1) n

/-- `alerted[ alerted_max++ ] = dom`. -/
def remember (c : WakeupFrame) (dom : DomainId) : Except WakeupError WakeupFrame :=
  if bound : c.alertedMax < 10 then
    .ok { c with
      alerted := c.alerted.set c.alertedMax (some dom) bound
      alertedMax := c.alertedMax + 1 }
  else .error .outOfBounds

def moveFirst (c : WakeupFrame) (e : EventId) : WakeupFrame :=
  { c with sys := c.sys.wakeFirst e }.mark (.queued e)

def turn (c : WakeupFrame) (e : EventId) : Except WakeupError WakeupFrame :=
  match (c.moveFirst e).find (c.sys.domain e) 0 c.alertedMax with
  | .error error => .error error
  | .ok i =>
    if i = c.alertedMax then
      -- If there's space, remember for later alerting.
      if c.alertedMax < 10 then (c.moveFirst e).remember (c.sys.domain e)
      else .ok ((c.moveFirst e).iwiImmediate (c.sys.domain e))
    else .ok (c.moveFirst e)

/-- `while (!CIRCLEQ_EMPTY(&wq->waiters.events))`. -/
def loop (wq : Waitq) : Nat → WakeupFrame → Except WakeupError WakeupFrame
  | fuel, c =>
    match c.sys.events (.waiters wq), fuel with
    | [], _ => .ok c
    | _ :: _, 0 => .error .outOfFuel
    | e :: _, fuel + 1 =>
      match c.turn e with
      | .error error => .error error
      | .ok c' => loop wq fuel c'

/-- The `for` loop after the locks, from `i` on with `n` turns left. -/
def publish : WakeupFrame → Nat → Nat → Except WakeupError WakeupFrame
  | c, _, 0 => .ok c
  | c, i, n + 1 =>
    match c.alerted[i]? with
    | none => .error .outOfBounds
    | some none => .error .uninitialised
    | some (some d) => publish (c.iwiImmediate d) (i + 1) n

end WakeupFrame

def State.wakeupAllFrame (s : State) (wq : Waitq) (fuel : Nat) : Except WakeupError WakeupFrame :=
  match (WakeupFrame.start s).loop wq fuel with
  | .error error => .error error
  | .ok c => c.publish 0 c.alertedMax

namespace WakeupFrame

variable {s : State} {wq : Waitq} {c : WakeupFrame} {acc : State.WakeupAll} {woken : List EventId}
  {e : EventId}

@[simp] theorem mark_marks (m : WakeupMark) : (c.mark m).marks = c.marks ++ [m] := rfl

@[simp] theorem iwiImmediate_marks (d : DomainId) :
    (c.iwiImmediate d).marks = c.marks ++ [.sent d] := rfl

@[simp] theorem iwiImmediate_alerted (d : DomainId) : (c.iwiImmediate d).alerted = c.alerted := rfl

/-! ## The array -/

/-- The array holds these domains from its first entry on. -/
def Holds (alerted : Vector (Option DomainId) 10) (ds : List DomainId) : Prop :=
  ∀ (i : Nat) (d : DomainId), ds[i]? = some d → alerted[i]? = some (some d)

theorem Holds.set {alerted : Vector (Option DomainId) 10} {ds : List DomainId} (holds : Holds alerted ds)
    {n : Nat} (last : n = ds.length) (room : n < 10) (d : DomainId) :
    Holds (alerted.set n (some d) room) (ds ++ [d]) := by
  subst last
  intro i x found
  rcases Nat.lt_trichotomy i ds.length with before | last | behind
  · rw [List.getElem?_append_left before] at found
    rw [Vector.getElem?_set_ne room (Nat.ne_of_gt before)]
    exact holds i x found
  · subst last
    rw [List.getElem?_concat_length] at found
    simp [Option.some.inj found]
  · rw [List.getElem?_eq_none (by simp; omega)] at found
    cases found

private theorem find_eq {ds : List DomainId} (holds : Holds c.alerted ds) (dom : DomainId)
    (i n : Nat) (left : i + n = ds.length) : c.find dom i n = .ok (i + (ds.drop i).idxOf dom) := by
  induction n generalizing i with
  | zero =>
      have none_left : ds.drop i = [] := List.drop_eq_nil_of_le (by omega)
      simp [find, none_left]
  | succ n ih =>
      have inside : i < ds.length := by omega
      have entry := holds i ds[i] (List.getElem?_eq_getElem inside)
      rw [List.drop_eq_getElem_cons inside]
      simp only [find, entry, Option.some.injEq]
      by_cases same : ds[i] = dom
      · rw [if_pos same, List.idxOf_cons_eq _ same]
        rfl
      · rw [if_neg same, List.idxOf_cons_ne _ same, ih (i + 1) (by omega)]
        exact congrArg Except.ok (by omega)

/-- The loop after the locks notifies the domains in the array, in their order. -/
theorem publish_eq {ds : List DomainId} (holds : Holds c.alerted ds) (i n : Nat)
    (left : i + n = ds.length) : c.publish i n = .ok ((ds.drop i).foldl iwiImmediate c) := by
  induction n generalizing i c with
  | zero =>
      have none_left : ds.drop i = [] := List.drop_eq_nil_of_le (by omega)
      simp [publish, none_left]
  | succ n ih =>
      have inside : i < ds.length := by omega
      have entry := holds i ds[i] (List.getElem?_eq_getElem inside)
      rw [List.drop_eq_getElem_cons inside, List.foldl_cons]
      simp only [publish, entry]
      exact ih (c := c.iwiImmediate ds[i]) holds (i + 1) (by omega)

private theorem foldl_iwiImmediate (ds : List DomainId) (c : WakeupFrame) :
    (ds.foldl iwiImmediate c).marks = c.marks ++ ds.map .sent ∧
      (ds.foldl iwiImmediate c).sys = { c.sys with
        immediateFd := ds.foldl (fun fd d => Function.update fd d (fd d + 1)) c.sys.immediateFd } := by
  induction ds generalizing c with
  | nil => simp
  | cons d ds ih =>
      obtain ⟨marks, sys⟩ := ih (c.iwiImmediate d)
      rw [List.foldl_cons, marks, sys]
      exact ⟨by simp, rfl⟩

/-! ## The loop -/

def SentAfter (marks : List WakeupMark) (e : EventId) (d : DomainId) : Prop :=
  ∃ before after, marks = before ++ .queued e :: after ∧ .sent d ∈ after

theorem SentAfter.append {marks : List WakeupMark} {d : DomainId} (sent : SentAfter marks e d)
    (more : List WakeupMark) : SentAfter (marks ++ more) e d := by
  obtain ⟨before, after, rfl, member⟩ := sent
  exact ⟨before, after ++ more, by simp, List.mem_append_left _ member⟩

private theorem SentAfter.of_queued {marks more : List WakeupMark} {d : DomainId}
    (queued : .queued e ∈ marks) (sent : .sent d ∈ more) : SentAfter (marks ++ more) e d := by
  obtain ⟨before, after, rfl⟩ := List.append_of_mem queued
  exact ⟨before, after ++ more, by simp, List.mem_append_right _ sent⟩

/-- After the turns for `woken`: the loop has done what `wakeupAllTurn` says, and each domain is
still to be notified or has been notified in time. -/
structure Follows (s : State) (woken : List EventId) (acc : State.WakeupAll) (c : WakeupFrame) :
    Prop where
  sys : c.sys = { s with
    lists := acc.lists
    immediateCount := acc.immediateCount
    signalsSinceLastQuery := acc.signalsSinceLastQuery
    immediateFd := acc.immediateFd }
  holds : Holds c.alerted acc.alerted
  alertedMax : c.alertedMax = acc.alerted.length
  queued : c.marks.filterMap WakeupMark.event = woken
  told : ∀ e ∈ woken, s.domain e ∈ acc.alerted ∨ SentAfter c.marks e (s.domain e)
  only : ∀ d, d ∈ acc.alerted ∨ .sent d ∈ c.marks → ∃ e ∈ woken, s.domain e = d
  written : ∀ d, acc.immediateFd d = s.immediateFd d + c.marks.count (.sent d)

theorem Follows.moved (follows : Follows s woken acc c) (e : EventId) :
    (c.moveFirst e).sys = { s with
      lists := (s.wakeupAllTurn acc e).lists
      immediateCount := (s.wakeupAllTurn acc e).immediateCount
      signalsSinceLastQuery := (s.wakeupAllTurn acc e).signalsSinceLastQuery
      immediateFd := acc.immediateFd } := by
  simp only [moveFirst, mark, State.wakeFirst, follows.sys, State.wakeupAllTurn]

/-- What a turn keeps of the history: `ds` are the domains it adds to the array, and `marks` the
notifications it sends. -/
theorem Follows.told_turn (follows : Follows s woken acc c) {ds : List DomainId}
    (marks : List WakeupMark)
    (now : s.domain e ∈ acc.alerted ++ ds ∨ .sent (s.domain e) ∈ marks) :
    ∀ x ∈ woken ++ [e], s.domain x ∈ acc.alerted ++ ds ∨
      SentAfter (c.marks ++ .queued e :: marks) x (s.domain x) := by
  intro x member
  rcases List.mem_append.mp member with before | this
  · rcases follows.told x before with listed | sent
    · exact .inl (List.mem_append_left _ listed)
    · exact .inr (sent.append _)
  · obtain rfl := List.mem_singleton.mp this
    rcases now with listed | sent
    · exact .inl listed
    · exact .inr ⟨c.marks, marks, rfl, sent⟩

private theorem Follows.only_turn (follows : Follows s woken acc c) {ds : List DomainId}
    (marks : List WakeupMark) (added : ∀ d ∈ ds, d = s.domain e)
    (sent : ∀ d, .sent d ∈ marks → d = s.domain e) (d : DomainId)
    (told : d ∈ acc.alerted ++ ds ∨ .sent d ∈ c.marks ++ .queued e :: marks) :
    ∃ x ∈ woken ++ [e], s.domain x = d := by
  have new : d = s.domain e → ∃ x ∈ woken ++ [e], s.domain x = d :=
    fun same => ⟨e, List.mem_append_right _ (.head _), same.symm⟩
  have old : d ∈ acc.alerted ∨ .sent d ∈ c.marks → ∃ x ∈ woken ++ [e], s.domain x = d := by
    intro before
    obtain ⟨x, member, same⟩ := follows.only d before
    exact ⟨x, List.mem_append_left _ member, same⟩
  simp only [List.mem_append, List.mem_cons, reduceCtorEq, false_or] at told
  rcases told with (listed | this) | (before | this)
  · exact old (.inl listed)
  · exact new (added d this)
  · exact old (.inr before)
  · exact new (sent d this)

/-- A turn of the loop goes as `wakeupAllTurn` says, and does not leave the array. -/
theorem Follows.turn (follows : Follows s woken acc c) (e : EventId) :
    ∃ c', c.turn e = .ok c' ∧ Follows s (woken ++ [e]) (s.wakeupAllTurn acc e) c' := by
  have domain : c.sys.domain e = s.domain e := by rw [follows.sys]
  have found : (c.moveFirst e).find (s.domain e) 0 c.alertedMax =
      .ok (acc.alerted.idxOf (s.domain e)) := by
    have search := find_eq (c := c.moveFirst e) follows.holds (s.domain e) 0 c.alertedMax
      (by rw [follows.alertedMax, Nat.zero_add])
    simpa using search
  have queued : (c.marks ++ [WakeupMark.queued e]).filterMap WakeupMark.event = woken ++ [e] := by
    simp [follows.queued, WakeupMark.event]
  have moved := follows.moved e
  unfold WakeupFrame.turn
  rw [domain, found]
  by_cases known : s.domain e ∈ acc.alerted
  · have stops : acc.alerted.idxOf (s.domain e) ≠ c.alertedMax := by
      rw [follows.alertedMax]
      exact Nat.ne_of_lt (List.idxOf_lt_length_iff.mpr known)
    refine ⟨c.moveFirst e, if_neg stops, ?_⟩
    have same : (s.wakeupAllTurn acc e).alerted = acc.alerted ++ [] := by
      simp [State.wakeupAllTurn, known]
    have fd : (s.wakeupAllTurn acc e).immediateFd = acc.immediateFd := by
      simp [State.wakeupAllTurn, known]
    constructor
    case sys => rw [moved, fd]
    case holds => rw [same, List.append_nil]; exact follows.holds
    case alertedMax => rw [same, List.append_nil]; exact follows.alertedMax
    case queued => exact queued
    case told => rw [same]; exact follows.told_turn [] (.inl (by simpa using known))
    case only => rw [same]; exact follows.only_turn [] (by simp) (by simp)
    case written => intro d; rw [fd, follows.written]; simp [moveFirst]
  · have stops : acc.alerted.idxOf (s.domain e) = c.alertedMax := by
      rw [follows.alertedMax]
      exact List.idxOf_eq_length_iff.mpr known
    simp only [if_pos stops]
    by_cases room : c.alertedMax < 10
    · have small : acc.alerted.length < 10 := follows.alertedMax ▸ room
      have added : (s.wakeupAllTurn acc e).alerted = acc.alerted ++ [s.domain e] := by
        simp [State.wakeupAllTurn, known, small]
      have fd : (s.wakeupAllTurn acc e).immediateFd = acc.immediateFd := by
        simp [State.wakeupAllTurn, small]
      have remembered : (c.moveFirst e).remember (s.domain e) = .ok { c.moveFirst e with
          alerted := c.alerted.set c.alertedMax (some (s.domain e)) room
          alertedMax := c.alertedMax + 1 } := dif_pos room
      refine ⟨_, (if_pos room).trans remembered, ?_⟩
      constructor
      case sys => rw [fd]; exact moved
      case holds =>
        rw [added]
        exact follows.holds.set follows.alertedMax room (s.domain e)
      case alertedMax => simp [added, follows.alertedMax]
      case queued => exact queued
      case told => rw [added]; exact follows.told_turn [] (.inl (by simp))
      case only => rw [added]; exact follows.only_turn [] (by simp) (by simp)
      case written => intro d; rw [fd, follows.written]; simp [moveFirst]
    · have full : ¬ acc.alerted.length < 10 := follows.alertedMax ▸ room
      have same : (s.wakeupAllTurn acc e).alerted = acc.alerted ++ [] := by
        simp [State.wakeupAllTurn, full]
      have fd : (s.wakeupAllTurn acc e).immediateFd =
          Function.update acc.immediateFd (s.domain e) (acc.immediateFd (s.domain e) + 1) := by
        simp [State.wakeupAllTurn, known, full]
      refine ⟨_, if_neg room, ?_⟩
      have marks : ((c.moveFirst e).iwiImmediate (s.domain e)).marks =
          c.marks ++ .queued e :: [.sent (s.domain e)] := by simp [moveFirst]
      constructor
      case sys =>
        rw [fd]
        simp only [iwiImmediate, mark, State.iwiImmediate, moved]
      case holds => rw [same, List.append_nil]; exact follows.holds
      case alertedMax => rw [same, List.append_nil]; exact follows.alertedMax
      case queued => rw [marks]; simp [follows.queued, WakeupMark.event]
      case told => rw [same, marks]; exact follows.told_turn _ (.inr (.head _))
      case only => rw [same, marks]; exact follows.only_turn _ (by simp) (by simp)
      case written =>
        intro d
        rw [fd, marks]
        by_cases this : d = s.domain e
        · subst this
          simp [follows.written]
          omega
        · simp [this, Ne.symm this, follows.written]

theorem Follows.loop {rest : List EventId} {fuel : Nat} (follows : Follows s woken acc c)
    (lists : c.sys.lists.WellFormed) (left : c.sys.events (.waiters wq) = rest)
    (enough : rest.length ≤ fuel) :
    ∃ c', c.loop wq fuel = .ok c' ∧
      Follows s (woken ++ rest) (rest.foldl s.wakeupAllTurn acc) c' := by
  induction rest generalizing woken acc c fuel with
  | nil =>
      refine ⟨c, ?_, by simpa using follows⟩
      unfold WakeupFrame.loop
      rw [left]
  | cons e rest ih =>
      obtain ⟨fuel, rfl⟩ : ∃ n, fuel = n + 1 := ⟨fuel - 1, by simp at enough; omega⟩
      obtain ⟨c', turned, after⟩ := follows.turn e
      have moved : c'.sys.lists = (c.sys.lists.remove e).pushFront e .immediate := by
        rw [after.sys, follows.sys]
        rfl
      have on : c.sys.lists.el e = some (.waiters wq) :=
        (lists.mem_iff _ _).mp (show e ∈ c.sys.events _ from left ▸ .head _)
      have next : c'.sys.events (.waiters wq) = rest := by
        have queue : c.sys.lists.elems (.waiters wq) = e :: rest := left
        rw [State.events, moved, IntrusiveLists.pushFront_elems_of_ne _ _ (by simp),
          IntrusiveLists.remove_elems_of_el on, Function.update_self, queue, List.erase_cons_head]
      have valid : c'.sys.lists.WellFormed := by
        rw [moved]
        exact (IntrusiveLists.movesTo_front EventList.immediate).wellFormed lists e
      obtain ⟨last, looped, final⟩ := ih after valid next (by simpa using enough)
      refine ⟨last, ?_, by simpa using final⟩
      unfold WakeupFrame.loop
      rw [left]
      simp only [turned, looped]

end WakeupFrame

section Call

variable {s : State} {wq : Waitq}

theorem State.foldl_wakeupAllTurn_signals (es : List EventId) (acc : State.WakeupAll) (t : Tid) :
    (es.foldl s.wakeupAllTurn acc).signalsSinceLastQuery t =
      acc.signalsSinceLastQuery t + es.countP fun e => s.flags e = .signal ∧ s.tc e = t := by
  induction es generalizing acc with
  | nil => simp
  | cons e es ih =>
      rw [List.foldl_cons, ih, List.countP_cons]
      by_cases counted : s.flags e = .signal ∧ s.tc e = t
      · obtain ⟨signal, rfl⟩ := counted
        simp [State.wakeupAllTurn, signal]
        omega
      · by_cases signal : s.flags e = .signal
        · have other : t ≠ s.tc e := fun same => counted ⟨signal, same.symm⟩
          simp [State.wakeupAllTurn, signal, other, Ne.symm other]
        · simp [State.wakeupAllTurn, signal]

structure AllWoken (s : State) (wq : Waitq) (c : WakeupFrame) : Prop where
  drained : c.sys.events (.waiters wq) = []
  once : ∀ e ∈ s.events (.waiters wq), (c.sys.events .immediate).count e = 1
  el : ∀ e ∈ s.events (.waiters wq), c.sys.el e = some .immediate
  immediateCount : c.sys.immediateCount = s.immediateCount + (s.events (.waiters wq)).length
  signals : ∀ t, c.sys.signalsSinceLastQuery t = s.signalsSinceLastQuery t +
    (s.events (.waiters wq)).countP fun e => s.flags e = .signal ∧ s.tc e = t
  queued : c.marks.filterMap WakeupMark.event = s.events (.waiters wq)
  notified : ∀ e ∈ s.events (.waiters wq), ∃ before after,
    c.marks = before ++ .queued e :: after ∧ .sent (s.domain e) ∈ after
  only : ∀ d, .sent d ∈ c.marks → ∃ e ∈ s.events (.waiters wq), s.domain e = d
  immediateFd : ∀ d, c.sys.immediateFd d = s.immediateFd d + c.marks.count (.sent d)

private theorem State.wakeupAllFrame_eq (lists : s.lists.WellFormed) {fuel : Nat}
    (enough : (s.events (.waiters wq)).length ≤ fuel) :
    ∃ c, WakeupFrame.Follows s (s.events (.waiters wq)) (s.wakeupAllLoop wq) c ∧
      s.wakeupAllFrame wq fuel = .ok ((s.wakeupAllLoop wq).alerted.foldl .iwiImmediate c) := by
  have begins : WakeupFrame.Follows s []
      ⟨s.lists, s.immediateCount, s.signalsSinceLastQuery, s.immediateFd, []⟩ (.start s) :=
    ⟨rfl, by intro i d found; simp at found, rfl, rfl, by simp, by simp [WakeupFrame.start],
      by simp [WakeupFrame.start]⟩
  obtain ⟨c, looped, follows⟩ := begins.loop lists rfl enough
  have published := WakeupFrame.publish_eq follows.holds 0 c.alertedMax
    (by rw [follows.alertedMax, Nat.zero_add])
  refine ⟨c, follows, ?_⟩
  unfold State.wakeupAllFrame
  rw [looped]
  exact published

/-- The function with its array refines the one of the library. -/
theorem State.wakeupAllFrame_sys (lists : s.lists.WellFormed) {fuel : Nat}
    (enough : (s.events (.waiters wq)).length ≤ fuel) {c : WakeupFrame}
    (returned : s.wakeupAllFrame wq fuel = .ok c) : c.sys = s.tcWaitqWakeupAll wq := by
  obtain ⟨c', follows, result⟩ := State.wakeupAllFrame_eq lists enough
  obtain rfl := Except.ok.inj (result.symm.trans returned)
  rw [(WakeupFrame.foldl_iwiImmediate _ c').2, follows.sys]
  rfl

/-- `tc_waitq_wakeup_all` returns without leaving its array, and loses no waiter and no domain. -/
theorem wakeup_all_complete (lists : s.lists.WellFormed) {fuel : Nat}
    (enough : (s.events (.waiters wq)).length ≤ fuel) :
    ∃ c, s.wakeupAllFrame wq fuel = .ok c ∧ AllWoken s wq c := by
  obtain ⟨c, follows, returned⟩ := State.wakeupAllFrame_eq lists enough
  refine ⟨_, returned, ?_⟩
  have sys := State.wakeupAllFrame_sys lists enough returned
  have marks := (WakeupFrame.foldl_iwiImmediate (s.wakeupAllLoop wq).alerted c).1
  have moves : IntrusiveLists.MovesTo
      (fun lists (e : EventId) => (lists.remove e).pushFront e .immediate) EventList.immediate :=
    IntrusiveLists.movesTo_front _
  have valid := moves.foldl_wellFormed lists (s.events (.waiters wq))
  have el := moves.foldl_el s.lists (s.events (.waiters wq))
  rw [← State.tcWaitqWakeupAll_lists] at valid el
  have woken : ∀ e ∈ s.events (.waiters wq),
      (s.tcWaitqWakeupAll wq).lists.el e = some .immediate := by
    intro e waits
    rw [el, if_pos waits]
  constructor
  case drained =>
    rw [sys]
    apply List.eq_nil_iff_forall_not_mem.mpr
    intro e waits
    have after := (valid.mem_iff _ e).mp waits
    by_cases before : e ∈ s.events (.waiters wq)
    · simp [woken e before] at after
    · rw [el, if_neg before] at after
      exact before ((lists.mem_iff _ e).mpr after)
  case once =>
    intro e waits
    rw [sys]
    exact List.count_eq_one_of_mem (valid.nodup _) ((valid.mem_iff _ e).mpr (woken e waits))
  case el =>
    intro e waits
    rw [sys]
    exact woken e waits
  case immediateCount => rw [sys, State.tcWaitqWakeupAll_count]
  case signals =>
    intro t
    rw [sys]
    exact State.foldl_wakeupAllTurn_signals _ _ t
  case queued =>
    rw [marks, List.filterMap_append, follows.queued]
    simp [List.filterMap_map, Function.comp_def, WakeupMark.event]
  case notified =>
    intro e waits
    rw [marks]
    rcases follows.told e waits with listed | sent
    · have queued : .queued e ∈ c.marks := by
        obtain ⟨m, member, event⟩ := List.mem_filterMap.mp (follows.queued ▸ waits)
        cases m with
        | queued x => exact Option.some.inj event ▸ member
        | sent d => cases event
      exact WakeupFrame.SentAfter.of_queued queued (List.mem_map_of_mem listed)
    · exact sent.append _
  case only =>
    intro d sent
    rw [marks, List.mem_append] at sent
    rcases sent with before | published
    · exact follows.only d (.inr before)
    · obtain ⟨x, listed, same⟩ := List.mem_map.mp published
      exact follows.only d (.inl (WakeupMark.sent.inj same ▸ listed))
  case immediateFd =>
    intro d
    rw [sys, tcWaitqWakeupAll_immediateFd, follows.written, marks, List.count_append,
      List.count_map_of_injective _ _ (fun _ _ => WakeupMark.sent.inj)]
    omega

end Call

/-- Twelve threads of twelve domains wait, two of them for a signal. -/
def twelveDomains : State :=
  { State.initial 1 (fun _ => 0) with
    lists := ((List.range 12).map fun t => EventId.auto t 0).foldl
      (fun lists e => (lists.remove e).pushBack e (.waiters (.user 0))) .empty
    flags := fun e => if e = .auto 3 0 ∨ e = .auto 4 0 then .signal else .ready
    domain := fun
      | .auto t _ => t
      | _ => 0 }

theorem wakeup_all_complete_twelve : twelveDomains.lists.WellFormed ∧
    ((twelveDomains.events (.waiters (.user 0))).map twelveDomains.domain).dedup.length = 12 ∧
    ∃ c, twelveDomains.wakeupAllFrame (.user 0) 12 = .ok c ∧ AllWoken twelveDomains (.user 0) c := by
  have lists : twelveDomains.lists.WellFormed :=
    (IntrusiveLists.movesTo_back _).foldl_wellFormed IntrusiveLists.WellFormed.empty _
  exact ⟨lists, by decide, wakeup_all_complete lists (by decide)⟩

end Libtcr
