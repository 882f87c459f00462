import Libtcr.DomainsProperties
import Libtcr.Workers

/-! One hold of the lock of `common.immediate` in `_run_immediate`: the search starts again after
every event that `run_or_queue` has moved to a pending list. The other workers cannot change the list
meanwhile, but they can change the threads. -/

set_option autoImplicit false

namespace Libtcr

open State

/-- How a hold of the lock ends: `_run_immediate` returns 0, it has chosen an event whose thread it
switches to, or it has found the `EF_EXITING` event of a thread, which it frees without the lock. -/
inductive ScanStop where
  | returns0
  | enters (t : Tid) (e : EventId)
  | exits (t : Tid) (e : EventId)
  deriving DecidableEq, Repr

/-- The outcome of one turn: `goto search_loop_locked`, or the end of the hold. -/
inductive Turned where
  | again (e : EventId) (s : State)
  | stop (end_ : ScanStop) (s : State)

structure ScanEnd where
  /-- The events that have been moved, each with the state in which that was decided. -/
  moved : List (State × EventId)
  last : State
  stop : ScanStop
  after : State

structure CallEnd extends ScanEnd where
  /-- The `EF_EXITING` events that have ended a hold. -/
  exited : List (State × EventId)

namespace State

/-- The argument of `_run_immediate` for the searches of `run_immediate`. -/
def Scan.nr (w : WorkerId) : Scan → Int
  | .own => w
  | .free => freeWorker
  | .any => anyWorker

/-- `wanted` in `_run_immediate(nr)`, with the test of the domain. -/
def wantedNr (s : State) (w : WorkerId) (nr : Int) (e : EventId) : Bool :=
  decide (s.domain e = s.workerDomain w) &&
    (nr = anyWorker || s.workerNr (s.tc e) = nr ||
      (if nr = freeWorker then !s.affine (s.tc e) else false))

/-- `CIRCLEQ_FOREACH` over `common.immediate`, up to the first wanted event. -/
def searchNr (s : State) (w : WorkerId) (nr : Int) : List EventId → Except Fault (Option EventId)
  | [] => .ok none
  | e :: es =>
    if s.domain e ≠ s.threadDomain (s.tc e) then .error .assertDomain
    else if s.wantedNr w nr e then .ok (some e)
    else s.searchNr w nr es

/-- `run_or_queue` for the event that has been found, and the `switch` over its flags. -/
def serveFound (s : State) (w : WorkerId) (e : EventId) : Except Fault Turned :=
  match s.runOrQueue w e with
  | .error fault => .error fault
  | .ok (none, s') => .ok (.again e s')
  | .ok (some t, s') =>
    if s.flags e = .exiting then .ok (.stop (.exits t e) s')
    else
      .ok (.stop (.enters t e) { s' with
        immediateFd :=
          if s'.events .immediate = [] then s'.immediateFd
          else Function.update s'.immediateFd (s'.workerDomain w)
            (s'.immediateFd (s'.workerDomain w) + 1) })

/-- One turn of the search loop of `_run_immediate(nr)`, which begins with
`worker->woken_by_tcfd = NULL`. -/
def scanTurn (s : State) (w : WorkerId) (nr : Int) : Except Fault Turned :=
  match (s.served w none).searchNr w nr ((s.served w none).events .immediate) with
  | .error fault => .error fault
  | .ok none => .ok (.stop .returns0 (s.served w none))
  | .ok (some e) => (s.served w none).serveFound w e

/-- The hold of the lock by worker `w`. After each turn, `others` is what the other workers have done
meanwhile. -/
def scanLoop (w : WorkerId) (nr : Int) (others : Nat → State → State) :
    Nat → State → Option (Except Fault ScanEnd)
  | 0, _ => none
  | fuel + 1, s =>
    match s.scanTurn w nr with
    | .error fault => some (.error fault)
    | .ok (.stop stop after) => some (.ok ⟨[], s, stop, after⟩)
    | .ok (.again e s') =>
      match scanLoop w nr others fuel (others fuel s') with
      | none => none
      | some (.error fault) => some (.error fault)
      | some (.ok r) => some (.ok { r with moved := (s, e) :: r.moved })

/-- A call of `_run_immediate(nr)`, hold after hold. `unlocked` is what happens between the release of
the lock for the `EF_EXITING` event of a thread and the next hold: `tc_thread_free`, and what the other
workers do. -/
def runHolds (w : WorkerId) (nr : Int) (others : Nat → State → State)
    (unlocked : Nat → Tid → State → State) : Nat → State → Option (Except Fault CallEnd)
  | 0, _ => none
  | holds + 1, s =>
    match scanLoop w nr others ((s.events .immediate).length + 1) s with
    | none => none
    | some (.error fault) => some (.error fault)
    | some (.ok r) =>
      match r.stop with
      | .exits t e =>
        match runHolds w nr others unlocked holds (unlocked holds t r.after) with
        | none => none
        | some (.error fault) => some (.error fault)
        | some (.ok c) =>
          some (.ok { c with moved := r.moved ++ c.moved, exited := (r.last, e) :: c.exited })
      | _ => some (.ok { r with exited := [] })

end State

/-- The events on `common.immediate` know that they are there, and satisfy the assertion of
`_run_immediate`. -/
structure Listed (s : State) : Prop where
  nodup : (s.events .immediate).Nodup
  el : ∀ e ∈ s.events .immediate, s.el e = some .immediate
  domain : ∀ e ∈ s.events .immediate, s.domain e = s.threadDomain (s.tc e)

/-- What the other workers do while a worker holds the lock of `common.immediate`. -/
structure LockHeld (s s' : State) : Prop where
  events : s'.events .immediate = s.events .immediate
  listed : Listed s → Listed s'

theorem IsolationInv.listed {domainOf : WorkerId → DomainId} {s : DomainState}
    (inv : IsolationInv domainOf s) : Listed s.sys where
  nodup := inv.sys.lists.lists.nodup .immediate
  el _ member := inv.sys.lists.mem_events.mp member
  domain _ member := inv.event_domain (by simp [inv.sys.lists.mem_events.mp member])

/-! ## The searches of `run_immediate` -/

private theorem wanted_eq_wantedNr (s : State) (w : WorkerId) (scan : Scan) (e : EventId) :
    s.wanted w scan e = s.wantedNr w (scan.nr w) e := by
  cases scan with
  | own =>
      have worker : (w : Int) ≠ anyWorker ∧ (w : Int) ≠ freeWorker := by
        simp only [anyWorker, freeWorker]
        omega
      simp only [wanted, wantedNr, Scan.nr, worker, if_false, decide_false, Bool.false_or,
        Bool.or_false]
      rfl
  | free =>
      simp only [wanted, wantedNr, Scan.nr, freeWorker, anyWorker, if_true]
      rfl
  | any => simp [wanted, wantedNr, Scan.nr]

private theorem searchImmediate_eq_searchNr (s : State) (w : WorkerId) (scan : Scan)
    (es : List EventId) : s.searchImmediate w scan es = s.searchNr w (scan.nr w) es := by
  induction es with
  | nil => rfl
  | cons e es ih => rw [searchImmediate, searchNr, ih, wanted_eq_wantedNr]

def Turned.state (w : WorkerId) : Turned → State
  | .again _ s | .stop .returns0 s => s
  | .stop (.enters t _) s => { s with mode := Function.update s.mode w (.enter t) }
  | .stop (.exits t _) s => { s with mode := Function.update s.mode w (.free t) }

theorem runImmediate_eq_scanTurn (s : State) (w : WorkerId) (scan : Scan) :
    s.runImmediate w scan = (s.scanTurn w (scan.nr w)).map (Turned.state w) := by
  have served : ({ s with wokenByTcfd := Function.update s.wokenByTcfd w none } : State) =
      s.served w none := rfl
  simp only [runImmediate, served, searchImmediate_eq_searchNr, scanTurn]
  cases (s.served w none).searchNr w (scan.nr w) ((s.served w none).events .immediate) with
  | error fault => rfl
  | ok found =>
      cases found with
      | none => rfl
      | some e =>
          simp only [serveFound]
          rcases (s.served w none).runOrQueue w e with fault | ⟨_ | t, s'⟩
          · rfl
          · rfl
          · have flags : (s.served w none).flags e = s.flags e := rfl
            simp only [flags]
            split <;> rfl

/-! ## One turn -/

/-- `run_or_queue` moves the event to the pending events of its thread. -/
def State.refuses (s : State) (e : EventId) : Bool :=
  s.running (s.tc e) ||
    (s.flags e ≠ .signal && s.eventStack (s.tc e) ≠ none && s.eventStack (s.tc e) ≠ some e)

structure FirstWanted (s : State) (w : WorkerId) (nr : Int) (e : EventId) : Prop where
  mem : e ∈ s.events .immediate
  wanted : s.wantedNr w nr e = true
  unwanted : ∀ x ∈ (s.events .immediate).takeWhile (· ≠ e), s.wantedNr w nr x = false

inductive TurnSpec (s : State) (w : WorkerId) (nr : Int) : Turned → Prop where
  | none (unwanted : ∀ e ∈ s.events .immediate, s.wantedNr w nr e = false) :
      TurnSpec s w nr (.stop .returns0 (s.served w none))
  | queued (e : EventId) (s' : State) (first : FirstWanted s w nr e) (stays : s.flags e ≠ .exiting)
      (refused : s.refuses e = true)
      (left : s'.events .immediate = (s.events .immediate).erase e)
      (el : s'.el e = some (.pending (s.tc e))) (listed : Listed s') :
      TurnSpec s w nr (.again e s')
  | entered (e : EventId) (s' : State) (first : FirstWanted s w nr e) (stays : s.flags e ≠ .exiting)
      (left : s'.events .immediate = (s.events .immediate).erase e) :
      TurnSpec s w nr (.stop (.enters (s.tc e) e) s')
  | exited (e : EventId) (s' : State) (first : FirstWanted s w nr e) (exiting : s.flags e = .exiting)
      (left : s'.events .immediate = (s.events .immediate).erase e) (listed : Listed s') :
      TurnSpec s w nr (.stop (.exits (s.tc e) e) s')

section Turn

variable {s s' : State} {w : WorkerId} {nr : Int} {e : EventId}

private theorem searchNr_spec (w : WorkerId) (nr : Int) {es : List EventId}
    (domain : ∀ e ∈ es, s.domain e = s.threadDomain (s.tc e)) :
    (s.searchNr w nr es = .ok none ∧ ∀ e ∈ es, s.wantedNr w nr e = false) ∨
      ∃ e ∈ es, s.searchNr w nr es = .ok (some e) ∧ s.wantedNr w nr e = true ∧
        ∀ x ∈ es.takeWhile (· ≠ e), s.wantedNr w nr x = false := by
  induction es with
  | nil => exact .inl ⟨rfl, by simp⟩
  | cons e es ih =>
      have passes : s.searchNr w nr (e :: es) =
          if s.wantedNr w nr e then .ok (some e) else s.searchNr w nr es := by
        rw [searchNr, if_neg (by simp [domain e (.head _)])]
      cases wanted : s.wantedNr w nr e with
      | true => exact .inr ⟨e, .head _, by rw [passes, wanted]; rfl, wanted, by simp⟩
      | false =>
          rw [wanted] at passes
          rcases ih fun x member => domain x (.tail _ member) with
            ⟨none, unwanted⟩ | ⟨c, member, found, first, unwanted⟩
          · exact .inl ⟨passes.trans none, List.forall_mem_cons.mpr ⟨wanted, unwanted⟩⟩
          · refine .inr ⟨c, .tail _ member, passes.trans found, first, fun x below => ?_⟩
            rw [List.takeWhile_cons] at below
            split at below
            · rcases List.mem_cons.mp below with rfl | later
              · exact wanted
              · exact unwanted x later
            · cases below

theorem Listed.erased (listed : Listed s) (left : s'.events .immediate = (s.events .immediate).erase e)
    (el : ∀ x, x ≠ e → s'.el x = s.el x) (domain : s'.domain = s.domain)
    (threads : s'.threadDomain = s.threadDomain) (tc : s'.tc = s.tc) : Listed s' := by
  have still : ∀ x ∈ s'.events .immediate, x ≠ e ∧ x ∈ s.events .immediate := by
    intro x member
    rw [left, listed.nodup.mem_erase_iff] at member
    exact member
  refine ⟨left ▸ listed.nodup.erase e, fun x member => ?_, fun x member => ?_⟩
  · obtain ⟨apart, there⟩ := still x member
    exact (el x apart).trans (listed.el x there)
  · rw [domain, threads, tc]
    exact listed.domain x (still x member).2

private theorem events_unlinked (on : s.el e = some .immediate) :
    (s.lists.remove e).elems .immediate = (s.events .immediate).erase e := by
  rw [IntrusiveLists.remove_elems_of_el on, Function.update_self]
  rfl

private theorem events_relocated {k : EventList} (on : s.el e = some .immediate)
    (other : k ≠ .immediate) :
    (s.relocateEvent e k).events .immediate = (s.events .immediate).erase e := by
  simp only [State.events, relocateEvent]
  rw [IntrusiveLists.pushBack_elems_of_ne _ _ (Ne.symm other)]
  exact events_unlinked on

private theorem searchNr_served (s : State) (w : WorkerId) (nr : Int) (es : List EventId) :
    (s.served w none).searchNr w nr es = s.searchNr w nr es := by
  induction es with
  | nil => rfl
  | cons e es ih =>
      simp only [searchNr, ih]
      rfl

private theorem serveFound_spec (listed : Listed s) (first : FirstWanted s w nr e) :
    ∃ turned, (s.served w none).serveFound w e = .ok turned ∧ TurnSpec s w nr turned := by
  have on : s.el e = some .immediate := listed.el e first.mem
  unfold serveFound
  split
  · next fault failed =>
    have cause := runOrQueue_error failed .immediate on
    simp at cause
  · next s' ran =>
    refine ⟨_, rfl, ?_⟩
    cases runOrQueue_ok ran with
    | queued k tcfd _ _ stays refused =>
        have left := events_relocated (s := { s.served w none with tcfd := tcfd })
          (k := .pending (s.tc e)) on (by simp)
        apply TurnSpec.queued e _ first stays ?_ left
        · simp [State.el, relocateEvent, State.served]
        · apply listed.erased left _ rfl rfl rfl
          intro x apart
          simp [State.el, relocateEvent, State.served, apart]
        · simpa [refuses, State.served, Bool.and_assoc] using refused
  · next t s' ran =>
    cases runOrQueue_ok ran with
    | exits exiting _ =>
        have left : ((s.served w none).detachEvent e).events .immediate =
            (s.events .immediate).erase e := events_unlinked on
        rw [if_pos exiting]
        refine ⟨_, rfl, .exited e _ first exiting left ?_⟩
        apply listed.erased left _ rfl rfl rfl
        intro x apart
        simp [State.el, detachEvent, unlinkEvent, State.served, apart]
    | signalled k _ _ signal _ =>
        have stays : (s.served w none).flags e ≠ .exiting := by
          intro exiting
          exact absurd (signal.symm.trans exiting) (by simp)
        rw [if_neg stays]
        refine ⟨_, rfl, .entered e _ first stays ?_⟩
        exact events_relocated (s := s.served w none) (k := .waiters (.signal (s.signal e)))
          on (by simp)
    | selected k _ _ stays _ _ =>
        rw [if_neg stays]
        exact ⟨_, rfl, .entered e _ first stays (events_unlinked on)⟩

/-- No assertion fails in a turn. -/
theorem scanTurn_spec (w : WorkerId) (nr : Int) (listed : Listed s) :
    ∃ turned, s.scanTurn w nr = .ok turned ∧ TurnSpec s w nr turned := by
  unfold scanTurn
  rw [searchNr_served]
  rcases searchNr_spec w nr listed.domain with
    ⟨none, unwanted⟩ | ⟨e, member, found, wanted, unwanted⟩
  · have none : s.searchNr w nr ((s.served w .none).events .immediate) = .ok .none := none
    rw [none]
    exact ⟨_, rfl, .none unwanted⟩
  · have found : s.searchNr w nr ((s.served w .none).events .immediate) = .ok (some e) := found
    rw [found]
    exact serveFound_spec listed ⟨member, wanted, unwanted⟩

end Turn

/-! ## The hold -/

/-- A restart: the first wanted event has gone to the pending list of its thread, which is running or
waits with another event on top of its stack. -/
structure Requeued (w : WorkerId) (nr : Int) (s : State) (e : EventId) : Prop where
  wanted : s.wantedNr w nr e = true
  stays : s.flags e ≠ .exiting
  refused : s.refuses e = true
  pending : ∃ s', s.scanTurn w nr = .ok (.again e s') ∧ s'.el e = some (.pending (s.tc e)) ∧
    s'.events .immediate = (s.events .immediate).erase e

structure ScanSpec (s : State) (w : WorkerId) (nr : Int) (r : ScanEnd) : Prop where
  /-- Every restart has taken an event off the list. -/
  turns : r.moved.length + (r.last.events .immediate).length = (s.events .immediate).length
  moved : ∀ p ∈ r.moved, Requeued w nr p.1 p.2
  left : r.last.events .immediate =
    (s.events .immediate).filter fun e => e ∉ r.moved.map Prod.snd
  returns0 : r.stop = .returns0 → r.after.events .immediate = r.last.events .immediate ∧
    ∀ e ∈ r.after.events .immediate, r.after.wantedNr w nr e = false
  enters : ∀ t e, r.stop = .enters t e → t = r.last.tc e ∧ e ∈ r.last.events .immediate ∧
    r.after.events .immediate = (r.last.events .immediate).erase e ∧
    ∀ x ∈ (s.events .immediate).takeWhile (· ≠ e),
      x ∈ r.moved.map Prod.snd ∨ r.last.wantedNr w nr x = false
  exits : ∀ t e, r.stop = .exits t e → t = r.last.tc e ∧ e ∈ r.last.events .immediate ∧
    r.after.events .immediate = (r.last.events .immediate).erase e ∧
    r.last.flags e = .exiting ∧ r.last.wantedNr w nr e = true ∧ Listed r.after

/-- What stood in front of an event still does when other events are taken away. -/
theorem mem_takeWhile_filter {c x : EventId} {es : List EventId} {p : EventId → Bool}
    (member : x ∈ es.takeWhile (· ≠ c)) (kept : p x = true) :
    x ∈ (es.filter p).takeWhile (· ≠ c) := by
  induction es with
  | nil => cases member
  | cons e es ih =>
      rw [List.takeWhile_cons] at member
      split at member
      · next other =>
        rcases List.mem_cons.mp member with rfl | later
        · rw [List.filter_cons_of_pos kept, List.takeWhile_cons, if_pos other]
          exact .head _
        · cases keeps : p e with
          | true =>
              rw [List.filter_cons_of_pos keeps, List.takeWhile_cons, if_pos other]
              exact .tail _ (ih later)
          | false =>
              rw [List.filter_cons_of_neg (by simp [keeps])]
              exact ih later
      · cases member

section Loop

variable {s s' s₂ : State} {w : WorkerId} {nr : Int} {e : EventId}

private theorem TurnSpec.scanSpec {stop : ScanStop} (spec : TurnSpec s w nr (.stop stop s')) :
    ScanSpec s w nr ⟨[], s, stop, s'⟩ := by
  refine ⟨Nat.zero_add _, by simp, by simp, ?_, ?_, ?_⟩
  · rintro rfl
    cases spec with
    | none unwanted => exact ⟨rfl, unwanted⟩
  · rintro t e rfl
    cases spec with
    | entered _ _ first _ left =>
        exact ⟨rfl, first.mem, left, fun x member => .inr (first.unwanted x member)⟩
  · rintro t e rfl
    cases spec with
    | exited _ _ first exiting left listed =>
        exact ⟨rfl, first.mem, left, exiting, first.wanted, listed⟩

theorem ScanSpec.again {r : ScanEnd} (nodup : (s.events .immediate).Nodup)
    (mem : e ∈ s.events .immediate) (requeued : Requeued w nr s e)
    (events : s₂.events .immediate = (s.events .immediate).erase e) (spec : ScanSpec s₂ w nr r) :
    ScanSpec s w nr { r with moved := (s, e) :: r.moved } := by
  constructor
  case turns =>
    have turns := spec.turns
    have some := List.length_pos_of_mem mem
    rw [events, List.length_erase_of_mem mem] at turns
    simp only [List.length_cons]
    omega
  case moved => exact List.forall_mem_cons.mpr ⟨requeued, spec.moved⟩
  case left =>
    rw [spec.left, events, nodup.erase_eq_filter, List.filter_filter]
    apply List.filter_congr
    intro x _
    rw [Bool.eq_iff_iff]
    simp [and_comm]
  case returns0 => exact spec.returns0
  case enters =>
    intro t c stop
    obtain ⟨tc, member, after, front⟩ := spec.enters t c stop
    refine ⟨tc, member, after, fun x below => ?_⟩
    rw [events, nodup.erase_eq_filter] at front
    rcases eq_or_ne x e with rfl | apart
    · exact .inl (.head _)
    · exact (front x (mem_takeWhile_filter below (by simpa using apart))).imp_left (.tail _)
  case exits => exact spec.exits

/-- With as many turns as there are events, and one more, the hold comes to its end. -/
theorem scanLoop_spec (w : WorkerId) (nr : Int) {others : Nat → State → State}
    (held : ∀ n s, LockHeld s (others n s)) {fuel : Nat} (listed : Listed s)
    (enough : (s.events .immediate).length < fuel) :
    ∃ r, scanLoop w nr others fuel s = some (.ok r) ∧ ScanSpec s w nr r := by
  induction fuel generalizing s with
  | zero => cases enough
  | succ fuel ih =>
      obtain ⟨turned, ran, spec⟩ := scanTurn_spec w nr listed
      rw [scanLoop, ran]
      cases turned with
      | stop stop after => exact ⟨_, rfl, spec.scanSpec⟩
      | again e s' =>
          cases spec with
          | queued _ _ first stays refused left el listed' =>
              have locked := held fuel s'
              have events := locked.events.trans left
              have shorter : ((others fuel s').events .immediate).length < fuel := by
                rw [events, List.length_erase_of_mem first.mem]
                have some := List.length_pos_of_mem first.mem
                omega
              obtain ⟨r, looped, spec⟩ := ih (locked.listed listed') shorter
              refine ⟨{ r with moved := (s, e) :: r.moved }, by simp only [looped], ?_⟩
              exact spec.again listed.nodup first.mem
                ⟨first.wanted, stays, refused, s', ran, el, left⟩ events

end Loop

/-! ## The call -/

/-- What is known at the end of a call that began in state `s`, if the events on `common.immediate` are
left alone also while the lock is not held. -/
structure CallSpec (s : State) (w : WorkerId) (nr : Int) (c : CallEnd) : Prop where
  turns : c.moved.length + c.exited.length + (c.last.events .immediate).length =
    (s.events .immediate).length
  moved : ∀ p ∈ c.moved, Requeued w nr p.1 p.2
  exited : ∀ p ∈ c.exited, p.1.flags p.2 = .exiting ∧ p.1.wantedNr w nr p.2 = true
  left : c.last.events .immediate = (s.events .immediate).filter fun e =>
    e ∉ c.moved.map Prod.snd ∧ e ∉ c.exited.map Prod.snd
  ends : ∀ t e, c.stop ≠ .exits t e
  returns0 : c.stop = .returns0 → c.after.events .immediate = c.last.events .immediate ∧
    ∀ e ∈ c.after.events .immediate, c.after.wantedNr w nr e = false
  enters : ∀ t e, c.stop = .enters t e → t = c.last.tc e ∧ e ∈ c.last.events .immediate ∧
    c.after.events .immediate = (c.last.events .immediate).erase e ∧
    ∀ x ∈ (s.events .immediate).takeWhile (· ≠ e),
      x ∈ c.moved.map Prod.snd ∨ x ∈ c.exited.map Prod.snd ∨ c.last.wantedNr w nr x = false

section Call

variable {s s₂ : State} {w : WorkerId} {nr : Int} {t : Tid} {e : EventId}

private theorem ScanSpec.callSpec {r : ScanEnd} (spec : ScanSpec s w nr r)
    (ends : ∀ t e, r.stop ≠ .exits t e) :
    CallSpec s w nr { r with exited := [] } where
  turns := by simpa using spec.turns
  moved := spec.moved
  exited := by simp
  left := by simpa using spec.left
  ends := ends
  returns0 := spec.returns0
  enters t e stop := by
    obtain ⟨tc, member, after, front⟩ := spec.enters t e stop
    exact ⟨tc, member, after, fun x below => (front x below).imp_right .inr⟩

private theorem ScanSpec.exited_events {r : ScanEnd} (nodup : (s.events .immediate).Nodup)
    (spec : ScanSpec s w nr r) (stop : r.stop = .exits t e) :
    r.after.events .immediate =
      (s.events .immediate).filter fun x => x ≠ e ∧ x ∉ r.moved.map Prod.snd := by
  obtain ⟨_, _, after, _⟩ := spec.exits t e stop
  rw [after, spec.left, (nodup.filter _).erase_eq_filter, List.filter_filter]
  apply List.filter_congr
  intro x _
  rw [Bool.eq_iff_iff]
  simp

theorem CallSpec.before {r : ScanEnd} {c : CallEnd} (nodup : (s.events .immediate).Nodup)
    (spec : ScanSpec s w nr r) (stop : r.stop = .exits t e)
    (events : s₂.events .immediate = r.after.events .immediate) (later : CallSpec s₂ w nr c) :
    CallSpec s w nr { c with moved := r.moved ++ c.moved, exited := (r.last, e) :: c.exited } := by
  obtain ⟨_, member, after, exiting, wanted, _⟩ := spec.exits t e stop
  have start := events.trans (spec.exited_events nodup stop)
  constructor
  case turns =>
    have turns := later.turns
    have hold := spec.turns
    have some := List.length_pos_of_mem member
    rw [events, after, List.length_erase_of_mem member] at turns
    simp only [List.length_append, List.length_cons]
    omega
  case moved => exact List.forall_mem_append.mpr ⟨spec.moved, later.moved⟩
  case exited => exact List.forall_mem_cons.mpr ⟨⟨exiting, wanted⟩, later.exited⟩
  case left =>
    rw [later.left, start, List.filter_filter]
    apply List.filter_congr
    intro x _
    rw [Bool.eq_iff_iff]
    simp
    tauto
  case ends => exact later.ends
  case returns0 => exact later.returns0
  case enters =>
    intro u x chosen
    obtain ⟨tc, on, left, front⟩ := later.enters u x chosen
    refine ⟨tc, on, left, fun y below => ?_⟩
    rw [start] at front
    rw [List.map_append]
    by_cases moved : y ∈ r.moved.map Prod.snd
    · exact .inl (List.mem_append_left _ moved)
    rcases eq_or_ne y e with rfl | apart
    · exact .inr (.inl (.head _))
    have stands := mem_takeWhile_filter below
      (p := fun x => x ≠ e ∧ x ∉ r.moved.map Prod.snd) (by simpa using ⟨apart, by simpa using moved⟩)
    exact (front y stands).imp (List.mem_append_right _) (Or.imp_left (.tail _))

/-- Every hold but the last takes an `EF_EXITING` event off the list. -/
theorem runHolds_spec (w : WorkerId) (nr : Int) {others : Nat → State → State}
    {unlocked : Nat → Tid → State → State} (held : ∀ n s, LockHeld s (others n s))
    (alone : ∀ n t s, LockHeld s (unlocked n t s)) {holds : Nat} (listed : Listed s)
    (enough : (s.events .immediate).length < holds) :
    ∃ c, runHolds w nr others unlocked holds s = some (.ok c) ∧ CallSpec s w nr c := by
  induction holds generalizing s with
  | zero => cases enough
  | succ holds ih =>
      obtain ⟨r, looped, spec⟩ := scanLoop_spec w nr held listed (Nat.lt_succ_self _)
      rw [runHolds, looped]
      cases stop : r.stop with
      | exits t e =>
          obtain ⟨_, member, after, _, _, listed'⟩ := spec.exits t e stop
          have quiet := alone holds t r.after
          have shorter : ((unlocked holds t r.after).events .immediate).length < holds := by
            have turns := spec.turns
            have some := List.length_pos_of_mem member
            rw [quiet.events, after, List.length_erase_of_mem member]
            omega
          obtain ⟨c, ran, later⟩ := ih (quiet.listed listed') shorter
          refine ⟨{ c with moved := r.moved ++ c.moved, exited := (r.last, e) :: c.exited }, ?_, ?_⟩
          · simp only [stop, ran]
          · exact later.before listed.nodup spec stop quiet.events
      | returns0 =>
          refine ⟨{ r with exited := [] }, by simp only [stop], spec.callSpec ?_⟩
          simp [stop]
      | enters t e =>
          refine ⟨{ r with exited := [] }, by simp only [stop], spec.callSpec ?_⟩
          simp [stop]

end Call

/-- `_run_immediate(nr)` by worker `w`. While it holds the lock, its search ends after no more restarts
than there are events, whatever the other workers do to the threads: each restart has moved an event to
the pending list of a thread that is running or waits with another event on top of its stack. If it
returns 0, no event on the list is wanted; if it enters a thread, every event in front of the chosen one
has been moved or is not wanted; and the events that are not moved keep their order. If nobody changes
the list while the lock is released for `tc_thread_free`, the call ends too, and an event in front of the
chosen one may also have been an `EF_EXITING` event. -/
theorem run_immediate_scan {s : State} {others : Nat → State → State} (w : WorkerId) (nr : Int)
    (listed : Listed s) (held : ∀ n s, LockHeld s (others n s)) :
    (∃ r, scanLoop w nr others ((s.events .immediate).length + 1) s = some (.ok r) ∧
      ScanSpec s w nr r) ∧
    ∀ unlocked : Nat → Tid → State → State, (∀ n t s, LockHeld s (unlocked n t s)) →
      ∃ c, runHolds w nr others unlocked ((s.events .immediate).length + 1) s = some (.ok c) ∧
        CallSpec s w nr c :=
  ⟨scanLoop_spec w nr held listed (Nat.lt_succ_self _),
    fun _ alone => runHolds_spec w nr held alone listed (Nat.lt_succ_self _)⟩

/-- The search of worker 0 takes the signal of thread 1 to its pending events, for worker 1 executes
thread 1, and chooses thread 0. -/
def State.Passes (s : State) : Bool :=
  decide (s.events .immediate = [.sub 1 0, .auto 0 0] ∧
    (∀ e ∈ s.events .immediate, s.el e = some .immediate ∧ s.domain e = s.threadDomain (s.tc e))) &&
  match scanLoop 0 anyWorker (fun _ s => s) 3 s with
  | some (.ok r) => decide (r.moved.map Prod.snd = [.sub 1 0] ∧ r.stop = .enters 0 (.auto 0 0))
  | _ => false

set_option maxRecDepth 20000 in
theorem run_immediate_scan_passes : ∃ s : State, Reachable 2 (fun _ => 0) s ∧ Listed s ∧
    s.events .immediate = [.sub 1 0, .auto 0 0] ∧
    ∃ r, scanLoop 0 anyWorker (fun _ s => s) 3 s = some (.ok r) ∧ ScanSpec s 0 anyWorker r ∧
      r.moved.map Prod.snd = [.sub 1 0] ∧ r.stop = .enters 0 (.auto 0 0) ∧
      ∃ c, runHolds 0 anyWorker (fun _ s => s) (fun _ _ s => s) 3 s = some (.ok c) ∧
        CallSpec s 0 anyWorker c := by
  obtain ⟨s, reached, shown⟩ := Transition.exists_run State.step (.initial 2 fun _ => 0)
    [.user 1 (.subscribe 0 0), .user 1 (.fire 0), .user 0 (.yield 0), .advance 0, .advance 0, .leave 0]
    State.Passes (by decide)
  simp only [State.Passes, Bool.and_eq_true, decide_eq_true_eq] at shown
  obtain ⟨⟨events, there⟩, ends⟩ := shown
  have listed : Listed s :=
    ⟨by simp [events], fun e member => (there e member).1, fun e member => (there e member).2⟩
  have held : ∀ (_ : Nat) (s : State), LockHeld s s := fun _ _ => ⟨rfl, id⟩
  obtain ⟨⟨r, looped, spec⟩, call⟩ := run_immediate_scan 0 anyWorker listed held
  obtain ⟨c, ran, called⟩ := call (fun _ _ s => s) fun _ _ _ => ⟨rfl, id⟩
  rw [events] at looped ran
  simp only [List.length_cons, List.length_nil, Nat.zero_add, Nat.reduceAdd] at looped ran
  rw [looped] at ends
  simp only [decide_eq_true_eq] at ends
  exact ⟨s, reached, listed, events, r, looped, spec, ends.1, ends.2, c, ran, called⟩

end Libtcr
