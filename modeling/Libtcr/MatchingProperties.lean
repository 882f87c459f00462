import Libtcr.FdProperties
import Libtcr.SystemInvariant

/-! Which waiters `matching_event` wakes: what its loop finds, in terms of the waiters that ask
for the reported directions, and when a waiter is woken twice or a waiter with priority loses. -/

set_option autoImplicit false

namespace Libtcr

/-! ## What the loop finds -/

def Mask.has (mask bit : Mask) : Bool := mask &&& bit ≠ 0

section Selection

variable {α : Type} {asksIn asksOut priority here : α → Bool}

/-- The waiters that a report reaches: each asks for a direction that is open. A direction is
open if it is reported, and until a waiter with priority has taken it. -/
def reached (asksIn asksOut priority : α → Bool) (openIn openOut : Bool) : List α → List α
  | [] => []
  | e :: es =>
    if (openIn && asksIn e) || (openOut && asksOut e) then
      e :: reached asksIn asksOut priority (openIn && !(priority e && asksIn e))
        (openOut && !(priority e && asksOut e)) es
    else reached asksIn asksOut priority openIn openOut es

def firstPriority (asks priority : α → Bool) (es : List α) : Option α :=
  es.find? fun e => priority e && asks e

def lastHere (here : α → Bool) (es : List α) : Option α := es.reverse.find? here

/-- The waiter found for a direction: the first one with priority, else the last one of the
worker, else the first one. -/
def found (asks priority here : α → Bool) (isOpen : Bool) (old : Option α) (es : List α) :
    Option α :=
  if isOpen then
    (firstPriority asks priority es).or
      ((lastHere here (es.filter asks)).or (old.or (es.find? asks)))
  else old

private theorem lastHere_cons (e : α) (es : List α) :
    lastHere here (e :: es) = (lastHere here es).or (if here e then some e else none) := by
  unfold lastHere
  rw [List.reverse_cons, List.find?_append]
  cases h : here e <;> simp [h]

private theorem found_cons (asks priority here : α → Bool) (isOpen : Bool) (old : Option α) (e : α)
    (es : List α) :
    found asks priority here isOpen old (e :: es) =
      found asks priority here (isOpen && !(priority e && asks e))
        (if isOpen && asks e then
          (if here e || priority e || old.isNone then some e else old) else old) es := by
  cases isOpen with
  | false => simp [found]
  | true =>
      cases asked : asks e with
      | false => simp [found, firstPriority, asked]
      | true =>
          cases first : priority e with
          | true => simp [found, firstPriority, asked, first]
          | false =>
              cases on : here e with
              | true => simp [found, firstPriority, asked, first, lastHere_cons, on]
              | false => cases old <;> simp [found, firstPriority, asked, first, lastHere_cons, on]

private theorem lastHere_reached_cons (openIn openOut : Bool) (e : α) (es : List α) :
    lastHere here (reached asksIn asksOut priority openIn openOut (e :: es)) =
      (lastHere here (reached asksIn asksOut priority (openIn && !(priority e && asksIn e))
        (openOut && !(priority e && asksOut e)) es)).or
      (if ((openIn && asksIn e) || (openOut && asksOut e)) && here e then some e else none) := by
  rw [reached]
  split
  · next hit => rw [lastHere_cons, hit, Bool.true_and]
  · next missed =>
    have closedIn : (openIn && asksIn e) = false := by simp_all
    have closedOut : (openOut && asksOut e) = false := by simp_all
    have keepsIn : (openIn && !(priority e && asksIn e)) = openIn := by
      cases openIn <;> simp_all
    have keepsOut : (openOut && !(priority e && asksOut e)) = openOut := by
      cases openOut <;> simp_all
    rw [closedIn, closedOut, keepsIn, keepsOut]
    simp

/-- The first element with a property has a weaker one first, if it has the stronger one. -/
private theorem find_of_imp {p q : α → Bool} {es : List α} {x : α} (first : es.find? p = some x)
    (holds : q x = true) (stronger : ∀ y, q y = true → p y = true) : es.find? q = some x := by
  induction es with
  | nil => simp at first
  | cons e es ih =>
      cases at_ : p e with
      | true =>
          simp only [List.find?_cons, at_, Option.some.injEq] at first
          subst first
          simp [holds]
      | false =>
          have not : q e = false := by
            cases other : q e with
            | false => rfl
            | true => exact absurd (stronger e other) (by simp [at_])
          simp only [List.find?_cons, at_] at first
          simpa [List.find?_cons, not] using ih first

private theorem lastHere_filter (p : α → Bool) (es : List α) :
    lastHere here (es.filter p) = es.reverse.find? fun e => p e && here e := by
  rw [lastHere, ← List.filter_reverse, List.find?_filter]
  simp only [Bool.decide_and, Bool.decide_eq_true]

private theorem reached_find_priority (es : List α) :
    (reached asksIn asksOut priority true true es).find? priority =
      es.find? fun e => priority e && (asksIn e || asksOut e) := by
  induction es with
  | nil => rfl
  | cons e es ih =>
      cases asked : (asksIn e || asksOut e) with
      | false => simp [reached, asked, ih]
      | true =>
          cases first : priority e with
          | true => simp [reached, asked, first]
          | false => simp [reached, asked, first, ih]

/-- Without priorities all waiters are reached that ask for a reported direction. -/
theorem reached_of_none {openIn openOut : Bool} {es : List α}
    (none : ∀ e ∈ es, priority e = true → (asksIn e || asksOut e) = false) :
    reached asksIn asksOut priority openIn openOut es =
      es.filter fun e => (openIn && asksIn e) || (openOut && asksOut e) := by
  induction es with
  | nil => rfl
  | cons e es ih =>
      have later := ih fun x member => none x (.tail _ member)
      have keeps : (priority e && asksIn e) = false ∧ (priority e && asksOut e) = false := by
        have now := none e (.head _)
        cases first : priority e <;> simp_all
      unfold reached
      rw [keeps.1, keeps.2, Bool.not_false, Bool.and_true, Bool.and_true, later, List.filter_cons]

/-- The waiter that the report prefers: the first one with priority, else the last one of the
worker, else the first one. -/
def preferred (priority here : α → Bool) (reached : List α) : Option α :=
  (reached.find? priority).or ((lastHere here reached).or reached.head?)

private theorem found_open (asks : α → Bool) (es : List α) :
    found asks priority here true none es = (firstPriority asks priority es).or
      ((es.reverse.find? fun e => asks e && here e).or (es.find? asks)) := by
  rw [found, if_pos rfl, lastHere_filter, Option.none_or]

private theorem found_preferred {asks : α → Bool} {es : List α} {x : α} (asked : asks x = true)
    (wider : ∀ y, asks y = true → (asksIn y || asksOut y) = true)
    (best : preferred priority here (reached asksIn asksOut priority true true es) = some x) :
    found asks priority here true none es = some x := by
  rw [found_open]
  unfold preferred at best
  rw [reached_find_priority] at best
  cases first : es.find? fun e => priority e && (asksIn e || asksOut e) with
  | some y =>
      rw [first, Option.some_or] at best
      obtain rfl := Option.some.inj best
      have urgent : priority y = true := by
        have both := List.find?_some first
        simp only [Bool.and_eq_true] at both
        exact both.1
      have prior : firstPriority asks priority es = some y :=
        find_of_imp first (by simp [urgent, asked]) fun z both => by
          simp only [Bool.and_eq_true] at both
          simp only [both.1, wider z both.2, Bool.and_self]
      rw [prior, Option.some_or]
  | none =>
      have unasked : ∀ e ∈ es, priority e = true → (asksIn e || asksOut e) = false := by
        intro e member urgent
        have not := List.find?_eq_none.mp first e member
        simpa [urgent] using not
      have prior : firstPriority asks priority es = none := by
        refine List.find?_eq_none.mpr fun e member both => ?_
        simp only [Bool.and_eq_true] at both
        have none := unasked e member both.1
        rw [wider e both.2] at none
        cases none
      rw [first, Option.none_or, reached_of_none unasked, lastHere_filter] at best
      rw [prior, Option.none_or]
      simp only [Bool.true_and] at best
      cases own : es.reverse.find? fun e => (asksIn e || asksOut e) && here e with
      | some y =>
          rw [own, Option.some_or] at best
          obtain rfl := Option.some.inj best
          have on : here y = true := by
            have both := List.find?_some own
            simp only [Bool.and_eq_true] at both
            exact both.2
          rw [find_of_imp own (by simp [asked, on]) fun z both => by
            simp only [Bool.and_eq_true] at both
            simp only [wider z both.1, both.2, Bool.and_self], Option.some_or]
      | none =>
          rw [own, Option.none_or, List.head?_filter] at best
          have nowhere : (es.reverse.find? fun e => asks e && here e) = none := by
            refine List.find?_eq_none.mpr fun e member both => ?_
            simp only [Bool.and_eq_true] at both
            have not := List.find?_eq_none.mp own e member
            simp [wider e both.1, both.2] at not
          rw [nowhere, Option.none_or]
          exact find_of_imp best asked wider

theorem asks_of_reached {openIn openOut : Bool} {es : List α} {x : α}
    (member : x ∈ reached asksIn asksOut priority openIn openOut es) :
    ((openIn && asksIn x) || (openOut && asksOut x)) = true := by
  induction es generalizing openIn openOut with
  | nil => simp [reached] at member
  | cons e es ih =>
      unfold reached at member
      split at member
      · next hit =>
        rcases List.mem_cons.mp member with rfl | later
        · exact hit
        · have weaker := ih later
          simp only [Bool.or_eq_true, Bool.and_eq_true] at weaker ⊢
          rcases weaker with ⟨⟨isOpen, _⟩, asked⟩ | ⟨⟨isOpen, _⟩, asked⟩
          · exact .inl ⟨isOpen, asked⟩
          · exact .inr ⟨isOpen, asked⟩
      · exact ih member

private theorem reached_sublist (openIn openOut : Bool) (es : List α) :
    (reached asksIn asksOut priority openIn openOut es).Sublist es := by
  induction es generalizing openIn openOut with
  | nil => exact .slnil
  | cons e es ih =>
      unfold reached
      split
      · exact (ih _ _).cons_cons e
      · exact (ih _ _).cons e

private theorem reached_ne_nil {openOut : Bool} {es : List α} {x : α} (member : x ∈ es)
    (asked : asksIn x = true) : reached asksIn asksOut priority true openOut es ≠ [] := by
  induction es with
  | nil => simp at member
  | cons e es ih =>
      unfold reached
      split
      · simp
      · next missed =>
        rcases List.mem_cons.mp member with rfl | later
        · simp [asked] at missed
        · exact ih later

theorem found_asks {asks : α → Bool} {isOpen : Bool} {es : List α} {x : α}
    (chosen : found asks priority here isOpen none es = some x) :
    isOpen = true ∧ asks x = true ∧ x ∈ es := by
  cases isOpen with
  | false => simp [found] at chosen
  | true =>
      refine ⟨rfl, ?_⟩
      rw [found_open, firstPriority] at chosen
      rcases Option.or_eq_some_iff.mp chosen with first | ⟨_, chosen⟩
      · have both := List.find?_some first
        simp only [Bool.and_eq_true] at both
        exact ⟨both.2, List.mem_of_find?_eq_some first⟩
      · rcases Option.or_eq_some_iff.mp chosen with own | ⟨_, plain⟩
        · have both := List.find?_some own
          simp only [Bool.and_eq_true] at both
          exact ⟨both.1, List.mem_reverse.mp (List.mem_of_find?_eq_some own)⟩
        · exact ⟨List.find?_some plain, List.mem_of_find?_eq_some plain⟩

private theorem preferred_mem {es : List α} (some_ : es ≠ []) :
    ∃ x ∈ es, preferred priority here es = some x := by
  unfold preferred lastHere
  cases first : es.find? priority with
  | some x => exact ⟨x, List.mem_of_find?_eq_some first, rfl⟩
  | none =>
      cases own : es.reverse.find? here with
      | some x => exact ⟨x, List.mem_reverse.mp (List.mem_of_find?_eq_some own), rfl⟩
      | none =>
          cases es with
          | nil => exact absurd rfl some_
          | cons e es => exact ⟨e, .head _, rfl⟩

/-- The same waiter is found for both directions if and only if the preferred waiter asks for
both. -/
theorem found_both_iff {es : List α} {x : α} :
    found asksIn priority here true none es = some x ∧
      found asksOut priority here true none es = some x ↔
    preferred priority here (reached asksIn asksOut priority true true es) = some x ∧
      asksIn x = true ∧ asksOut x = true := by
  constructor
  · intro ⟨inn, out⟩
    obtain ⟨_, asksIn_x, member⟩ := found_asks inn
    obtain ⟨_, asksOut_x, _⟩ := found_asks out
    have some_ : reached asksIn asksOut priority true true es ≠ [] := reached_ne_nil member asksIn_x
    obtain ⟨y, reaches, best⟩ : ∃ y ∈ reached asksIn asksOut priority true true es,
        preferred priority here (reached asksIn asksOut priority true true es) = some y :=
      preferred_mem some_
    have same : y = x := by
      have asked := asks_of_reached reaches
      simp only [Bool.true_and, Bool.or_eq_true] at asked
      rcases asked with asked | asked
      · have chosen := found_preferred asked (by simp_all) best
        exact Option.some.inj (chosen.symm.trans inn)
      · have chosen := found_preferred asked (by simp_all) best
        exact Option.some.inj (chosen.symm.trans out)
    exact ⟨same ▸ best, asksIn_x, asksOut_x⟩
  · intro ⟨best, inn, out⟩
    exact ⟨found_preferred inn (by simp_all) best, found_preferred out (by simp_all) best⟩

end Selection

section Loop

variable {α : Type} {epEvents : α → Mask} {priority here : α → Bool}

private theorem has_twoPow (mask : Mask) {k : Nat} (small : k < 32) :
    Mask.has mask (BitVec.twoPow 32 k) = mask.getLsbD k := by
  have nonzero : BitVec.twoPow 32 k ≠ 0#32 := by
    intro zero
    have bit := congrArg (fun b => BitVec.getLsbD b k) zero
    simp [small] at bit
  unfold Mask.has
  rw [BitVec.and_twoPow]
  cases bit : mask.getLsbD k <;> simp [nonzero]

theorem Mask.has_in (mask : Mask) : mask.has EPOLLIN = mask.getLsbD 0 :=
  (has_twoPow mask (k := 0) (by decide) :)

theorem Mask.has_out (mask : Mask) : mask.has EPOLLOUT = mask.getLsbD 2 :=
  (has_twoPow mask (k := 2) (by decide) :)

private theorem Mask.has_iff {mask bit : Mask} : mask &&& bit ≠ 0 ↔ mask.has bit = true := by
  simp [Mask.has]

private theorem has_cleared (mask : Mask) (asks priority : Bool) :
    ((if (mask.has EPOLLIN && asks) = true ∧ priority = true then mask &&& ~~~EPOLLIN
      else mask).has EPOLLIN = (mask.has EPOLLIN && !(priority && asks)) ∧
    (if (mask.has EPOLLIN && asks) = true ∧ priority = true then mask &&& ~~~EPOLLIN
      else mask).has EPOLLOUT = mask.has EPOLLOUT) ∧
    (if (mask.has EPOLLOUT && asks) = true ∧ priority = true then mask &&& ~~~EPOLLOUT
      else mask).has EPOLLOUT = (mask.has EPOLLOUT && !(priority && asks)) ∧
    (if (mask.has EPOLLOUT && asks) = true ∧ priority = true then mask &&& ~~~EPOLLOUT
      else mask).has EPOLLIN = mask.has EPOLLIN := by
  simp only [Mask.has_in, Mask.has_out]
  cases asks <;> cases priority <;> cases inn : mask.getLsbD 0 <;> cases out : mask.getLsbD 2 <;>
    simp_all [EPOLLIN, EPOLLOUT]

private theorem matchLoop_zero (inn out ew : Option α) (es : List α) :
    matchLoop epEvents priority here 0 inn out ew es = (inn, out, ew) := by
  cases es with
  | nil => rfl
  | cons e es => simp [matchLoop]

/-- One turn of the loop. `break` leaves out waiters that the rest of the mask does not reach. -/
theorem matchLoop_cons (epEvents : α → Mask) (priority here : α → Bool) (em : Mask)
    (inn out ew : Option α) (e : α) (es : List α) :
    ∃ em' : Mask,
      em'.has EPOLLIN = (em.has EPOLLIN && !(priority e && (epEvents e).has EPOLLIN)) ∧
      em'.has EPOLLOUT = (em.has EPOLLOUT && !(priority e && (epEvents e).has EPOLLOUT)) ∧
      matchLoop epEvents priority here em inn out ew (e :: es) =
        matchLoop epEvents priority here em'
          (if em.has EPOLLIN && (epEvents e).has EPOLLIN then
            (if here e || priority e || inn.isNone then some e else inn) else inn)
          (if em.has EPOLLOUT && (epEvents e).has EPOLLOUT then
            (if here e || priority e || out.isNone then some e else out) else out)
          (if (em.has EPOLLIN && (epEvents e).has EPOLLIN ||
              em.has EPOLLOUT && (epEvents e).has EPOLLOUT) && here e then some e else ew) es := by
  have hit : ∀ {mask : Mask}, (mask &&& epEvents e &&& EPOLLIN ≠ 0 ↔
      (mask.has EPOLLIN && (epEvents e).has EPOLLIN) = true) ∧
      (mask &&& epEvents e &&& EPOLLOUT ≠ 0 ↔
        (mask.has EPOLLOUT && (epEvents e).has EPOLLOUT) = true) := by
    intro mask
    simp only [Mask.has_iff, Mask.has_in, Mask.has_out, BitVec.getLsbD_and, and_self]
  obtain ⟨first, other⟩ := (has_cleared em ((epEvents e).has EPOLLIN) (priority e)).1
  have second := (has_cleared (if (em.has EPOLLIN && (epEvents e).has EPOLLIN) = true ∧
    priority e = true then em &&& ~~~EPOLLIN else em) ((epEvents e).has EPOLLOUT) (priority e)).2
  rw [other, first] at second
  refine ⟨_, second.2, second.1, ?_⟩
  have goesOn : ∀ {mask : Mask} {x y z : Option α}, (if mask = 0 then (x, y, z)
      else matchLoop epEvents priority here mask x y z es) =
      matchLoop epEvents priority here mask x y z es := by
    intro mask x y z
    split
    · next none => rw [none, matchLoop_zero]
    · rfl
  rw [matchLoop]
  simp only [hit, other, goesOn]
  congr 1
  · cases inn <;> simp
  · cases out <;> simp
  · generalize (em.has EPOLLIN && (epEvents e).has EPOLLIN) = hitIn
    generalize (em.has EPOLLOUT && (epEvents e).has EPOLLOUT) = hitOut
    cases hitIn <;> cases hitOut <;> cases here e <;> rfl

private theorem matchLoop_eq (em : Mask) (inn out ew : Option α) (es : List α) :
    matchLoop epEvents priority here em inn out ew es =
      (found (fun e => (epEvents e).has EPOLLIN) priority here (em.has EPOLLIN) inn es,
        found (fun e => (epEvents e).has EPOLLOUT) priority here (em.has EPOLLOUT) out es,
        (lastHere here (reached (fun e => (epEvents e).has EPOLLIN)
          (fun e => (epEvents e).has EPOLLOUT) priority (em.has EPOLLIN) (em.has EPOLLOUT) es)).or
          ew) := by
  induction es generalizing em inn out ew with
  | nil => simp [matchLoop, found, firstPriority, lastHere, reached]
  | cons e es ih =>
      obtain ⟨em', inn', out', again⟩ := matchLoop_cons epEvents priority here em inn out ew e es
      rw [again, ih, inn', out', ← found_cons, ← found_cons, lastHere_reached_cons]
      cases lastHere here _ <;> simp
      split_ifs <;> rfl

/-! ## Who is woken -/

section Woken

variable (epEvents : α → Mask) (priority here : α → Bool) (em : Mask) (es : List α)

/-- The waiters that a report with mask `em` reaches. -/
def reachedBy : List α :=
  reached (fun e => (epEvents e).has EPOLLIN) (fun e => (epEvents e).has EPOLLOUT) priority
    (em.has EPOLLIN) (em.has EPOLLOUT) es

def ownWaiter : Option α := lastHere here (reachedBy epEvents priority em es)

/-- Both directions are reported, the waiter that the report prefers asks for both, and no other
waiter is the last one of the worker. -/
def PrefersForBoth : Prop :=
  em.has EPOLLIN = true ∧ em.has EPOLLOUT = true ∧ ∃ x,
    preferred priority here (reachedBy epEvents priority em es) = some x ∧
      (epEvents x).has EPOLLIN = true ∧ (epEvents x).has EPOLLOUT = true ∧
      (ownWaiter epEvents priority here em es = none ∨
        ownWaiter epEvents priority here em es = some x)

variable [DecidableEq α]

def exits (inn out : Option α) : Option α → Option α × Option α
  | some ew => (if some ew = inn then out else inn, some ew)
  | none =>
    match inn, out with
    | some inn, some out => (some inn, some out)
    | some inn, none => (none, some inn)
    | none, out => (none, out)

theorem matchingEvent_eq :
    matchingEvent epEvents priority here em es =
      exits (found (fun e => (epEvents e).has EPOLLIN) priority here (em.has EPOLLIN) none es)
        (found (fun e => (epEvents e).has EPOLLOUT) priority here (em.has EPOLLOUT) none es)
        (ownWaiter epEvents priority here em es) := by
  unfold matchingEvent
  rw [matchLoop_eq, Option.or_none]
  unfold ownWaiter reachedBy exits
  split <;> simp_all

end Woken

section Exits

variable [DecidableEq α] {inn out ew : Option α} {x : α}

/-- Event `x` is moved to `common.immediate`, or returned. -/
def Wakes (result : Option α × Option α) (x : α) : Prop := result.1 = some x ∨ result.2 = some x

private theorem exits_twice_iff : exits inn out ew = (some x, some x) ↔
    (inn = some x ∧ out = some x) ∧ (ew = none ∨ ew = some x) := by
  cases ew with
  | none => cases inn <;> cases out <;> simp [exits]
  | some y =>
      simp only [exits, Prod.mk.injEq, Option.some.injEq, reduceCtorEq, false_or]
      constructor
      · intro ⟨moved, same⟩
        subst same
        split at moved
        · next found => exact ⟨⟨found.symm, moved⟩, rfl⟩
        · next other => exact absurd moved.symm other
      · intro ⟨⟨found, moved⟩, same⟩
        subst same
        rw [if_pos found.symm]
        exact ⟨moved, rfl⟩

private theorem exits_inn (found : inn = some x) : Wakes (exits inn out ew) x := by
  subst found
  cases ew with
  | none => cases out <;> simp [exits, Wakes]
  | some y => by_cases same : y = x <;> simp [exits, Wakes, same]

private theorem exits_own (own : ew = some x) : Wakes (exits inn out ew) x := by
  subst own
  exact .inr rfl

private theorem exits_out_iff (found : out = some x) : Wakes (exits inn out ew) x ↔
    ew = none ∨ ew = inn ∨ ew = some x ∨ inn = some x := by
  subst found
  cases ew with
  | none => cases inn <;> simp [exits, Wakes]
  | some y => by_cases same : some y = inn <;> simp [exits, Wakes, same, or_comm]

theorem exits_mem (woken : Wakes (exits inn out ew) x) :
    inn = some x ∨ out = some x ∨ ew = some x := by
  unfold Wakes at woken
  cases ew with
  | none => cases inn <;> cases out <;> simp_all [exits]
  | some y =>
      by_cases same : some y = inn
      · rw [exits, if_pos same] at woken
        rcases woken with moved | returned
        · exact .inr (.inl moved)
        · exact .inr (.inr returned)
      · rw [exits, if_neg same] at woken
        rcases woken with moved | returned
        · exact .inl moved
        · exact .inr (.inr returned)

end Exits

/-! ## No event is woken twice -/

section Twice

variable [DecidableEq α] (epEvents : α → Mask) (priority here : α → Bool) (em : Mask) (es : List α)

/-- An event is moved to `common.immediate` and returned. -/
theorem matchingEvent_twice_iff :
    (∃ x, matchingEvent epEvents priority here em es = (some x, some x)) ↔
      PrefersForBoth epEvents priority here em es := by
  simp only [matchingEvent_eq, exits_twice_iff]
  constructor
  · intro ⟨x, ⟨inn, out⟩, own⟩
    obtain ⟨openIn, _⟩ := found_asks inn
    obtain ⟨openOut, _⟩ := found_asks out
    rw [openIn] at inn
    rw [openOut] at out
    obtain ⟨best, asksIn, asksOut⟩ := found_both_iff.mp ⟨inn, out⟩
    refine ⟨openIn, openOut, x, ?_, asksIn, asksOut, own⟩
    rwa [reachedBy, openIn, openOut]
  · intro ⟨openIn, openOut, x, best, asksIn, asksOut, own⟩
    rw [reachedBy, openIn, openOut] at best
    rw [openIn, openOut]
    exact ⟨x, found_both_iff.mpr ⟨best, asksIn, asksOut⟩, own⟩

end Twice

/-! ## Waiters with priority -/

section Precedence

variable {asksIn asksOut : α → Bool}

/-- A waiter with priority is reached for a direction of which it is the first. -/
theorem firstPriority_of_reached {openIn openOut : Bool} {es : List α} {x : α}
    (member : x ∈ reached asksIn asksOut priority openIn openOut es) (urgent : priority x = true) :
    (openIn = true ∧ firstPriority asksIn priority es = some x) ∨
      (openOut = true ∧ firstPriority asksOut priority es = some x) := by
  induction es generalizing openIn openOut with
  | nil => simp [reached] at member
  | cons e es ih =>
      have later : ∀ {asks : α → Bool} {isOpen : Bool},
          (isOpen && !(priority e && asks e)) = true → firstPriority asks priority es = some x →
          isOpen = true ∧ firstPriority asks priority (e :: es) = some x := by
        intro asks isOpen open_ first
        simp only [Bool.and_eq_true, Bool.not_eq_true'] at open_
        exact ⟨open_.1, by simpa [firstPriority, List.find?_cons, open_.2] using first⟩
      unfold reached at member
      split at member
      · next hit =>
        rcases List.mem_cons.mp member with rfl | after
        · simp only [Bool.or_eq_true, Bool.and_eq_true] at hit
          rcases hit with ⟨open_, asked⟩ | ⟨open_, asked⟩
          · exact .inl ⟨open_, by simp [firstPriority, urgent, asked]⟩
          · exact .inr ⟨open_, by simp [firstPriority, urgent, asked]⟩
        · rcases ih after with ⟨open_, first⟩ | ⟨open_, first⟩
          · exact .inl (later open_ first)
          · exact .inr (later open_ first)
      · next missed =>
        simp only [Bool.or_eq_true, Bool.and_eq_true, not_or, not_and, Bool.not_eq_true] at missed
        rcases ih member with ⟨open_, first⟩ | ⟨open_, first⟩
        · exact .inl (later (by simp [open_, missed.1 open_]) first)
        · exact .inr (later (by simp [open_, missed.2 open_]) first)

private theorem reached_filter_in {openOut : Bool} {es : List α}
    (none : firstPriority asksIn priority es = none) :
    (reached asksIn asksOut priority true openOut es).filter asksIn = es.filter asksIn := by
  induction es generalizing openOut with
  | nil => rfl
  | cons e es ih =>
      have here_ : (priority e && asksIn e) = false := by
        cases at_ : priority e && asksIn e with
        | false => rfl
        | true => simp [firstPriority, at_] at none
      have after : firstPriority asksIn priority es = Option.none := by
        simpa [firstPriority, List.find?_cons, here_] using none
      unfold reached
      rw [here_, Bool.not_false, Bool.and_true, Bool.true_and]
      cases asked : asksIn e with
      | true => simp [asked, ih after]
      | false => split <;> simp [asked, ih after]

/-- Without priorities for `EPOLLIN`, the last waiter of the worker is found for it if it asks for
it. -/
theorem found_own {openOut : Bool} {es : List α} {x : α}
    (own : lastHere here (reached asksIn asksOut priority true openOut es) = some x)
    (asked : asksIn x = true) (none : firstPriority asksIn priority es = none) :
    found asksIn priority here true Option.none es = some x := by
  have last : lastHere here (es.filter asksIn) = some x := by
    rw [← reached_filter_in none, lastHere_filter]
    exact find_of_imp own (by simp [asked, (List.find?_some own :)]) (by simp)
  rw [found, if_pos rfl, none, Option.none_or, last, Option.some_or]

private theorem found_priority {asks : α → Bool} {es : List α} {x : α}
    (first : firstPriority asks priority es = some x) :
    found asks priority here true none es = some x ∧ priority x = true := by
  have urgent := List.find?_some first
  simp only [Bool.and_eq_true] at urgent
  exact ⟨by rw [found, if_pos rfl, first, Option.some_or], urgent.1⟩

variable [DecidableEq α] (epEvents priority here) (em : Mask) (es : List α)

/-- If direction `bit` is reported, the first waiter with priority for it is woken, and no waiter
without priority that asks for this direction only. -/
def TakesPrecedence (bit other : Mask) : Prop :=
  em.has bit = true → ∀ p, firstPriority (fun e => (epEvents e).has bit) priority es = some p →
    Wakes (matchingEvent epEvents priority here em es) p ∧
      ∀ y ∈ es, priority y = false → (epEvents y).has bit = true → (epEvents y).has other = false →
        ¬ Wakes (matchingEvent epEvents priority here em es) y

omit [DecidableEq α] in
/-- Waiter `y` does not get in the way of those with priority. -/
def Yields (y : α) : Prop :=
  (em.has EPOLLIN = true → firstPriority (fun e => (epEvents e).has EPOLLIN) priority es ≠ none →
    (epEvents y).has EPOLLOUT = true) ∧
  (em.has EPOLLOUT = true → firstPriority (fun e => (epEvents e).has EPOLLOUT) priority es ≠ none →
    em.has EPOLLIN = true ∧ (epEvents y).has EPOLLIN = true ∧
      (firstPriority (fun e => (epEvents e).has EPOLLIN) priority es = none ∨
        firstPriority (fun e => (epEvents e).has EPOLLIN) priority es =
          firstPriority (fun e => (epEvents e).has EPOLLOUT) priority es))

variable {epEvents priority here em es}

/-- A waiter that asks for one direction only and has no priority is woken as the last one of the
worker, if a waiter with priority has been found for its direction. -/
private theorem own_of_wakes {bit other : Mask} {p y : α}
    (both : (bit = EPOLLIN ∧ other = EPOLLOUT) ∨
      (bit = EPOLLOUT ∧ other = EPOLLIN)) (reported : em.has bit = true)
    (first : firstPriority (fun e => (epEvents e).has bit) priority es = some p)
    (plain : priority y = false) (one : (epEvents y).has other = false)
    (woken : Wakes (matchingEvent epEvents priority here em es) y) :
    ownWaiter epEvents priority here em es = some y := by
  have chosen : found (fun e => (epEvents e).has bit) priority here true none es = some p ∧
      priority p = true := found_priority first
  have notBit : found (fun e => (epEvents e).has bit) priority here (em.has bit) none es ≠ some y := by
    rw [reported, chosen.1]
    intro same
    rw [← Option.some.inj same, chosen.2] at plain
    cases plain
  have notOther : found (fun e => (epEvents e).has other) priority here (em.has other) none es ≠
      some y := by
    intro found
    rw [(found_asks found).2.1] at one
    cases one
  rw [matchingEvent_eq] at woken
  rcases both with ⟨rfl, rfl⟩ | ⟨rfl, rfl⟩
  · rcases exits_mem woken with inn | out | own
    · exact absurd inn notBit
    · exact absurd out notOther
    · exact own
  · rcases exits_mem woken with inn | out | own
    · exact absurd inn notOther
    · exact absurd out notBit
    · exact own

omit [DecidableEq α] in
theorem reached_of_own {y : α} (own : ownWaiter epEvents priority here em es = some y) :
    y ∈ reachedBy epEvents priority em es :=
  List.mem_reverse.mp (List.mem_of_find?_eq_some own)

private theorem wakes_out_iff {q : α} (reported : em.has EPOLLOUT = true)
    (first : firstPriority (fun e => (epEvents e).has EPOLLOUT) priority es = some q) :
    Wakes (matchingEvent epEvents priority here em es) q ↔
      ownWaiter epEvents priority here em es = none ∨
        ownWaiter epEvents priority here em es =
          found (fun e => (epEvents e).has EPOLLIN) priority here (em.has EPOLLIN) none es ∨
        ownWaiter epEvents priority here em es = some q ∨
        found (fun e => (epEvents e).has EPOLLIN) priority here (em.has EPOLLIN) none es = some q := by
  rw [matchingEvent_eq]
  refine exits_out_iff ?_
  rw [reported]
  exact (found_priority first).1

/-- The first waiter with priority for `EPOLLOUT` is woken if the last one of the worker yields. -/
private theorem wakes_out {q : α} (reported : em.has EPOLLOUT = true)
    (first : firstPriority (fun e => (epEvents e).has EPOLLOUT) priority es = some q)
    (yields : ∀ y, ownWaiter epEvents priority here em es = some y → priority y = false →
      Yields epEvents priority em es y) :
    Wakes (matchingEvent epEvents priority here em es) q := by
  rw [wakes_out_iff reported first]
  cases own : ownWaiter epEvents priority here em es with
  | none => exact .inl rfl
  | some y =>
      refine .inr ?_
      have reaches := reached_of_own own
      cases urgent : priority y with
      | true =>
          rcases firstPriority_of_reached reaches urgent with ⟨openIn, firstIn⟩ | ⟨_, firstOut⟩
          · rw [openIn, (found_priority firstIn).1]
            exact .inl rfl
          · exact .inr (.inl (firstOut.symm.trans first))
      | false =>
          obtain ⟨openIn, asked, taken⟩ := (yields y own urgent).2 reported (by simp [first])
          rw [openIn]
          rcases taken with noneIn | same
          · unfold ownWaiter reachedBy at own
            rw [openIn] at own
            exact .inl (found_own own asked noneIn).symm
          · exact .inr (.inr (found_priority (same.trans first)).1)

/-- Waiters with priority take precedence if and only if the last waiter of the worker that the
report reaches has priority itself or yields. -/
theorem matchingEvent_precedence_iff :
    TakesPrecedence epEvents priority here em es EPOLLIN EPOLLOUT ∧
      TakesPrecedence epEvents priority here em es EPOLLOUT EPOLLIN ↔
    ∀ y, ownWaiter epEvents priority here em es = some y → priority y = false →
      Yields epEvents priority em es y := by
  constructor
  · intro ⟨inn, out⟩ y own plain
    have reaches := reached_of_own own
    have member : y ∈ es := (reached_sublist _ _ _).subset reaches
    have asked := asks_of_reached reaches
    simp only [Bool.or_eq_true, Bool.and_eq_true] at asked
    have woken : Wakes (matchingEvent epEvents priority here em es) y := by
      rw [matchingEvent_eq]
      exact exits_own own
    constructor
    · intro reported some_
      obtain ⟨p, first⟩ := Option.ne_none_iff_exists'.mp some_
      cases askedOut : (epEvents y).has EPOLLOUT with
      | true => rfl
      | false =>
          have askedIn : (epEvents y).has EPOLLIN = true := by
            rcases asked with inn | out
            · exact inn.2
            · simp [askedOut] at out
          exact absurd woken ((inn reported p first).2 y member plain askedIn askedOut)
    · intro reported some_
      obtain ⟨q, first⟩ := Option.ne_none_iff_exists'.mp some_
      obtain ⟨wakes, alone⟩ := out reported q first
      have ne_of_first : ∀ {bit : Mask} {x : α},
          firstPriority (fun e => (epEvents e).has bit) priority es = some x → y ≠ x := by
        intro bit x first same
        have urgent := List.find?_some first
        simp only [Bool.and_eq_true] at urgent
        rw [same, urgent.1] at plain
        cases plain
      -- not being the last one of the worker, q is found for EPOLLIN too or moved in its place
      have moved : found (fun e => (epEvents e).has EPOLLIN) priority here (em.has EPOLLIN) none es =
            some y ∨
          found (fun e => (epEvents e).has EPOLLIN) priority here (em.has EPOLLIN) none es =
            some q := by
        rw [wakes_out_iff reported first, own] at wakes
        rcases wakes with none | inn | same | inn
        · cases none
        · exact .inl inn.symm
        · exact absurd (Option.some.inj same) (ne_of_first first)
        · exact .inr inn
      have openIn : em.has EPOLLIN = true := by
        rcases moved with inn | inn
        · exact (found_asks inn).1
        · exact (found_asks inn).1
      refine ⟨openIn, ?_, ?_⟩
      · cases askedIn : (epEvents y).has EPOLLIN with
        | true => rfl
        | false =>
            have askedOut : (epEvents y).has EPOLLOUT = true := by
              rcases asked with inn | out
              · simp [askedIn] at inn
              · exact out.2
            exact absurd woken (alone y member plain askedOut askedIn)
      · cases firstIn : firstPriority (fun e => (epEvents e).has EPOLLIN) priority es with
        | none => exact .inl rfl
        | some p =>
            rw [openIn, (found_priority firstIn).1] at moved
            rcases moved with same | same
            · exact absurd (Option.some.inj same).symm (ne_of_first firstIn)
            · exact .inr (same.trans first.symm)
  · intro yields
    constructor
    · intro reported p first
      constructor
      · rw [matchingEvent_eq]
        refine exits_inn ?_
        rw [reported]
        exact (found_priority first).1
      · intro y _ plain _ one woken
        have own := own_of_wakes (.inl ⟨rfl, rfl⟩) reported first plain one woken
        rw [(yields y own plain).1 reported (by simp [first])] at one
        cases one
    · intro reported q first
      refine ⟨wakes_out reported first yields, ?_⟩
      intro y _ plain _ one woken
      have own := own_of_wakes (.inr ⟨rfl, rfl⟩) reported first plain one woken
      rw [((yields y own plain).2 reported (by simp [first])).2.1] at one
      cases one

end Precedence

end Loop

namespace State

/-- The event that `matching_event` returns is on the list of `f` and has not been moved to
`common.immediate`. At most one event has been moved, another one, and the rest of the list is
as before. -/
def WakesOnce (s s' : State) (f : FdId) (returned : Option EventId) : Prop :=
  ∃ moved : Option EventId,
    s'.events .immediate = s.events .immediate ++ moved.toList ∧
    s'.events (.fd f) = (s.events (.fd f)).filter (fun e => some e ≠ moved) ∧
    (∀ e, moved = some e → e ∈ s.events (.fd f) ∧ returned ≠ some e) ∧
    ∀ e, returned = some e → e ∈ s'.events (.fd f)

variable {s : State}

private theorem moveToImmediate_events (lists : s.lists.WellFormed) (f : FdId)
    (moved : Option EventId) (from_ : ∀ e, moved = some e → e ∈ s.events (.fd f)) :
    (s.moveToImmediate moved.toList).events .immediate = s.events .immediate ++ moved.toList ∧
      (s.moveToImmediate moved.toList).events (.fd f) =
        (s.events (.fd f)).filter (fun e => some e ≠ moved) := by
  cases moved with
  | none => simp [moveToImmediate, events]
  | some e =>
      have on : s.lists.el e = some (.fd f) := (lists.mem_iff _ _).mp (from_ e rfl)
      constructor
      · exact IntrusiveLists.foldl_pushBack_elems (List.nodup_singleton e) (by simp [on])
      · simp only [moveToImmediate, events, Option.toList_some, List.foldl_cons, List.foldl_nil]
        rw [IntrusiveLists.pushBack_elems_of_ne _ _ (by simp), IntrusiveLists.remove_elems_of_el on,
          Function.update_self, (lists.nodup _).erase_eq_filter]
        refine List.filter_congr fun x _ => ?_
        by_cases same : x = e <;> simp [same]

private theorem not_wakesOnce (lists : s.lists.WellFormed) {f : FdId} {x : EventId}
    (member : x ∈ s.events (.fd f)) : ¬ s.WakesOnce (s.moveToImmediate [x]) f (some x) := by
  intro ⟨moved, again, _, other, _⟩
  have immediate := (moveToImmediate_events lists f (some x) (by simp [member])).1
  have ends : [x] = moved.toList := List.append_cancel_left (immediate.symm.trans again)
  cases moved with
  | none => cases ends
  | some y =>
      obtain ⟨rfl, _⟩ := List.cons.inj ends
      exact (other x rfl).2 rfl

/-- `matching_event` wakes every selected waiter once, except when it prefers one waiter for both
directions. -/
theorem matchingEvent_wakesOnce_iff (lists : s.lists.WellFormed) (w : WorkerId) (f : FdId)
    (em : Mask) :
    let choice := matchingEvent s.epEvents (fun e => s.flags e = .priority) (s.here w) em
      (s.events (.fd f))
    s.WakesOnce (s.moveToImmediate choice.1.toList) f choice.2 ↔
      ¬ PrefersForBoth s.epEvents (fun e => s.flags e = .priority) (s.here w) em
        (s.events (.fd f)) := by
  intro choice
  rw [← matchingEvent_twice_iff]
  have from_ : ∀ e, choice.1 = some e → e ∈ s.events (.fd f) := fun e moved =>
    matchingEvent_mem (.inl moved)
  constructor
  · intro once ⟨x, twice⟩
    have equal : choice = (some x, some x) := twice
    have member := from_ x (by rw [equal])
    rw [equal] at once
    exact not_wakesOnce lists member once
  · intro once
    have apart : ∀ e, choice.1 = some e → choice.2 ≠ some e := fun e moved returned =>
      once ⟨e, Prod.ext moved returned⟩
    obtain ⟨immediate, left⟩ := moveToImmediate_events lists f choice.1 from_
    refine ⟨choice.1, immediate, left, fun e moved => ⟨from_ e moved, apart e moved⟩, ?_⟩
    intro e returned
    rw [left]
    have stays : some e ≠ choice.1 := fun moved => apart e moved.symm returned
    exact List.mem_filter.mpr ⟨matchingEvent_mem (.inr returned), by simpa using stays⟩

/-- Threads 0, 1 and 2 wait for `EPOLLIN`, for `EPOLLOUT`, and for `EPOLLIN` with priority. -/
def threeWaiters : List Action :=
  [.user 0 (.threadNew 1 0 0 false), .user 0 (.threadPost 1), .user 0 (.threadNew 2 0 0 false),
    .user 0 (.threadPost 2), .user 0 (.waitFd 0 0 EPOLLIN false true), .advance 0, .advance 0,
    .leave 0, .runImmediate 0 .any, .enter 0, .user 0 (.waitFd 0 0 EPOLLOUT false true), .advance 0,
    .advance 0, .leave 0, .runImmediate 0 .any, .enter 0, .user 0 (.waitFd 0 0 EPOLLIN true true)]

/-- Of three waiters the one with priority is returned for `EPOLLIN`, the one for `EPOLLOUT` is
moved, and the third one stays on the list. -/
theorem matchingEvent_wakesOnce_both : ∃ s, Reachable 1 (fun _ => 0) s ∧ s.lists.WellFormed ∧
    s.events (.fd 0) = [.auto 0 0, .auto 1 0, .auto 2 0] ∧
    let choice := matchingEvent s.epEvents (fun e => s.flags e = .priority) (s.here 0)
      (EPOLLIN ||| EPOLLOUT) (s.events (.fd 0))
    choice = (some (.auto 1 0), some (.auto 2 0)) ∧
      s.WakesOnce (s.moveToImmediate choice.1.toList) 0 choice.2 := by
  obtain ⟨s, reached, ended⟩ := reachable_of_exec 1 (fun _ => 0) threeWaiters
    (fun s => s.events (.fd 0) = [.auto 0 0, .auto 1 0, .auto 2 0] ∧
      matchingEvent s.epEvents (fun e => s.flags e = .priority) (s.here 0) (EPOLLIN ||| EPOLLOUT)
        (s.events (.fd 0)) = (some (.auto 1 0), some (.auto 2 0))) (by decide)
  obtain ⟨waiters, chosen⟩ := of_decide_eq_true ended
  have lists := (SystemInv.run reached).lists.lists
  have once := matchingEvent_wakesOnce_iff lists 0 0 (EPOLLIN ||| EPOLLOUT)
  refine ⟨s, reached, lists, waiters, chosen, once.mpr fun both => ?_⟩
  obtain ⟨x, twice⟩ := (matchingEvent_twice_iff _ _ _ _ _).mpr both
  rw [chosen] at twice
  cases twice

/-- A single waiter for both directions is moved to `common.immediate` and returned. -/
theorem matchingEvent_wakes_twice : ∃ s, Reachable 1 (fun _ => 0) s ∧
    let choice := matchingEvent s.epEvents (fun e => s.flags e = .priority) (s.here 0)
      (EPOLLIN ||| EPOLLOUT) (s.events (.fd 0))
    choice = (some (.auto 0 0), some (.auto 0 0)) ∧
      ¬ s.WakesOnce (s.moveToImmediate choice.1.toList) 0 choice.2 := by
  obtain ⟨s, reached, ended⟩ := reachable_of_exec 1 (fun _ => 0)
    [.user 0 (.waitFd 0 0 (EPOLLIN ||| EPOLLOUT) false true)]
    (fun s => matchingEvent s.epEvents (fun e => s.flags e = .priority) (s.here 0)
      (EPOLLIN ||| EPOLLOUT) (s.events (.fd 0)) = (some (.auto 0 0), some (.auto 0 0))) (by decide)
  have twice := of_decide_eq_true ended
  refine ⟨s, reached, twice, ?_⟩
  rw [twice]
  exact not_wakesOnce (SystemInv.run reached).lists.lists (matchingEvent_mem (.inl (by rw [twice])))

/-- A waiter of the worker that handles the report is woken in place of a waiter with priority. -/
theorem priority_passed_over : ∃ s, Reachable 2 (fun _ => 0) s ∧
    s.events (.fd 0) = [.auto 0 0, .auto 1 0] ∧ s.flags (.auto 1 0) = .priority ∧
    matchingEvent s.epEvents (fun e => s.flags e = .priority) (s.here 0) EPOLLOUT
      (s.events (.fd 0)) = (none, some (.auto 0 0)) ∧
    ¬ TakesPrecedence s.epEvents (fun e => s.flags e = .priority) (s.here 0) EPOLLOUT
      (s.events (.fd 0)) EPOLLOUT EPOLLIN := by
  obtain ⟨s, reached, ended⟩ := reachable_of_exec 2 (fun _ => 0)
    [.user 0 (.waitFd 0 0 EPOLLOUT false true), .user 1 (.waitFd 0 0 EPOLLOUT true true)]
    (fun s => s.events (.fd 0) = [.auto 0 0, .auto 1 0] && s.flags (.auto 1 0) = .priority &&
      matchingEvent s.epEvents (fun e => s.flags e = .priority) (s.here 0) EPOLLOUT
        (s.events (.fd 0)) = (none, some (.auto 0 0)) &&
      firstPriority (fun e => (s.epEvents e).has EPOLLOUT) (fun e => s.flags e = .priority)
        (s.events (.fd 0)) = some (.auto 1 0)) (by decide)
  simp only [Bool.and_eq_true, decide_eq_true_eq] at ended
  obtain ⟨⟨⟨list, flag⟩, choice⟩, first⟩ := ended
  refine ⟨s, reached, list, flag, choice, fun precedence => ?_⟩
  have woken := (precedence (by decide) _ first).1
  rw [choice] at woken
  rcases woken with moved | returned
  · cases moved
  · cases returned

end State

end Libtcr
