import Libtcr.State
import Libtcr.Lib.PointerRing
import Libtcr.Lib.Transition
import Libtcr.Lib.Update

/-! The ring of the domains through `domain_chain`: `tc_run` makes one of its own domain alone,
`tc_new_domain` inserts a domain after the one of its pthread, without a lock, and
`tc_dump_threads` follows it from any domain until it is back there. A step is one assignment of
`SLIST_INSERT_AFTER` or one turn of the loop of `tc_dump_threads`; what that prints of a domain
does not show here. Pthread `p` works for `domainOf p`, and is started once that is on the ring. -/

set_option autoImplicit false

namespace Libtcr

open PointerRing

/-- A call of `tc_dump_threads`. -/
structure DomainWalk where
  /-- `tc_this_pthread_domain` -/
  start : DomainId
  d : Option DomainId
  finished : Bool
  -- history: the domains whose threads have been printed, and those that were on the ring
  -- when the call began
  visited : List DomainId
  known : List DomainId
  deriving DecidableEq, Repr

structure DomainChain where
  next : DomainId → Option DomainId
  /-- The new domain of a pthread between the two assignments of `SLIST_INSERT_AFTER`. -/
  inserting : WorkerId → Option DomainId
  walks : Nat → Option DomainWalk
  -- history: the domains for which both assignments have been made
  linked : List DomainId

inductive ChainAction where
  /-- `n_d->sle_next = tc_this_pthread_domain->sle_next` -/
  | copy (p : WorkerId) (n : DomainId)
  /-- `tc_this_pthread_domain->sle_next = n_d` -/
  | link (p : WorkerId)
  | dump (i : Nat) (d : DomainId)
  /-- The body of the loop of `tc_dump_threads`, and its condition. -/
  | turn (i : Nat)
  deriving DecidableEq, Repr

namespace DomainChain

def walk (s : DomainChain) (i : Nat) (w : DomainWalk) : DomainChain :=
  { s with walks := Function.update s.walks i (some w) }

/-- A new domain has been cleared by `calloc`. -/
def step (domainOf : WorkerId → DomainId) (s : DomainChain) : ChainAction → Option DomainChain
  | .copy p n =>
    if domainOf p ∈ s.linked ∧ s.inserting p = none ∧ s.next n = none then
      some { s with
        next := Function.update s.next n (s.next (domainOf p))
        inserting := Function.update s.inserting p (some n) }
    else none
  | .link p => (s.inserting p).map fun n => { s with
      next := Function.update s.next (domainOf p) (some n)
      inserting := Function.update s.inserting p none
      linked := n :: s.linked }
  | .dump i d =>
    if d ∈ s.linked then some (s.walk i ⟨d, some d, false, [], s.linked⟩) else none
  | .turn i => (s.walks i).bind fun w =>
    if w.finished then none
    else w.d.map fun d => s.walk i { w with
      d := s.next d
      finished := s.next d = some w.start
      visited := w.visited ++ [d] }

def initial (d : DomainId) : DomainChain where
  next := Function.update (fun _ => none) d (some d)
  inserting _ := none
  walks _ := none
  linked := [d]

/-- No other pthread of the domain is inside `SLIST_INSERT_AFTER` when one begins. -/
def Alone (domainOf : WorkerId → DomainId) (s : DomainChain) : ChainAction → Prop
  | .copy p _ => ∀ q, domainOf q = domainOf p → s.inserting q = none
  | _ => True

end DomainChain

/-! ## What holds whatever the calls overlap with -/

structure ChainFacts (s : DomainChain) : Prop where
  target : ∀ x y, s.next x = some y → y ∈ s.linked
  used : ∀ x ∈ s.linked, s.next x ≠ none
  inserting : ∀ p n, s.inserting p = some n → n ∉ s.linked ∧ s.next n ≠ none
  distinct : ∀ p q n, s.inserting p = some n → s.inserting q = some n → p = q
  start : ∀ i w, s.walks i = some w → w.start ∈ s.linked

section Facts

variable {domainOf : WorkerId → DomainId} {s s' : DomainChain} {a : ChainAction} {w : DomainWalk}
  {p : WorkerId} {n d : DomainId}

private theorem ChainFacts.copy (facts : ChainFacts s) (on : domainOf p ∈ s.linked)
    (fresh : s.next n = none) : ChainFacts { s with
      next := Function.update s.next n (s.next (domainOf p))
      inserting := Function.update s.inserting p (some n) } := by
  have out : n ∉ s.linked := fun on => facts.used n on fresh
  have old : ∀ {q m}, s.inserting q = some m → m ≠ n := fun inserting same =>
    (facts.inserting _ _ inserting).2 (same ▸ fresh)
  constructor
  case target =>
    intro x y points
    rcases Update.eq_cases points with ⟨_, copied⟩ | ⟨_, before⟩
    · exact facts.target _ _ copied
    · exact facts.target _ _ before
  case used =>
    intro x member
    have other := ne_of_mem_of_not_mem member out
    exact (Function.update_of_ne other _ _).trans_ne (facts.used x member)
  case inserting =>
    intro q m inserting
    rcases Update.eq_cases inserting with ⟨_, new⟩ | ⟨_, before⟩
    · obtain rfl := Option.some.inj new
      exact ⟨out, (Function.update_self ..).trans_ne (facts.used _ on)⟩
    · obtain ⟨off, next⟩ := facts.inserting q m before
      exact ⟨off, (Function.update_of_ne (old before) _ _).trans_ne next⟩
  case distinct =>
    intro q r m first second
    rcases Update.eq_cases first with ⟨here, new⟩ | ⟨_, before⟩
    · obtain rfl := Option.some.inj new
      rcases Update.eq_cases second with ⟨also, _⟩ | ⟨_, before⟩
      · exact here.trans also.symm
      · exact absurd rfl (old before)
    · rcases Update.eq_cases second with ⟨_, new⟩ | ⟨_, also⟩
      · obtain rfl := Option.some.inj new
        exact absurd rfl (old before)
      · exact facts.distinct q r m before also
  case start => exact facts.start

theorem ChainFacts.link (facts : ChainFacts s) (inserting : s.inserting p = some n) :
    ChainFacts { s with
      next := Function.update s.next (domainOf p) (some n)
      inserting := Function.update s.inserting p none
      linked := n :: s.linked } := by
  obtain ⟨out, defined⟩ := facts.inserting p n inserting
  have kept : ∀ {x}, s.next x ≠ none → Function.update s.next (domainOf p) (some n) x ≠ none := by
    intro x defined later
    obtain ⟨_, before⟩ := Update.old_of_ne later (by simp)
    exact defined before
  constructor
  case target =>
    intro x y points
    rcases Update.eq_cases points with ⟨_, new⟩ | ⟨_, before⟩
    · obtain rfl := Option.some.inj new
      exact List.mem_cons_self
    · exact List.mem_cons_of_mem _ (facts.target _ _ before)
  case used =>
    intro x member
    rcases List.mem_cons.mp member with rfl | old
    · exact kept defined
    · exact kept (facts.used x old)
  case inserting =>
    intro q m later
    obtain ⟨other, before⟩ := Update.old_of_ne later (by simp)
    obtain ⟨off, next⟩ := facts.inserting q m before
    refine ⟨?_, kept next⟩
    rw [List.mem_cons, not_or]
    exact ⟨fun same => other (facts.distinct q p n (same ▸ before) inserting), off⟩
  case distinct =>
    intro q r m first second
    exact facts.distinct q r m (Update.old_of_ne first (by simp)).2
      (Update.old_of_ne second (by simp)).2
  case start => exact fun i w walks => List.mem_cons_of_mem _ (facts.start i w walks)

private theorem ChainFacts.walk (facts : ChainFacts s) (i : Nat) (on : w.start ∈ s.linked) :
    ChainFacts (s.walk i w) where
  target := facts.target
  used := facts.used
  inserting := facts.inserting
  distinct := facts.distinct
  start j v walks := by
    rcases Update.eq_cases walks with ⟨_, new⟩ | ⟨_, before⟩
    · obtain rfl := Option.some.inj new
      exact on
    · exact facts.start j v before

theorem DomainChain.step_cases (stepped : s.step domainOf a = some s') :
    (∃ p n, a = .copy p n ∧ domainOf p ∈ s.linked ∧ s.inserting p = none ∧ s.next n = none ∧
      s' = { s with
        next := Function.update s.next n (s.next (domainOf p))
        inserting := Function.update s.inserting p (some n) }) ∨
    (∃ p n, a = .link p ∧ s.inserting p = some n ∧ s' = { s with
      next := Function.update s.next (domainOf p) (some n)
      inserting := Function.update s.inserting p none
      linked := n :: s.linked }) ∨
    (∃ i d, a = .dump i d ∧ d ∈ s.linked ∧ s' = s.walk i ⟨d, some d, false, [], s.linked⟩) ∨
    ∃ i w d, a = .turn i ∧ s.walks i = some w ∧ w.finished = false ∧ w.d = some d ∧
      s' = s.walk i { w with
        d := s.next d
        finished := s.next d = some w.start
        visited := w.visited ++ [d] } := by
  cases a with
  | copy p n =>
      simp only [DomainChain.step] at stepped
      split at stepped
      · next ready =>
        obtain ⟨on, idle, fresh⟩ := ready
        exact .inl ⟨p, n, rfl, on, idle, fresh, (Option.some.inj stepped).symm⟩
      · cases stepped
  | link p =>
      obtain ⟨n, inserting, rfl⟩ := Option.map_eq_some_iff.mp stepped
      exact .inr (.inl ⟨p, n, rfl, inserting, rfl⟩)
  | dump i d =>
      simp only [DomainChain.step] at stepped
      split at stepped
      · next on => exact .inr (.inr (.inl ⟨i, d, rfl, on, (Option.some.inj stepped).symm⟩))
      · cases stepped
  | turn i =>
      obtain ⟨w, walks, turned⟩ := Option.bind_eq_some_iff.mp stepped
      split at turned
      · cases turned
      · next running =>
        obtain ⟨d, here, rfl⟩ := Option.map_eq_some_iff.mp turned
        exact .inr (.inr (.inr ⟨i, w, d, rfl, walks, by simpa using running, here, rfl⟩))

theorem ChainFacts.step (facts : ChainFacts s) (stepped : s.step domainOf a = some s') :
    ChainFacts s' := by
  rcases DomainChain.step_cases stepped with ⟨p, n, _, on, _, fresh, rfl⟩ |
    ⟨p, n, _, inserting, rfl⟩ | ⟨i, d, _, on, rfl⟩ | ⟨i, w, d, _, walks, _, _, rfl⟩
  · exact facts.copy on fresh
  · exact facts.link inserting
  · exact facts.walk i on
  · exact facts.walk i (facts.start i w walks)

theorem ChainFacts.initial (d : DomainId) : ChainFacts (.initial d) where
  target x y points := by
    simp only [DomainChain.initial] at points
    rcases Update.eq_cases points with ⟨_, new⟩ | ⟨_, before⟩
    · obtain rfl := Option.some.inj new
      exact List.mem_singleton_self d
    · cases before
  used x member := by
    rw [List.mem_singleton.mp member]
    simp [DomainChain.initial]
  inserting p n inserting := by cases inserting
  distinct p q n inserting := by cases inserting
  start i w walks := by cases walks

end Facts

/-! ## Insertions that do not overlap -/

/-- A walk that is not finished is at `d`, and has visited the domains it has passed unless they
were inserted behind it. -/
structure DomainWalk.At (w : DomainWalk) (s : DomainChain) (d : DomainId)
    (passed ahead : List DomainId) : Prop where
  here : w.d = some d
  ring : IsRing s.next w.start (passed ++ d :: ahead)
  all : ∀ x, x ∈ passed ++ d :: ahead ↔ x ∈ s.linked
  visited : w.visited.Sublist passed
  covers : ∀ x ∈ w.known, x ∈ passed → x ∈ w.visited

structure DomainWalk.Inv (s : DomainChain) (w : DomainWalk) : Prop where
  known : ∀ d ∈ w.known, d ∈ s.linked
  nodup : w.visited.Nodup
  visited : ∀ d ∈ w.visited, d ∈ s.linked
  unfinished : w.finished = false → ∃ d passed ahead, w.At s d passed ahead
  finished : w.finished = true → ∀ d ∈ w.known, d ∈ w.visited

structure ChainInv (domainOf : WorkerId → DomainId) (s : DomainChain) : Prop where
  facts : ChainFacts s
  ring : ∃ first nodes, IsRing s.next first nodes ∧ ∀ d, d ∈ nodes ↔ d ∈ s.linked
  inserting : ∀ p n, s.inserting p = some n →
    domainOf p ∈ s.linked ∧ s.next n = s.next (domainOf p)
  alone : ∀ p q n m, s.inserting p = some n → s.inserting q = some m →
    domainOf p = domainOf q → p = q
  walks : ∀ i w, s.walks i = some w → w.Inv s

section Invariant

variable {domainOf : WorkerId → DomainId} {s s' : DomainChain} {w : DomainWalk} {p : WorkerId}
  {n d : DomainId} {passed ahead : List DomainId}

/-! ### The first assignment -/

private theorem DomainWalk.At.of_next (place : w.At s d passed ahead) (same : s'.linked = s.linked)
    (kept : ∀ x ∈ s.linked, s'.next x = s.next x) : w.At s' d passed ahead where
  here := place.here
  ring := place.ring.congr fun x member => kept x ((place.all x).mp member)
  all x := by rw [same]; exact place.all x
  visited := place.visited
  covers := place.covers

private theorem DomainWalk.Inv.of_next (inv : w.Inv s) (same : s'.linked = s.linked)
    (kept : ∀ x ∈ s.linked, s'.next x = s.next x) : w.Inv s' where
  known x member := same ▸ inv.known x member
  nodup := inv.nodup
  visited x member := same ▸ inv.visited x member
  unfinished running := by
    obtain ⟨d, passed, ahead, place⟩ := inv.unfinished running
    exact ⟨d, passed, ahead, place.of_next same kept⟩
  finished := inv.finished

private theorem ChainInv.copy (inv : ChainInv domainOf s) (on : domainOf p ∈ s.linked)
    (fresh : s.next n = none) (alone : ∀ q, domainOf q = domainOf p → s.inserting q = none) :
    ChainInv domainOf { s with
      next := Function.update s.next n (s.next (domainOf p))
      inserting := Function.update s.inserting p (some n) } := by
  have kept : ∀ x ∈ s.linked, Function.update s.next n (s.next (domainOf p)) x = s.next x := by
    intro x member
    apply Function.update_of_ne
    rintro rfl
    exact inv.facts.used x member fresh
  constructor
  case facts => exact inv.facts.copy on fresh
  case ring =>
    obtain ⟨first, nodes, ring, all⟩ := inv.ring
    exact ⟨first, nodes, ring.congr fun x member => kept x ((all x).mp member), all⟩
  case inserting =>
    intro q m inserting
    rcases Update.eq_cases inserting with ⟨rfl, new⟩ | ⟨_, before⟩
    · obtain rfl := Option.some.inj new
      exact ⟨on, (Function.update_self ..).trans (kept _ on).symm⟩
    · obtain ⟨member, copied⟩ := inv.inserting q m before
      have other : m ≠ n := fun same => (inv.facts.inserting q m before).2 (same ▸ fresh)
      exact ⟨member, ((Function.update_of_ne other _ _).trans copied).trans (kept _ member).symm⟩
  case alone =>
    intro q r m k first second both
    rcases Update.eq_cases first with ⟨here, _⟩ | ⟨_, before⟩
    · rcases Update.eq_cases second with ⟨also, _⟩ | ⟨_, before⟩
      · exact here.trans also.symm
      · simp [alone r (both.symm.trans (congrArg domainOf here))] at before
    · rcases Update.eq_cases second with ⟨here, _⟩ | ⟨_, also⟩
      · simp [alone q (both.trans (congrArg domainOf here))] at before
      · exact inv.alone q r m k before also both
  case walks =>
    intro i w walks
    exact (inv.walks i w walks).of_next rfl kept

/-! ### The second assignment -/

theorem DomainWalk.At.link {a : DomainId} (place : w.At s d passed ahead) (on : a ∈ s.linked)
    (out : n ∉ s.linked) (copied : s.next n = s.next a) (known : ∀ x ∈ w.known, x ∈ s.linked)
    (next : s'.next = Function.update s.next a (some n)) (linked : s'.linked = n :: s.linked) :
    ∃ passed' ahead', w.At s' d passed' ahead' := by
  have member : a ∈ passed ++ d :: ahead := (place.all a).mpr on
  have fresh : n ∉ passed ++ d :: ahead := fun inside => out ((place.all n).mp inside)
  have ring := place.ring.insert member fresh copied
  have all : ∀ x, x ∈ insertAfter a n (passed ++ d :: ahead) ↔ x ∈ s'.linked := by
    intro x
    rw [mem_insertAfter member, linked, List.mem_cons, place.all]
  rw [← next] at ring
  by_cases behind : a ∈ passed
  · rw [insertAfter_append_of_mem behind] at ring all
    refine ⟨_, _, place.here, ring, all, place.visited.trans insertAfter_sublist, ?_⟩
    intro x listed inside
    rcases (mem_insertAfter behind).mp inside with rfl | before
    · exact absurd (known x listed) out
    · exact place.covers x listed before
  · obtain ⟨rest, front⟩ := insertAfter_cons a n d ahead
    rw [insertAfter_append_of_not_mem behind, front] at ring all
    exact ⟨_, _, place.here, ring, all, place.visited, place.covers⟩

theorem ChainInv.link (inv : ChainInv domainOf s) (inserting : s.inserting p = some n) :
    ChainInv domainOf { s with
      next := Function.update s.next (domainOf p) (some n)
      inserting := Function.update s.inserting p none
      linked := n :: s.linked } := by
  obtain ⟨on, copied⟩ := inv.inserting p n inserting
  have out := (inv.facts.inserting p n inserting).1
  constructor
  case facts => exact inv.facts.link inserting
  case ring =>
    obtain ⟨first, nodes, ring, all⟩ := inv.ring
    have member : domainOf p ∈ nodes := (all _).mpr on
    refine ⟨first, _, ring.insert member (fun inside => out ((all n).mp inside)) copied, ?_⟩
    intro x
    rw [mem_insertAfter member, List.mem_cons, all]
  case inserting =>
    intro q m later
    obtain ⟨other, before⟩ := Update.old_of_ne later (by simp)
    obtain ⟨member, same⟩ := inv.inserting q m before
    have apart : domainOf q ≠ domainOf p := fun both =>
      other (inv.alone q p m n before inserting both)
    have off : m ≠ domainOf p := (ne_of_mem_of_not_mem on (inv.facts.inserting q m before).1).symm
    exact ⟨List.mem_cons_of_mem _ member,
      ((Function.update_of_ne off _ _).trans same).trans (Function.update_of_ne apart _ _).symm⟩
  case alone =>
    intro q r m k first second both
    exact inv.alone q r m k (Update.old_of_ne first (by simp)).2
      (Update.old_of_ne second (by simp)).2 both
  case walks =>
    intro i w walks
    have before := inv.walks i w walks
    constructor
    case known => exact fun x member => List.mem_cons_of_mem _ (before.known x member)
    case nodup => exact before.nodup
    case visited => exact fun x member => List.mem_cons_of_mem _ (before.visited x member)
    case unfinished =>
      intro running
      obtain ⟨d, passed, ahead, place⟩ := before.unfinished running
      exact ⟨d, place.link on out copied before.known rfl rfl⟩
    case finished => exact before.finished

/-! ### The loop of `tc_dump_threads` -/

private theorem ChainInv.walk (inv : ChainInv domainOf s) (i : Nat) (on : w.start ∈ s.linked)
    (walk : w.Inv s) : ChainInv domainOf (s.walk i w) where
  facts := inv.facts.walk i on
  ring := inv.ring
  inserting := inv.inserting
  alone := inv.alone
  walks j v walks := by
    have same : ∀ {v : DomainWalk}, v.Inv s → v.Inv (s.walk i w) := fun before =>
      before.of_next rfl fun _ _ => rfl
    rcases Update.eq_cases walks with ⟨_, new⟩ | ⟨_, before⟩
    · obtain rfl := Option.some.inj new
      exact same walk
    · exact same (inv.walks j v before)

private theorem ChainInv.dump (inv : ChainInv domainOf s) (on : d ∈ s.linked) :
    DomainWalk.Inv s ⟨d, some d, false, [], s.linked⟩ where
  known _ member := member
  nodup := List.nodup_nil
  visited _ member := by cases member
  unfinished _ := by
    obtain ⟨first, nodes, ring, all⟩ := inv.ring
    obtain ⟨others, here, same⟩ := ring.exists_from ((all d).mpr on)
    obtain ⟨rest, rfl⟩ : ∃ rest, others = d :: rest := List.head?_eq_some_iff.mp here.head
    exact ⟨d, [], rest, rfl, here, fun x => (same x).trans (all x), List.Sublist.refl _,
      fun x _ passed => by cases passed⟩
  finished done := by cases done

theorem DomainWalk.Inv.turn (inv : w.Inv s) (running : w.finished = false) (here : w.d = some d) :
    DomainWalk.Inv s { w with
      d := s.next d
      finished := s.next d = some w.start
      visited := w.visited ++ [d] } := by
  obtain ⟨d', passed, ahead, place⟩ := inv.unfinished running
  obtain rfl : d' = d := by simpa [place.here] using here
  have next := place.ring.next_eq
  have out : d' ∉ passed := by
    have nodup := place.ring.nodup
    rw [List.nodup_append] at nodup
    exact fun inside => nodup.2.2 d' inside d' List.mem_cons_self rfl
  have on : d' ∈ s.linked := (place.all d').mp (by simp)
  have covers : ∀ x ∈ w.known, x ∈ passed ++ [d'] → x ∈ w.visited ++ [d'] := by
    intro x listed inside
    rcases List.mem_append.mp inside with before | last
    · exact List.mem_append_left _ (place.covers x listed before)
    · exact List.mem_append_right _ last
  constructor
  case known => exact inv.known
  case nodup =>
    rw [List.nodup_append]
    refine ⟨inv.nodup, by simp, fun x member y last => ?_⟩
    rw [List.mem_singleton.mp last]
    exact ne_of_mem_of_not_mem (place.visited.subset member) out
  case visited =>
    intro x member
    rcases List.mem_append.mp member with before | last
    · exact inv.visited x before
    · rw [List.mem_singleton.mp last]
      exact on
  case unfinished =>
    intro more
    cases ahead with
    | nil => simp [next] at more
    | cons y ahead =>
        refine ⟨y, passed ++ [d'], ahead, by simpa using next, ?_, fun x => ?_, ?_, covers⟩
        · simpa using place.ring
        · simpa using place.all x
        · exact place.visited.append (List.Sublist.refl _)
  case finished =>
    intro done x listed
    apply covers x listed
    cases ahead with
    | nil => exact (place.all x).mpr (inv.known x listed)
    | cons y ahead =>
        -- The first domain comes again only after the last one.
        have start : y = w.start := by simpa [next] using done
        have nodup := place.ring.nodup
        cases passed with
        | nil =>
            have first : d' = w.start := by simpa using place.ring.head
            simp [start, first] at nodup
        | cons z passed =>
            have first : z = w.start := by simpa using place.ring.head
            simp [start, first] at nodup

theorem ChainInv.step {a : ChainAction} (inv : ChainInv domainOf s) (alone : s.Alone domainOf a)
    (stepped : s.step domainOf a = some s') : ChainInv domainOf s' := by
  rcases DomainChain.step_cases stepped with ⟨p, n, rfl, on, _, fresh, rfl⟩ |
    ⟨p, n, _, inserting, rfl⟩ | ⟨i, d, _, on, rfl⟩ | ⟨i, w, d, _, walks, running, here, rfl⟩
  · exact inv.copy on fresh alone
  · exact inv.link inserting
  · exact inv.walk i on (inv.dump on)
  · exact inv.walk i (inv.facts.start i w walks) ((inv.walks i w walks).turn running here)

theorem ChainInv.initial (d : DomainId) : ChainInv domainOf (.initial d) where
  facts := .initial d
  ring := ⟨d, [d], ⟨rfl, by simp [DomainChain.initial, Leads], List.nodup_singleton d⟩,
    fun _ => Iff.rfl⟩
  inserting p n inserting := by cases inserting
  alone p q n m inserting := by cases inserting
  walks i w walks := by cases walks

end Invariant

/-! ## Walks over the ring -/

/-- The runs in which no two calls of `tc_new_domain` by pthreads of one domain overlap there. -/
def ChainReachable (domainOf : WorkerId → DomainId) (d : DomainId) : DomainChain → Prop :=
  Transition.Run (DomainChain.step domainOf) (DomainChain.Alone domainOf) (.initial d)

/-- Insertions that do not overlap in one domain keep the domains on one ring, and a concurrent
`tc_dump_threads` visits no domain twice, meets no end of the chain, and returns only after it
has visited all that were there when it began. -/
theorem dump_threads_visits_all {domainOf : WorkerId → DomainId} {d : DomainId} {s : DomainChain}
    (reached : ChainReachable domainOf d s) :
    (∀ x ∈ s.linked, ∃ nodes, IsRing s.next x nodes ∧ ∀ y, y ∈ nodes ↔ y ∈ s.linked) ∧
    ∀ i w, s.walks i = some w →
      w.visited.Nodup ∧ w.visited.length ≤ s.linked.length ∧
      (w.finished = false → ∃ x ∈ s.linked, w.d = some x ∧ x ∉ w.visited) ∧
      (w.finished = true → w.known ⊆ w.visited) := by
  have inv : ChainInv domainOf s := reached.invariant (ChainInv domainOf) (.initial d)
    fun inv alone stepped => inv.step alone stepped
  constructor
  · intro x on
    obtain ⟨first, nodes, ring, all⟩ := inv.ring
    obtain ⟨others, here, same⟩ := ring.exists_from ((all x).mpr on)
    exact ⟨others, here, fun y => (same y).trans (all y)⟩
  · intro i w walks
    have walk := inv.walks i w walks
    refine ⟨walk.nodup, (walk.nodup.subperm walk.visited).length_le, fun running => ?_,
      fun done x => walk.finished done x⟩
    obtain ⟨x, passed, ahead, place⟩ := walk.unfinished running
    refine ⟨x, (place.all x).mp (by simp), place.here, fun visited => ?_⟩
    have nodup := place.ring.nodup
    rw [List.nodup_append] at nodup
    exact nodup.2.2 x (place.visited.subset visited) x List.mem_cons_self rfl

theorem ChainReachable.of_injective {domainOf : WorkerId → DomainId} {d : DomainId}
    {s : DomainChain} (one : Function.Injective domainOf)
    (run : Transition.Run (DomainChain.step domainOf) Transition.always (.initial d) s) :
    ChainReachable domainOf d s := by
  induction run with
  | refl => exact .refl
  | @next s s' a _ _ stepped ih =>
      refine .next ih ?_ stepped
      cases a with
      | copy p n =>
          intro q same
          simp only [DomainChain.step] at stepped
          split at stepped
          · next ready => exact one same ▸ ready.2.1
          · cases stepped
      | _ => trivial

/-- The workers of the domains 0 and 1 insert the domains 2 and 3 during a walk. -/
def insertionsDuringWalk : List ChainAction :=
  [.copy 0 1, .link 0, .dump 0 0, .copy 0 2, .copy 1 3, .turn 0, .link 0, .link 1, .turn 0, .turn 0]

theorem dump_threads_visits_all_inserted : ∃ s, ChainReachable id 0 s ∧
    s.linked = [3, 2, 1, 0] ∧ ∃ w, s.walks 0 = some w ∧ w.finished = true ∧
      w.visited = [0, 1, 3] ∧ w.known ⊆ w.visited := by
  obtain ⟨s, run, shown⟩ := Transition.exists_run (DomainChain.step id) (.initial 0)
    insertionsDuringWalk
    (fun s => decide (s.linked = [3, 2, 1, 0]) && (s.walks 0).any fun w : DomainWalk =>
      w.finished && decide (w.visited = [0, 1, 3])) (by decide)
  simp only [Bool.and_eq_true, decide_eq_true_eq, Option.any_eq_true] at shown
  obtain ⟨linked, w, walks, done, visited⟩ := shown
  have reached : ChainReachable id 0 s := .of_injective Function.injective_id run
  exact ⟨s, reached, linked, w, walks, done, visited,
    ((dump_threads_visits_all reached).2 0 w walks).2.2.2 done⟩

/-! ## Insertions that overlap -/

/-- Only domain `d` points to domain `n`. -/
structure DomainBehind (d n : DomainId) (s : DomainChain) : Prop where
  linked : n ∈ s.linked
  next : ∀ x, s.next x = some n → x = d

/-- Nothing points to domain `n`, and no call of `tc_dump_threads` from it has come back but
those of `back`. -/
structure DomainLost (n : DomainId) (back : Nat → Option DomainWalk) (s : DomainChain) : Prop where
  linked : n ∈ s.linked
  next : ∀ x, s.next x ≠ some n
  walks : ∀ i w, s.walks i = some w → w.start = n → w.finished = true → back i = some w

section Overlap

variable {domainOf : WorkerId → DomainId} {d n : DomainId} {s s₁ s₂ s₃ s' : DomainChain}
  {a : ChainAction} {p q : WorkerId} {back : Nat → Option DomainWalk}

theorem DomainBehind.step (behind : DomainBehind d n s) (facts : ChainFacts s)
    (none : ∀ p m, a = .copy p m → domainOf p ≠ d) (stepped : s.step domainOf a = some s') :
    DomainBehind d n s' := by
  rcases DomainChain.step_cases stepped with ⟨p, m, copies, _, _, _, rfl⟩ |
    ⟨p, m, _, inserting, rfl⟩ | ⟨i, x, _, _, rfl⟩ | ⟨i, w, x, _, _, _, _, rfl⟩
  · refine ⟨behind.linked, fun x points => ?_⟩
    rcases Update.eq_cases points with ⟨_, copied⟩ | ⟨_, before⟩
    · exact absurd (behind.next _ copied) (none p m copies)
    · exact behind.next x before
  · refine ⟨List.mem_cons_of_mem _ behind.linked, fun x points => ?_⟩
    rcases Update.eq_cases points with ⟨_, new⟩ | ⟨_, before⟩
    · obtain rfl := Option.some.inj new
      exact absurd behind.linked (facts.inserting p m inserting).1
    · exact behind.next x before
  · exact ⟨behind.linked, behind.next⟩
  · exact ⟨behind.linked, behind.next⟩

/-- The second link overwrites the only pointer to the domain. -/
theorem DomainBehind.overwritten (behind : DomainBehind (domainOf p) n s) (facts : ChainFacts s)
    (linked : s.step domainOf (.link p) = some s') : DomainLost n s'.walks s' := by
  obtain ⟨m, inserting, rfl⟩ := Option.map_eq_some_iff.mp linked
  refine ⟨List.mem_cons_of_mem _ behind.linked, fun x points => ?_, fun _ _ walks _ _ => walks⟩
  rcases Update.eq_cases points with ⟨_, new⟩ | ⟨other, before⟩
  · obtain rfl := Option.some.inj new
    exact (facts.inserting p m inserting).1 behind.linked
  · exact other (behind.next x before)

theorem DomainLost.step (lost : DomainLost n back s) (facts : ChainFacts s)
    (stepped : s.step domainOf a = some s') : DomainLost n back s' := by
  rcases DomainChain.step_cases stepped with ⟨p, m, _, on, _, fresh, rfl⟩ |
    ⟨p, m, _, inserting, rfl⟩ | ⟨i, d, _, on, rfl⟩ | ⟨i, w, d, _, walks, _, _, rfl⟩
  · refine ⟨lost.linked, fun x points => ?_, lost.walks⟩
    rcases Update.eq_cases points with ⟨_, copied⟩ | ⟨_, before⟩
    · exact lost.next _ copied
    · exact lost.next _ before
  · refine ⟨List.mem_cons_of_mem _ lost.linked, fun x points => ?_, lost.walks⟩
    rcases Update.eq_cases points with ⟨_, new⟩ | ⟨_, before⟩
    · obtain rfl := Option.some.inj new
      exact (facts.inserting p m inserting).1 lost.linked
    · exact lost.next _ before
  · refine ⟨lost.linked, lost.next, fun j v later start done => ?_⟩
    rcases Update.eq_cases later with ⟨_, new⟩ | ⟨_, before⟩
    · obtain rfl := Option.some.inj new
      cases done
    · exact lost.walks j v before start done
  · refine ⟨lost.linked, lost.next, fun j v later start done => ?_⟩
    rcases Update.eq_cases later with ⟨_, new⟩ | ⟨_, before⟩
    · obtain rfl := Option.some.inj new
      exact absurd (start ▸ of_decide_eq_true done) (lost.next d)
    · exact lost.walks j v before start done

/-- Two pthreads of one domain that are between the two assignments of `SLIST_INSERT_AFTER` at
the same time lose the domain `n` that is linked first, unless the pointer to it is copied before
the second link: no domain ever points to it again, and no call of `tc_dump_threads` comes back
there after that. -/
theorem overlapping_insertions_lose_domain {start : DomainId}
    (reached : Transition.Run (DomainChain.step domainOf) Transition.always (.initial start) s)
    (same : domainOf p = domainOf q) (first : s.inserting p = some n)
    (linked : s.step domainOf (.link p) = some s₁)
    (between : Transition.Run (DomainChain.step domainOf)
      (fun _ a => ∀ r m, a = .copy r m → domainOf r ≠ domainOf p) s₁ s₂)
    (overwritten : s₂.step domainOf (.link q) = some s₃)
    (later : Transition.Run (DomainChain.step domainOf) Transition.always s₃ s') :
    n ∈ s'.linked ∧ (∀ x, s'.next x ≠ some n) ∧
      ∀ i w, s'.walks i = some w → w.start = n → w.finished = true → s₃.walks i = some w := by
  have facts : ChainFacts s := reached.invariant ChainFacts (.initial start)
    fun facts _ stepped => facts.step stepped
  have out := (facts.inserting p n first).1
  have facts₁ := facts.step linked
  obtain ⟨n', inserting, rfl⟩ := Option.map_eq_some_iff.mp linked
  obtain rfl : n = n' := Option.some.inj (first.symm.trans inserting)
  have behind : DomainBehind (domainOf p) n s₂ ∧ ChainFacts s₂ := by
    refine between.invariant (fun s => DomainBehind (domainOf p) n s ∧ ChainFacts s)
      ⟨⟨List.mem_cons_self, fun x points => ?_⟩, facts₁⟩ fun both none stepped =>
        ⟨both.1.step both.2 none stepped, both.2.step stepped⟩
    rcases Update.eq_cases points with ⟨here, _⟩ | ⟨_, before⟩
    · exact here
    · exact absurd (facts.target x n before) out
  have lost := later.invariant (fun s => DomainLost n s₃.walks s ∧ ChainFacts s)
    ⟨(same ▸ behind.1).overwritten behind.2 overwritten, behind.2.step overwritten⟩
    fun both _ stepped => ⟨both.1.step both.2 stepped, both.2.step stepped⟩
  exact ⟨lost.1.linked, lost.1.next, lost.1.walks⟩

end Overlap

def overlappingCopies : List ChainAction := [.copy 0 1, .copy 1 2]

def copiesNone (_ : DomainChain) : ChainAction → Bool
  | .copy _ _ => false
  | _ => true

private theorem ne_copy_of_copiesNone {s : DomainChain} {a : ChainAction}
    (kept : copiesNone s a = true) (p : WorkerId) (m : DomainId) : a ≠ .copy p m := by
  rintro rfl
  cases kept

/-- `tc_dump_threads` has begun in domain 1 when that is lost. -/
theorem overlapping_insertions_lose_domain_two : ∃ s,
    Transition.Run (DomainChain.step fun _ => 0) Transition.always (.initial 0) s ∧
    s.linked = [2, 1, 0] ∧ (∀ x, s.next x ≠ some 1) ∧
      ∃ w, s.walks 0 = some w ∧ w.start = 1 ∧ w.visited = [1, 0, 2, 0] ∧ w.finished = false := by
  obtain ⟨s, reached, shown⟩ := Transition.exists_run (DomainChain.step fun _ => 0) (.initial 0)
    overlappingCopies
    (fun s => decide (s.inserting 0 = some 1) &&
      (s.step (fun _ => 0) (.link 0)).any fun s₁ : DomainChain =>
        (Transition.exec (Transition.guarded (DomainChain.step fun _ => 0) copiesNone) s₁
          [.dump 0 1, .turn 0]).any fun s₂ : DomainChain =>
        (s₂.step (fun _ => 0) (.link 1)).any fun s₃ : DomainChain =>
          decide (s₃.walks 0 = some ⟨1, some 0, false, [1], [1, 0]⟩) &&
          (Transition.exec (DomainChain.step fun _ => 0) s₃
            [.turn 0, .turn 0, .turn 0]).any fun s' : DomainChain =>
              decide (s'.linked = [2, 1, 0]) && (s'.walks 0).any fun w : DomainWalk =>
                decide (w.start = 1) && decide (w.visited = [1, 0, 2, 0])) (by decide)
  simp only [Bool.and_eq_true, decide_eq_true_eq, Option.any_eq_true] at shown
  obtain ⟨first, s₁, linked, s₂, passed, s₃, overwritten, walk, s', executed, all, w, walks, start,
    visited⟩ := shown
  have between := (Transition.run_of_exec passed).of_guarded
  have later := Transition.run_of_exec executed
  obtain ⟨_, next, back⟩ := overlapping_insertions_lose_domain reached rfl first linked
    (between.mono fun _ _ kept p m copies => absurd copies (ne_copy_of_copiesNone kept p m))
    overwritten later
  have whole := (((reached.next trivial linked).trans (between.mono fun _ _ _ => trivial)).next
    trivial overwritten).trans later
  refine ⟨s', whole, all, next, w, walks, start, visited, Bool.eq_false_iff.mpr fun done => ?_⟩
  have before := (walk.symm.trans (back 0 w walks start done)).symm
  obtain rfl := Option.some.inj before
  simp at visited

end Libtcr
