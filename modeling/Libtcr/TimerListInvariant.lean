import Libtcr.TimerList

/-! The invariant of `timer_list`: what is on it, in which order, and what the threads know
about it that have locked `timer_lock`. -/

set_option autoImplicit false

namespace Libtcr

def SleepPc.holdsMutex : SleepPc → Bool
  | .decided _ haveLock _ | .leaving _ haveLock | .quit haveLock _ => haveLock
  | .master | .reprogramming _ | .polling | .fdWaiting _ | .expiring | .expire _ _
  | .unlinked _ _ _ | .marked _ _ _ => true
  | _ => false

def SleepPc.locks : SleepPc → Bool
  | .searching _ _ | .reprogram | .expire _ _ | .unlinked _ _ _ | .marked _ _ _ | .removed _ => true
  | _ => false

/-- The timer waiter exists, and the thread has not taken it off the list. -/
def SleepPc.inside : SleepPc → Bool
  | .outside | .removed _ => false
  | _ => true

def SleepPc.isUnlinked : SleepPc → Bool
  | .unlinked _ _ _ => true
  | _ => false

def Slot.owner {Node : Type} : Slot Node → Pointer Node
  | .head => .null
  | .next node => .node node

open HeadedList

/-- The timer waiter of `x` belongs before that of `y`: its deadline is earlier, or it is the
same and `x` was inserted first. -/
def TimerState.Before (s : TimerState) (x y : Tid) : Prop :=
  compareTsTimes (s.absEnd x) (s.absEnd y) < 0 ∨
    compareTsTimes (s.absEnd x) (s.absEnd y) = 0 ∧ s.number x < s.number y

def PcInv (s : TimerState) (xs : List Tid) (t : Tid) : Prop :=
  match s.pc t with
  | .yielding _ | .inserting => s.timers.next t = .mark
  | .searching cur prev => s.timers.next t = .mark ∧
    ∃ ys zs, xs = ys ++ zs ∧ cur = toFirst zs ∧ prev = (lastSlot .head ys).owner ∧
      ∀ y ∈ ys, 0 ≤ compareTsTimes (s.absEnd t) (s.absEnd y)
  | .reprogramming _ => t ∈ xs
  | .expire _ two => two = toFirst xs
  | .unlinked _ two two2 => two ∉ xs ∧ two2 = toFirst xs
  | .marked _ _ two2 => two2 = toFirst xs
  | _ => True

/-- `timer_list` holds the timer waiters `xs`. -/
structure TimerInv (s : TimerState) (xs : List Tid) : Prop where
  valid : s.timers.Represents xs
  sorted : xs.Pairwise s.Before
  numbered : ∀ t ∈ xs, s.number t < s.insertions
  member : ∀ t, t ∈ xs ↔ (s.pc t).inside = true ∧ s.timers.next t ≠ .mark ∧
    ∀ u ts two2, s.pc u ≠ .unlinked ts t two2
  lock : ∀ t, s.timerLock = some t ↔ (s.pc t).locks = true
  pc : ∀ t, PcInv s xs t
  sound : s.crashed = false

/-! ## Times -/

section Times

variable {a b c : Timespec}

theorem compareTsTimes_neg : compareTsTimes a b < 0 ↔
    a.sec < b.sec ∨ a.sec = b.sec ∧ a.nsec < b.nsec := by
  unfold compareTsTimes
  split_ifs <;> omega

private theorem compareTsTimes_eq_zero :
    compareTsTimes a b = 0 ↔ a.sec = b.sec ∧ a.nsec = b.nsec := by
  unfold compareTsTimes
  split_ifs <;> simp <;> omega

theorem compareTsTimes_nonneg : 0 ≤ compareTsTimes a b ↔ ¬ compareTsTimes a b < 0 := not_lt.symm

private theorem compareTsTimes_swap (after : 0 ≤ compareTsTimes a b) :
    compareTsTimes b a < 0 ∨ compareTsTimes b a = 0 := by
  rw [compareTsTimes_nonneg, compareTsTimes_neg] at after
  rw [compareTsTimes_neg, compareTsTimes_eq_zero]
  omega

theorem compareTsTimes_trans (first : compareTsTimes a b < 0)
    (second : compareTsTimes b c < 0 ∨ compareTsTimes b c = 0) : compareTsTimes a c < 0 := by
  rw [compareTsTimes_neg] at first ⊢
  rw [compareTsTimes_neg, compareTsTimes_eq_zero] at second
  omega

end Times

/-! ## Steps that leave the list alone -/

section Steps

variable {s s' : TimerState} {xs : List Tid} {t : Tid}

theorem TimerInv.system (inv : TimerInv s xs) (sys : State) : TimerInv { s with sys := sys } xs :=
  { inv with }

private theorem TimerInv.locked_alone (inv : TimerInv s xs) (mine : (s.pc t).locks = true) {u : Tid}
    (other : u ≠ t) : (s.pc u).locks = false := by
  by_contra locks
  have first := (inv.lock t).mpr mine
  have second := (inv.lock u).mpr (by simpa using locks)
  exact other (Option.some.inj (second.symm.trans first))

private theorem TimerInv.lock_goes {next : SleepPc} (inv : TimerInv s xs)
    (pc : s'.pc = Function.update s.pc t next) (mine : s'.timerLock = some t ↔ next.locks = true)
    (others : ∀ u, u ≠ t → (s'.timerLock = some u ↔ s.timerLock = some u)) (u : Tid) :
    s'.timerLock = some u ↔ (s'.pc u).locks = true := by
  rw [pc]
  apply (Function.forall_update_iff s.pc fun u pc => s'.timerLock = some u ↔ pc.locks = true).mpr
  exact ⟨mine, fun v other => (others v other).trans (inv.lock v)⟩

private theorem TimerInv.lock_stays {before next : SleepPc} (inv : TimerInv s xs)
    (at_ : s.pc t = before) (pc : s'.pc = Function.update s.pc t next)
    (lock : s'.timerLock = s.timerLock) (locks : next.locks = before.locks) (u : Tid) :
    s'.timerLock = some u ↔ (s'.pc u).locks = true := by
  refine inv.lock_goes pc ?_ (fun v _ => by rw [lock]) u
  rw [lock, locks, ← at_]
  exact inv.lock t

theorem TimerInv.none_unlinked (inv : TimerInv s xs)
    (settled : s.timerLock = none ∨ (s.pc t).locks = true ∧ (s.pc t).isUnlinked = false)
    (u : Tid) (ts : Timespec) (y : Tid) (two2 : Pointer Tid) : s.pc u ≠ .unlinked ts y two2 := by
  intro equal
  have mine : s.timerLock = some u := (inv.lock u).mpr (by simp [equal, SleepPc.locks])
  rcases settled with free | ⟨locks, linked⟩
  · simp [free] at mine
  · obtain rfl : u = t := Option.some.inj (mine.symm.trans ((inv.lock t).mpr locks))
    simp [equal, SleepPc.isUnlinked] at linked

private theorem none_unlinked_goes {next : SleepPc} (links : next.isUnlinked = false)
    (others : ∀ u, u ≠ t → ∀ ts y two2, s.pc u ≠ .unlinked ts y two2) (u : Tid) (ts : Timespec)
    (y : Tid) (two2 : Pointer Tid) : Function.update s.pc t next u ≠ .unlinked ts y two2 := by
  by_cases same : u = t
  · rw [same, Function.update_self]
    rintro rfl
    cases links
  · rw [Function.update_of_ne same]
    exact others u same ts y two2

theorem PcInv.congr {u : Tid} (known : PcInv s xs u) (pc : s'.pc u = s.pc u)
    (next : s'.timers.next u = s.timers.next u)
    (absEnd : ∀ y, y = u ∨ y ∈ xs → s'.absEnd y = s.absEnd y) : PcInv s' xs u := by
  unfold PcInv at *
  rw [pc, next]
  cases at_ : s.pc u with
  | searching cur prev =>
      simp only [at_] at known
      obtain ⟨mark, ys, zs, rfl, here, last, passed⟩ := known
      refine ⟨mark, ys, zs, rfl, here, last, fun y member => ?_⟩
      rw [absEnd u (.inl rfl), absEnd y (.inr (List.mem_append_left _ member))]
      exact passed y member
  | _ =>
      simp only [at_] at known
      exact known

structure Advance (s s' : TimerState) (t : Tid) (next : SleepPc) : Prop where
  pc : s'.pc = Function.update s.pc t next
  timers : s'.timers = s.timers
  absEnd : s'.absEnd = s.absEnd
  number : s'.number = s.number
  insertions : s'.insertions = s.insertions
  crashed : s'.crashed = s.crashed
  lock : s'.timerLock = some t ↔ next.locks = true
  others : ∀ u, u ≠ t → (s'.timerLock = some u ↔ s.timerLock = some u)

theorem TimerInv.advance {next : SleepPc} (inv : TimerInv s xs) (goes : Advance s s' t next)
    (inside : next.inside = (s.pc t).inside ∨ s.timers.next t = .mark)
    (linked : (s.pc t).isUnlinked = false) (links : next.isUnlinked = false) (mine : PcInv s' xs t) : TimerInv s' xs where
  valid := goes.timers ▸ inv.valid
  sorted := by
    have same : s'.Before = s.Before := by
      unfold TimerState.Before
      rw [goes.absEnd, goes.number]
    exact same ▸ inv.sorted
  numbered u member := by
    rw [goes.number, goes.insertions]
    exact inv.numbered u member
  member u := by
    rw [inv.member, goes.timers, goes.pc]
    have unlinked : (∀ v ts two2, s.pc v ≠ .unlinked ts u two2) ↔
        ∀ v ts two2, Function.update s.pc t next v ≠ .unlinked ts u two2 := by
      refine forall_congr' fun v => ?_
      by_cases same : v = t
      · subst same
        refine forall_congr' fun ts => forall_congr' fun two2 => ?_
        rw [Function.update_self]
        constructor
        · rintro _ rfl
          cases links
        · intro _ equal
          simp [equal, SleepPc.isUnlinked] at linked
      · simp [same]
    rw [unlinked]
    by_cases same : u = t
    · subst same
      rcases inside with equal | mark
      · simp [equal]
      · simp [mark]
    · simp [same]
  lock := inv.lock_goes goes.pc goes.lock goes.others
  pc u := by
    by_cases same : u = t
    · exact same ▸ mine
    · exact (inv.pc u).congr (by simp [goes.pc, same]) (by rw [goes.timers])
        fun y _ => by rw [goes.absEnd]
  sound := goes.crashed.trans inv.sound

end Steps

/-! ## Steps that change the list -/

section Changes

variable {s s' : TimerState} {xs ys zs : List Tid} {t x : Tid}

/-- Whoever has locked `timer_lock` is the only one to know where it is in the list. -/
theorem PcInv.others {u : Tid} (known : PcInv s xs u) (unlocked : (s.pc u).locks = false)
    (pc : s'.pc u = s.pc u) (mark : s.timers.next u = .mark → s'.timers.next u = .mark)
    (stays : ∀ ts, s.pc u = .reprogramming ts → u ∈ xs → u ∈ ys) : PcInv s' ys u := by
  unfold PcInv at *
  rw [pc]
  cases at_ : s.pc u with
  | yielding e =>
      simp only [at_] at known
      exact mark known
  | inserting =>
      simp only [at_] at known
      exact mark known
  | reprogramming ts =>
      simp only [at_] at known
      exact stays ts at_ known
  | searching cur prev => simp [at_, SleepPc.locks] at unlocked
  | expire ts two => simp [at_, SleepPc.locks] at unlocked
  | unlinked ts two two2 => simp [at_, SleepPc.locks] at unlocked
  | marked ts two two2 => simp [at_, SleepPc.locks] at unlocked
  | _ => trivial

private theorem sorted_insert (inv : TimerInv s (ys ++ zs)) (fresh : t ∉ ys ++ zs)
    (absEnd : s'.absEnd = s.absEnd) (number : s'.number = Function.update s.number t s.insertions)
    (before : ∀ y ∈ ys, 0 ≤ compareTsTimes (s.absEnd t) (s.absEnd y))
    (after : ∀ z ∈ zs, compareTsTimes (s.absEnd t) (s.absEnd z) < 0) :
    (ys ++ t :: zs).Pairwise s'.Before := by
  have same : ∀ {a b}, a ∈ ys ++ zs → b ∈ ys ++ zs → s.Before a b → s'.Before a b := by
    intro a b first second held
    have apart : a ≠ t ∧ b ≠ t := by
      refine ⟨?_, ?_⟩
      · rintro rfl
        exact fresh first
      · rintro rfl
        exact fresh second
    simpa [TimerState.Before, absEnd, number, apart.1, apart.2] using held
  have sorted := List.pairwise_append.mp inv.sorted
  refine List.pairwise_append.mpr ⟨?_, List.pairwise_cons.mpr ⟨?_, ?_⟩, ?_⟩
  · exact sorted.1.imp_of_mem fun first second held =>
      same (List.mem_append_left _ first) (List.mem_append_left _ second) held
  · intro z member
    rw [TimerState.Before, absEnd]
    exact .inl (after z member)
  · exact sorted.2.1.imp_of_mem fun first second held =>
      same (List.mem_append_right _ first) (List.mem_append_right _ second) held
  · intro y first z second
    rcases List.mem_cons.mp second with rfl | second
    · have apart : y ≠ z := by
        rintro rfl
        exact fresh (List.mem_append_left _ first)
      rw [TimerState.Before, absEnd, number, Function.update_self, Function.update_of_ne apart]
      refine (compareTsTimes_swap (before y first)).imp_right fun equal => ⟨equal, ?_⟩
      exact inv.numbered y (List.mem_append_left _ first)
    · exact same (List.mem_append_left _ first) (List.mem_append_right _ second)
        (sorted.2.2 y first z second)

theorem TimerInv.insert {cur prev : Pointer Tid} (inv : TimerInv s (ys ++ zs))
    (searching : s.pc t = .searching cur prev)
    (before : ∀ y ∈ ys, 0 ≤ compareTsTimes (s.absEnd t) (s.absEnd y))
    (after : ∀ z ∈ zs, compareTsTimes (s.absEnd t) (s.absEnd z) < 0) :
    TimerInv (s.insert t (s.timers.insertAt (lastSlot .head ys) t)) (ys ++ t :: zs) := by
  have known := inv.pc t
  simp only [PcInv, searching] at known
  have fresh : t ∉ ys ++ zs := fun member => ((inv.member t).mp member).2.1 known.1
  have mark : ∀ u, u ≠ t → ((s.timers.insertAt (lastSlot .head ys) t).next u = .mark ↔
      s.timers.next u = .mark) := fun u other => inv.valid.insertAt_mark other
  have own : (s.timers.insertAt (lastSlot .head ys) t).next t ≠ .mark :=
    (inv.valid.insertAt fresh).next_ne_mark (by simp)
  have linked := inv.none_unlinked
    (.inr (by simp [searching, SleepPc.locks, SleepPc.isUnlinked] : _ ∧ (s.pc t).isUnlinked = false))
  have unlinked : ∀ u ts y two2, (s.insert t (s.timers.insertAt (lastSlot .head ys) t)).pc u ≠
      .unlinked ts y two2 := none_unlinked_goes rfl fun u _ => linked u
  exact {
    valid := inv.valid.insertAt fresh
    sorted := sorted_insert inv fresh rfl rfl before after
    numbered := fun u member => by
      by_cases same : u = t
      · simp [TimerState.insert, same]
      · have older := inv.numbered u (by simpa [same] using member)
        simpa [TimerState.insert, same] using Nat.lt_succ_of_lt older
    member := fun u => by
      simp only [ne_eq, unlinked, not_false_eq_true, implies_true, and_true]
      by_cases same : u = t
      · simp [TimerState.insert, TimerState.setPc, same, SleepPc.inside, own]
      · have before := inv.member u
        simp only [ne_eq, linked, not_false_eq_true, implies_true, and_true] at before
        simpa [TimerState.insert, TimerState.setPc, same, mark u same] using before
    lock := inv.lock_stays searching rfl rfl rfl
    pc := fun u => by
      by_cases same : u = t
      · simp [PcInv, TimerState.insert, TimerState.setPc, same]
      · refine (inv.pc u).others (inv.locked_alone (by simp [searching, SleepPc.locks]) same) ?_ ?_ ?_
        · simp [TimerState.insert, TimerState.setPc, same]
        · exact (mark u same).mpr
        · intro _ _ member
          simpa [same] using member
    sound := inv.sound }

theorem TimerInv.unlink {ts : Timespec} {two2 : Pointer Tid} (inv : TimerInv s (x :: xs))
    (expire : s.pc t = .expire ts (.node x))
    (alone : ∀ u ts, s.pc u ≠ .reprogramming ts) (next : two2 = toFirst xs) :
    TimerInv { s.setPc t (.unlinked ts x two2) with timers := s.timers.remove x } xs := by
  have linked := inv.none_unlinked
    (.inr (by simp [expire, SleepPc.locks, SleepPc.isUnlinked] : _ ∧ (s.pc t).isUnlinked = false))
  have valid : s.timers.Represents ([] ++ x :: xs) := inv.valid
  have mark : ∀ u, (s.timers.remove x).next u = .mark ↔ s.timers.next u = .mark := valid.remove_mark
  have fresh : x ∉ xs := (List.nodup_cons.mp inv.valid.nodup).1
  exact {
    valid := valid.remove
    sorted := (List.pairwise_cons.mp inv.sorted).2
    numbered := fun u member => inv.numbered u (.tail _ member)
    member := fun u => by
      have before := inv.member u
      simp only [ne_eq, linked, not_false_eq_true, implies_true, and_true] at before
      have inside : (Function.update s.pc t (.unlinked ts x two2) u).inside = (s.pc u).inside := by
        by_cases same : u = t
        · simp [same, expire, SleepPc.inside]
        · simp [same]
      simp only [TimerState.setPc, inside, ne_eq, mark u]
      by_cases same : u = x
      · subst same
        refine iff_of_false fresh fun unlinked => ?_
        exact unlinked.2.2 t ts two2 (by simp)
      · have none : ∀ v ts' y, Function.update s.pc t (.unlinked ts x two2) v ≠ .unlinked ts' u y := by
          intro v ts' y
          by_cases own : v = t
          · simp [own, Ne.symm same]
          · simpa [own] using linked v ts' u y
        simpa [none, same] using before
    lock := inv.lock_stays expire rfl rfl rfl
    pc := fun u => by
      by_cases same : u = t
      · simp [PcInv, TimerState.setPc, same, fresh, next]
      · refine (inv.pc u).others (inv.locked_alone (by simp [expire, SleepPc.locks]) same) ?_
          (mark u).mpr fun ts at_ => absurd at_ (alone u ts)
        simp [TimerState.setPc, same]
    sound := inv.sound }

theorem TimerInv.mark {ts : Timespec} {two2 : Pointer Tid} (inv : TimerInv s xs)
    (unlinked : s.pc t = .unlinked ts x two2) :
    TimerInv { s.setPc t (.marked ts x two2) with timers := s.timers.store (.next x) .mark } xs := by
  have known := inv.pc t
  simp only [PcInv, unlinked] at known
  have locks : (s.pc t).locks = true := by simp [unlinked, SleepPc.locks]
  have others : ∀ u, u ≠ t → ∀ ts y two2, s.pc u ≠ .unlinked ts y two2 := by
    intro u other ts y two2 equal
    have free := inv.locked_alone locks other
    simp [equal, SleepPc.locks] at free
  have linked : ∀ u ts' y two2', Function.update s.pc t (.marked ts x two2) u ≠
      .unlinked ts' y two2' := none_unlinked_goes rfl others
  exact {
    valid := inv.valid.store known.1 .mark
    sorted := inv.sorted
    numbered := inv.numbered
    member := fun u => by
      simp only [TimerState.setPc, ne_eq, linked, not_false_eq_true, implies_true, and_true]
      by_cases same : u = x
      · simp [same, known.1, HeadedList.store]
      · have none : ∀ v ts y, s.pc v ≠ .unlinked ts u y := by
          intro v ts' y
          by_cases own : v = t
          · simp [own, unlinked, Ne.symm same]
          · exact others v own ts' u y
        have before := inv.member u
        simp only [ne_eq, none, not_false_eq_true, implies_true, and_true] at before
        by_cases own : u = t
        · simpa [own, unlinked, SleepPc.inside, HeadedList.store, own ▸ same] using before
        · simpa [own, HeadedList.store, same] using before
    lock := inv.lock_stays unlinked rfl rfl rfl
    pc := fun u => by
      by_cases same : u = t
      · simp [PcInv, TimerState.setPc, same, known.2]
      · refine (inv.pc u).others (inv.locked_alone locks same) ?_ ?_ fun _ _ member => member
        · simp [TimerState.setPc, same]
        · intro mark
          by_cases own : u = x
          · simp [HeadedList.store, own]
          · simpa [HeadedList.store, own] using mark
    sound := inv.sound }

/-- A thread takes its own timer waiter off the list, unless the master has done so. -/
theorem TimerInv.removeOwn {rv : Rv} (inv : TimerInv s xs) (removing : s.pc t = .removing rv)
    (free : s.timerLock = none) :
    ∃ ys, TimerInv { s.setPc t (.removed rv) with
      timerLock := some t
      timers := if s.timers.next t = .mark then s.timers else s.timers.remove t } ys := by
  have linked := inv.none_unlinked (t := t) (.inl free)
  have unlocked : ∀ u, (s.pc u).locks = false := by
    intro u
    have lock := inv.lock u
    simpa [free] using lock
  by_cases mark : s.timers.next t = .mark
  · have goes : Advance s { s.setPc t (.removed rv) with
        timerLock := some t
        timers := if s.timers.next t = .mark then s.timers else s.timers.remove t } t (.removed rv) := by
      refine ⟨rfl, by simp [mark], rfl, rfl, rfl, rfl, ?_, ?_⟩
      · simp [SleepPc.locks]
      · intro u other
        simp [free, Ne.symm other]
    refine ⟨xs, inv.advance goes (.inr mark) (by simp [removing, SleepPc.isUnlinked]) rfl ?_⟩
    simp [PcInv, TimerState.setPc]
  · have member : t ∈ xs := (inv.member t).mpr
      ⟨by simp [removing, SleepPc.inside], mark, fun u ts => linked u ts t⟩
    obtain ⟨ys, zs, rfl⟩ := List.append_of_mem member
    have marks : ∀ u, (s.timers.remove t).next u = .mark ↔ s.timers.next u = .mark :=
      inv.valid.remove_mark
    have fresh : t ∉ ys ++ zs :=
      (List.nodup_cons.mp ((List.perm_middle.nodup_iff).mp inv.valid.nodup)).1
    refine ⟨ys ++ zs, ?_⟩
    simp only [mark, if_false]
    exact {
      valid := inv.valid.remove
      sorted := inv.sorted.sublist (List.Sublist.append_left (List.sublist_cons_self t zs) ys)
      numbered := fun u member => inv.numbered u (by
        rcases List.mem_append.mp member with left | right
        · exact List.mem_append_left _ left
        · exact List.mem_append_right _ (.tail _ right))
      member := fun u => by
        have after : ∀ v ts y, Function.update s.pc t (.removed rv) v ≠ .unlinked ts u y :=
          fun v ts => none_unlinked_goes rfl (fun v _ => linked v) v ts u
        simp only [TimerState.setPc, ne_eq, after, not_false_eq_true, implies_true, and_true, marks]
        by_cases same : u = t
        · subst same
          simp only [fresh, Function.update_self, SleepPc.inside, Bool.false_eq_true, false_and]
        · have before := inv.member u
          simp only [ne_eq, linked, not_false_eq_true, implies_true, and_true] at before
          simpa [same] using before
      lock := inv.lock_goes rfl (by simp [SleepPc.locks]) fun u other => by simp [free, Ne.symm other]
      pc := fun u => by
        by_cases same : u = t
        · simp [PcInv, TimerState.setPc, same]
        · refine (inv.pc u).others (unlocked u) (by simp [TimerState.setPc, same]) (marks u).mpr ?_
          intro _ _ member
          simpa [same] using member
      sound := inv.sound }

theorem TimerInv.begin {e : EventId} {absEnd : Timespec} (inv : TimerInv s xs)
    (outside : s.pc t = .outside) (sys : State) :
    TimerInv { { s with sys := sys }.setPc t (.yielding e) with
      absEnd := Function.update s.absEnd t absEnd
      timers := s.timers.store (.next t) .mark } xs := by
  have fresh : t ∉ xs := fun member => by
    have inside := ((inv.member t).mp member).1
    simp [outside, SleepPc.inside] at inside
  have others : ∀ {y}, y ∈ xs → y ≠ t := by
    rintro y member rfl
    exact fresh member
  exact {
    valid := inv.valid.store fresh .mark
    sorted := inv.sorted.imp_of_mem fun first second before => by
      simpa [TimerState.Before, TimerState.setPc, others first, others second] using before
    numbered := inv.numbered
    member := fun u => by
      have unlinked : (∀ v ts y, Function.update s.pc t (.yielding e) v ≠ .unlinked ts u y) ↔
          ∀ v ts y, s.pc v ≠ .unlinked ts u y := by
        refine forall_congr' fun v => ?_
        by_cases own : v = t
        · simp [own, outside]
        · simp [own]
      simp only [TimerState.setPc, unlinked]
      by_cases same : u = t
      · simp [same, fresh, HeadedList.store]
      · simpa [same, HeadedList.store] using inv.member u
    lock := inv.lock_stays outside rfl rfl rfl
    pc := fun u => by
      by_cases same : u = t
      · simp [PcInv, TimerState.setPc, same, HeadedList.store]
      · refine (inv.pc u).congr (by simp [TimerState.setPc, same]) (by simp [HeadedList.store, same]) ?_
        rintro y (rfl | member)
        · simp [same]
        · simp [others member]
    sound := inv.sound }

end Changes

end Libtcr
