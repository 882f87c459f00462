import Mathlib.Data.Set.Card
import Mathlib.Logic.Function.Basic
import Mathlib.Data.List.Nodup

/-! Intrusive lists: a family of lists indexed by keys, and in every item a back
pointer to the list that contains it. The operations keep both in step, so an
item is on at most one list and at most once on it. -/

set_option autoImplicit false

namespace Libtcr

structure IntrusiveLists (Item Key : Type) where
  /-- The back pointer: the list the item is on. -/
  el : Item → Option Key
  elems : Key → List Item

namespace IntrusiveLists

variable {Item Key : Type} [DecidableEq Item] [DecidableEq Key]

def empty : IntrusiveLists Item Key := ⟨fun _ => none, fun _ => []⟩

def remove (lists : IntrusiveLists Item Key) (item : Item) : IntrusiveLists Item Key where
  el := Function.update lists.el item none
  elems := match lists.el item with
    | none => lists.elems
    | some key => Function.update lists.elems key ((lists.elems key).erase item)

def pushBack (lists : IntrusiveLists Item Key) (item : Item) (key : Key) :
    IntrusiveLists Item Key where
  el := Function.update lists.el item (some key)
  elems := Function.update lists.elems key (lists.elems key ++ [item])

def pushFront (lists : IntrusiveLists Item Key) (item : Item) (key : Key) :
    IntrusiveLists Item Key where
  el := Function.update lists.el item (some key)
  elems := Function.update lists.elems key (item :: lists.elems key)

@[simp] theorem remove_el (lists : IntrusiveLists Item Key) (item : Item) :
    (lists.remove item).el = Function.update lists.el item none := rfl

@[simp] theorem pushBack_el (lists : IntrusiveLists Item Key) (item : Item) (key : Key) :
    (lists.pushBack item key).el = Function.update lists.el item (some key) := rfl

@[simp] theorem pushFront_el (lists : IntrusiveLists Item Key) (item : Item) (key : Key) :
    (lists.pushFront item key).el = Function.update lists.el item (some key) := rfl

theorem remove_of_free {lists : IntrusiveLists Item Key} {item : Item}
    (free : lists.el item = none) : lists.remove item = lists := by
  obtain ⟨el, elems⟩ := lists
  simp only at free
  unfold remove
  simp only [free, IntrusiveLists.mk.injEq, and_true]
  rw [← free, Function.update_eq_self]

theorem remove_elems_of_el {lists : IntrusiveLists Item Key} {item : Item} {key : Key}
    (placed : lists.el item = some key) :
    (lists.remove item).elems =
      Function.update lists.elems key ((lists.elems key).erase item) := by
  simp [remove, placed]

theorem remove_elems_of_ne {lists : IntrusiveLists Item Key} {item : Item} {key : Key}
    (elsewhere : lists.el item ≠ some key) :
    (lists.remove item).elems key = lists.elems key := by
  cases placed : lists.el item with
  | none => simp [remove, placed]
  | some other =>
      have different : key ≠ other := by
        rintro rfl
        exact elsewhere placed
      rw [remove_elems_of_el placed, Function.update_of_ne different]

theorem pushBack_elems_self (lists : IntrusiveLists Item Key) (item : Item) (key : Key) :
    (lists.pushBack item key).elems key = lists.elems key ++ [item] := by
  simp [pushBack]

theorem pushBack_elems_of_ne (lists : IntrusiveLists Item Key) (item : Item) {key other : Key}
    (different : other ≠ key) :
    (lists.pushBack item key).elems other = lists.elems other := by
  simp [pushBack, different]

theorem pushFront_elems_self (lists : IntrusiveLists Item Key) (item : Item) (key : Key) :
    (lists.pushFront item key).elems key = item :: lists.elems key := by
  simp [pushFront]

theorem pushFront_elems_of_ne (lists : IntrusiveLists Item Key) (item : Item)
    {key other : Key} (different : other ≠ key) :
    (lists.pushFront item key).elems other = lists.elems other := by
  simp [pushFront, different]

/-- Back pointers and lists agree, no list holds an item twice, and only
finitely many items are on a list. -/
structure WellFormed (lists : IntrusiveLists Item Key) : Prop where
  nodup : ∀ key, (lists.elems key).Nodup
  mem_iff : ∀ key item, item ∈ lists.elems key ↔ lists.el item = some key
  finite : {item | lists.el item ≠ none}.Finite

omit [DecidableEq Item] [DecidableEq Key] in
theorem WellFormed.empty : (IntrusiveLists.empty : IntrusiveLists Item Key).WellFormed :=
  ⟨by simp [IntrusiveLists.empty], by simp [IntrusiveLists.empty],
    by simp [IntrusiveLists.empty]⟩

omit [DecidableEq Key] in
private theorem finite_update {lists : IntrusiveLists Item Key}
    (finite : {item | lists.el item ≠ none}.Finite) (item : Item) (value : Option Key) :
    {other | Function.update lists.el item value other ≠ none}.Finite := by
  apply (finite.insert item).subset
  intro other placed
  by_cases same : other = item
  · exact .inl same
  · exact .inr (by simpa [Function.update_of_ne same] using placed)

theorem WellFormed.remove {lists : IntrusiveLists Item Key} (valid : lists.WellFormed)
    (item : Item) : (lists.remove item).WellFormed := by
  refine ⟨?_, ?_, by simpa using finite_update valid.finite item none⟩
  · intro key
    by_cases placed : lists.el item = some key
    · rw [remove_elems_of_el placed, Function.update_self]
      exact (valid.nodup key).erase item
    · rw [remove_elems_of_ne placed]
      exact valid.nodup key
  · intro key other
    by_cases placed : lists.el item = some key
    · rw [remove_elems_of_el placed, Function.update_self, (valid.nodup key).mem_erase_iff,
        valid.mem_iff]
      by_cases same : other = item <;> simp [same]
    · rw [remove_elems_of_ne placed, valid.mem_iff]
      by_cases same : other = item
      · simp [same, placed]
      · simp [same]

omit [DecidableEq Key] in
private theorem WellFormed.insertAnywhere {lists after : IntrusiveLists Item Key}
    (valid : lists.WellFormed) {item : Item} {key : Key} (free : lists.el item = none)
    (pointer : after.el = Function.update lists.el item (some key))
    (inserted : (after.elems key).Perm (item :: lists.elems key))
    (others : ∀ other, other ≠ key → after.elems other = lists.elems other) :
    after.WellFormed := by
  have absent : ∀ other, item ∉ lists.elems other := by
    intro other member
    simp [(valid.mem_iff other item).mp member] at free
  refine ⟨?_, ?_, by simpa [pointer] using finite_update valid.finite item (some key)⟩
  · intro other
    by_cases same : other = key
    · subst other
      exact inserted.nodup_iff.mpr (List.nodup_cons.mpr ⟨absent key, valid.nodup key⟩)
    · rw [others other same]
      exact valid.nodup other
  · intro other candidate
    by_cases same : other = key
    · subst other
      rw [inserted.mem_iff, List.mem_cons, valid.mem_iff, pointer]
      by_cases equal : candidate = item <;> simp [equal]
    · rw [others other same, valid.mem_iff, pointer]
      by_cases equal : candidate = item
      · simp [equal, free, Ne.symm same]
      · simp [equal]

theorem WellFormed.pushBack {lists : IntrusiveLists Item Key} (valid : lists.WellFormed)
    {item : Item} (free : lists.el item = none) (key : Key) :
    (lists.pushBack item key).WellFormed := by
  refine valid.insertAnywhere free rfl ?_ fun _ different => pushBack_elems_of_ne _ _ different
  rw [pushBack_elems_self]
  exact List.perm_append_singleton item (lists.elems key)

theorem WellFormed.pushFront {lists : IntrusiveLists Item Key} (valid : lists.WellFormed)
    {item : Item} (free : lists.el item = none) (key : Key) :
    (lists.pushFront item key).WellFormed :=
  valid.insertAnywhere free rfl (by rw [pushFront_elems_self])
    fun _ different => pushFront_elems_of_ne _ _ different

theorem WellFormed.length_remove {lists : IntrusiveLists Item Key} (valid : lists.WellFormed)
    {item : Item} {key : Key} (placed : lists.el item = some key) :
    ((lists.remove item).elems key).length + 1 = (lists.elems key).length := by
  have member := (valid.mem_iff key item).mpr placed
  have positive := List.length_pos_of_mem member
  rw [remove_elems_of_el placed, Function.update_self, List.length_erase_of_mem member]
  omega

/-- How many of the items with property `p` are on some list. -/
noncomputable def placed (lists : IntrusiveLists Item Key) (p : Item → Prop) : Nat :=
  {item | lists.el item ≠ none ∧ p item}.ncard

theorem WellFormed.placed_remove {lists : IntrusiveLists Item Key} (valid : lists.WellFormed)
    {item : Item} (on : lists.el item ≠ none) (p : Item → Prop) (own : p item) :
    (lists.remove item).placed p + 1 = lists.placed p := by
  have same : {other | (lists.remove item).el other ≠ none ∧ p other} =
      {other | lists.el other ≠ none ∧ p other} \ {item} := by
    ext other
    by_cases equal : other = item <;> simp [equal]
  unfold placed
  rw [same]
  exact Set.ncard_sdiff_singleton_add_one ⟨on, own⟩
    (valid.finite.subset fun _ member => member.1)

theorem placed_remove_of_not (lists : IntrusiveLists Item Key) {item : Item}
    (p : Item → Prop) (other : ¬ p item) : (lists.remove item).placed p = lists.placed p := by
  unfold placed
  congr 1
  ext candidate
  by_cases equal : candidate = item <;> simp [equal, other]

omit [DecidableEq Key] in
/-- Placing a free item raises the count of the property it has. The property may
change at the item itself, whose value did not count before. -/
theorem WellFormed.placed_insert {lists after : IntrusiveLists Item Key}
    (valid : lists.WellFormed) {item : Item} {key : Key} (free : lists.el item = none)
    (inserted : after.el = Function.update lists.el item (some key)) (p q : Item → Prop)
    (agree : ∀ other, other ≠ item → (q other ↔ p other)) (own : q item) :
    after.placed q = lists.placed p + 1 := by
  have same : {other | after.el other ≠ none ∧ q other} =
      insert item {other | lists.el other ≠ none ∧ p other} := by
    ext other
    by_cases equal : other = item
    · simp [equal, inserted, own]
    · simp [equal, inserted, agree other equal]
  unfold placed
  rw [same, Set.ncard_insert_of_notMem (by simp [free])
    (valid.finite.subset fun _ member => member.1)]

omit [DecidableEq Key] in
theorem placed_insert_of_not {lists after : IntrusiveLists Item Key} {item : Item} {key : Key}
    (free : lists.el item = none)
    (inserted : after.el = Function.update lists.el item (some key)) (p q : Item → Prop)
    (agree : ∀ other, other ≠ item → (q other ↔ p other)) (other : ¬ q item) :
    after.placed q = lists.placed p := by
  unfold placed
  congr 1
  ext candidate
  by_cases equal : candidate = item
  · simp [equal, free, other]
  · simp [equal, inserted, agree candidate equal]

omit [DecidableEq Key] in
theorem placed_move {lists after : IntrusiveLists Item Key} {item : Item} {key : Key}
    (on : lists.el item ≠ none)
    (moved : after.el = Function.update lists.el item (some key)) (p : Item → Prop) :
    after.placed p = lists.placed p := by
  unfold placed
  congr 1
  ext candidate
  by_cases equal : candidate = item
  · simp [equal, moved, on]
  · simp [equal, moved]

/-- `move` takes an item from wherever it is and puts it on the list `key`. -/
structure MovesTo (move : IntrusiveLists Item Key → Item → IntrusiveLists Item Key)
    (key : Key) : Prop where
  wellFormed : ∀ {lists : IntrusiveLists Item Key}, lists.WellFormed → ∀ item,
    (move lists item).WellFormed
  el : ∀ lists item, (move lists item).el = Function.update lists.el item (some key)
  length : ∀ {lists : IntrusiveLists Item Key} {item}, lists.el item ≠ some key →
    ((move lists item).elems key).length = (lists.elems key).length + 1
  sublist : ∀ lists item {other}, other ≠ key →
    ((move lists item).elems other).Sublist (lists.elems other)

theorem remove_sublist (lists : IntrusiveLists Item Key) (item : Item) (key : Key) :
    ((lists.remove item).elems key).Sublist (lists.elems key) := by
  by_cases on : lists.el item = some key
  · rw [remove_elems_of_el on, Function.update_self]
    exact List.erase_sublist
  · rw [remove_elems_of_ne on]

theorem movesTo_back (key : Key) :
    MovesTo (fun lists (item : Item) => (lists.remove item).pushBack item key) key where
  wellFormed valid item := (valid.remove item).pushBack (by simp) key
  el lists item := by simp
  length away := by simp [pushBack_elems_self, remove_elems_of_ne away]
  sublist lists item other different := by
    rw [pushBack_elems_of_ne _ _ different]
    exact remove_sublist lists item other

theorem movesTo_front (key : Key) :
    MovesTo (fun lists (item : Item) => (lists.remove item).pushFront item key) key where
  wellFormed valid item := (valid.remove item).pushFront (by simp) key
  el lists item := by simp
  length away := by simp [pushFront_elems_self, remove_elems_of_ne away]
  sublist lists item other different := by
    rw [pushFront_elems_of_ne _ _ different]
    exact remove_sublist lists item other

section MovesTo

variable {move : IntrusiveLists Item Key → Item → IntrusiveLists Item Key} {key : Key}

omit [DecidableEq Key] in
theorem MovesTo.foldl_wellFormed (moves : MovesTo move key) {lists : IntrusiveLists Item Key}
    (valid : lists.WellFormed) (items : List Item) : (items.foldl move lists).WellFormed := by
  induction items generalizing lists with
  | nil => exact valid
  | cons item items ih => exact ih (moves.wellFormed valid item)

omit [DecidableEq Key] in
theorem MovesTo.foldl_el (moves : MovesTo move key) (lists : IntrusiveLists Item Key)
    (items : List Item) (other : Item) :
    (items.foldl move lists).el other = if other ∈ items then some key else lists.el other := by
  induction items generalizing lists with
  | nil => simp
  | cons item items ih =>
      rw [List.foldl_cons, ih, moves.el]
      by_cases same : other = item
      · simp [same]
      · simp [same]

omit [DecidableEq Key] in
theorem MovesTo.foldl_length (moves : MovesTo move key) {lists : IntrusiveLists Item Key}
    {items : List Item} (nodup : items.Nodup) (away : ∀ item ∈ items, lists.el item ≠ some key) :
    ((items.foldl move lists).elems key).length = (lists.elems key).length + items.length := by
  induction items generalizing lists with
  | nil => simp
  | cons item items ih =>
      obtain ⟨fresh, nodup⟩ := List.nodup_cons.mp nodup
      rw [List.foldl_cons, ih nodup, moves.length (away item (.head _)), List.length_cons]
      · omega
      · intro other member
        have different : other ≠ item := by
          rintro rfl
          exact fresh member
        rw [moves.el, Function.update_of_ne different]
        exact away other (.tail _ member)

omit [DecidableEq Key] in
theorem MovesTo.foldl_placed (moves : MovesTo move key) {lists : IntrusiveLists Item Key}
    {items : List Item} (on : ∀ item ∈ items, lists.el item ≠ none) (p : Item → Prop) :
    (items.foldl move lists).placed p = lists.placed p := by
  unfold placed
  congr 1
  ext other
  rw [Set.mem_ofPred_eq, Set.mem_ofPred_eq, moves.foldl_el]
  by_cases member : other ∈ items
  · simp [member, on other member]
  · simp [member]

omit [DecidableEq Key] in
theorem MovesTo.foldl_sublist (moves : MovesTo move key) (lists : IntrusiveLists Item Key)
    (items : List Item) {other : Key} (different : other ≠ key) :
    ((items.foldl move lists).elems other).Sublist (lists.elems other) := by
  induction items generalizing lists with
  | nil => exact .refl _
  | cons item items ih => exact (ih (move lists item)).trans (moves.sublist lists item different)

end MovesTo

theorem foldl_pushBack_elems {lists : IntrusiveLists Item Key} {items : List Item} {key : Key}
    (nodup : items.Nodup) (away : ∀ item ∈ items, lists.el item ≠ some key) :
    (items.foldl (fun lists item => (lists.remove item).pushBack item key) lists).elems key =
      lists.elems key ++ items := by
  induction items generalizing lists with
  | nil => simp
  | cons item items ih =>
      obtain ⟨fresh, nodup⟩ := List.nodup_cons.mp nodup
      rw [List.foldl_cons, ih nodup, pushBack_elems_self,
        remove_elems_of_ne (away item (.head _))]
      · simp
      · intro other member
        have different : other ≠ item := by
          rintro rfl
          exact fresh member
        simpa [different] using away other (.tail _ member)

end IntrusiveLists

/-! ## First in, first out -/

section Order

variable {Item : Type} {items after : List Item} {first second : Item}

/-- The item `first` is on the list before the item `second`. -/
def Ahead (items : List Item) (first second : Item) : Prop :=
  [first, second].Sublist items

theorem Ahead.first_mem (ahead : Ahead items first second) : first ∈ items :=
  ahead.subset (by simp)

theorem Ahead.second_mem (ahead : Ahead items first second) : second ∈ items :=
  ahead.subset (by simp)

theorem Ahead.append (ahead : Ahead items first second) (more : List Item) :
    Ahead (items ++ more) first second :=
  List.Sublist.trans ahead (List.sublist_append_left items more)

theorem ahead_cons {item : Item} :
    Ahead (item :: items) first second ↔
      Ahead items first second ∨ first = item ∧ second ∈ items := by
  unfold Ahead
  constructor
  · intro sublist
    cases sublist with
    | cons _ tail => exact .inl tail
    | cons_cons _ tail => exact .inr ⟨rfl, List.singleton_sublist.mp tail⟩
  · rintro (tail | ⟨rfl, member⟩)
    · exact .cons _ tail
    · exact .cons_cons _ (List.singleton_sublist.mpr member)

theorem Ahead.ne_head {rest : List Item} (ahead : Ahead items first second)
    (nodup : items.Nodup) : items ≠ second :: rest := by
  rintro rfl
  obtain ⟨fresh, _⟩ := List.nodup_cons.mp nodup
  rcases ahead_cons.mp ahead with tail | ⟨_, member⟩
  · exact fresh tail.second_mem
  · exact fresh member

theorem Ahead.of_sublist (ahead : Ahead items first second) (nodup : items.Nodup)
    (sublist : after.Sublist items) (stays : first ∈ after) (stays' : second ∈ after) :
    Ahead after first second := by
  induction sublist with
  | slnil => exact ahead
  | cons item rest ih =>
      obtain ⟨fresh, nodup⟩ := List.nodup_cons.mp nodup
      rcases ahead_cons.mp ahead with tail | ⟨rfl, _⟩
      · exact ih tail nodup stays stays'
      · exact absurd (rest.subset stays) fresh
  | cons_cons item rest ih =>
      obtain ⟨fresh, nodup⟩ := List.nodup_cons.mp nodup
      rcases ahead_cons.mp ahead with tail | ⟨rfl, member⟩
      · have other : first ≠ item := fun equal => fresh (equal ▸ tail.first_mem)
        have other' : second ≠ item := fun equal => fresh (equal ▸ tail.second_mem)
        exact ahead_cons.mpr (.inl (ih tail nodup (by simpa [other] using stays)
          (by simpa [other'] using stays')))
      · have other : second ≠ first := fun equal => fresh (equal ▸ member)
        exact ahead_cons.mpr (.inr ⟨rfl, by simpa [other] using stays'⟩)

end Order

end Libtcr
