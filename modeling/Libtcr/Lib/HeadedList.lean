import Mathlib.Data.List.Nodup
import Mathlib.Logic.Function.Basic

/-! Doubly linked lists with a separate head, as in `LIST_HEAD` and `LIST_ENTRY`. A node
points to its successor and to the place that points to the node itself. What has been
written into the members of a node stays there after its removal. -/

set_option autoImplicit false

namespace Libtcr

/-- The value of a pointer to a node. `mark` is a value that is not an address. -/
inductive Pointer (Node : Type) where
  | null
  | mark
  | node (x : Node)
  deriving DecidableEq, Repr

/-- A place that holds a pointer: that of the head, or the member `next` of a node. -/
inductive Slot (Node : Type) where
  | head
  | next (node : Node)
  deriving DecidableEq, Repr

structure HeadedList (Node : Type) where
  first : Pointer Node
  next : Node → Pointer Node
  prev : Node → Slot Node

namespace HeadedList

variable {Node : Type} [DecidableEq Node]

def load (list : HeadedList Node) : Slot Node → Pointer Node
  | .head => list.first
  | .next node => list.next node

def store (list : HeadedList Node) (slot : Slot Node) (pointer : Pointer Node) : HeadedList Node :=
  match slot with
  | .head => { list with first := pointer }
  | .next node => { list with next := Function.update list.next node pointer }

/-- Write the member `prev` of the node that a pointer leads to, if there is one. -/
def setPrev (list : HeadedList Node) (pointer : Pointer Node) (slot : Slot Node) :
    HeadedList Node :=
  match pointer with
  | .node x => { list with prev := Function.update list.prev x slot }
  | _ => list

/-- Insert a node between a place and the node that the place points to: `LIST_INSERT_HEAD`
and `LIST_INSERT_AFTER`. -/
def insertAt (list : HeadedList Node) (slot : Slot Node) (node : Node) : HeadedList Node :=
  let pointer := list.load slot
  let list := (list.store (.next node) pointer).setPrev pointer (.next node)
  (list.store slot (.node node)).setPrev (.node node) slot

def insertHead (list : HeadedList Node) (node : Node) : HeadedList Node :=
  list.insertAt .head node

def insertAfter (list : HeadedList Node) (listNode node : Node) : HeadedList Node :=
  list.insertAt (.next listNode) node

def insertBefore (list : HeadedList Node) (listNode node : Node) : HeadedList Node :=
  let list := list.setPrev (.node node) (list.prev listNode)
  let list := list.store (.next node) (.node listNode)
  let list := list.store (list.prev listNode) (.node node)
  list.setPrev (.node listNode) (.next node)

def remove (list : HeadedList Node) (node : Node) : HeadedList Node :=
  let list := list.setPrev (list.next node) (list.prev node)
  list.store (list.prev node) (list.next node)

omit [DecidableEq Node] in
def toFirst : List Node → Pointer Node
  | [] => .null
  | node :: _ => .node node

omit [DecidableEq Node] in
/-- The place after some nodes that begin at `slot`. -/
def lastSlot (slot : Slot Node) : List Node → Slot Node
  | [] => slot
  | node :: nodes => lastSlot (.next node) nodes

omit [DecidableEq Node] in
/-- The pointers lead from `slot` through the nodes to the end of the list, and back. -/
def Chain (list : HeadedList Node) : Slot Node → List Node → Prop
  | slot, [] => list.load slot = .null
  | slot, node :: nodes =>
    list.load slot = .node node ∧ list.prev node = slot ∧ list.Chain (.next node) nodes

structure Represents (list : HeadedList Node) (nodes : List Node) : Prop where
  chain : list.Chain .head nodes
  nodup : nodes.Nodup

section Access

variable (list : HeadedList Node) (slot : Slot Node) (pointer : Pointer Node) (node : Node)

@[simp] theorem store_prev : (list.store slot pointer).prev = list.prev := by
  cases slot <;> rfl

@[simp] theorem load_store_self : (list.store slot pointer).load slot = pointer := by
  cases slot <;> simp [store, load]

theorem load_store_of_ne {other : Slot Node} (different : other ≠ slot) :
    (list.store slot pointer).load other = list.load other := by
  cases slot with
  | head =>
      cases other with
      | head => exact absurd rfl different
      | next x => rfl
  | next x =>
      cases other with
      | head => rfl
      | next y =>
          have apart : y ≠ x := by
            rintro rfl
            exact different rfl
          simp [store, load, apart]

@[simp] theorem load_setPrev (other : Slot Node) :
    (list.setPrev pointer slot).load other = list.load other := by
  cases pointer <;> cases other <;> rfl

@[simp] theorem setPrev_prev_self : (list.setPrev (.node node) slot).prev node = slot := by
  simp [setPrev]

theorem setPrev_prev_of_ne (different : pointer ≠ .node node) :
    (list.setPrev pointer slot).prev node = list.prev node := by
  cases pointer with
  | node x =>
      have apart : node ≠ x := by
        rintro rfl
        exact different rfl
      simp [setPrev, apart]
  | _ => rfl

end Access

section Chain

variable {list after : HeadedList Node} {slot : Slot Node} {node : Node} {nodes more : List Node}

omit [DecidableEq Node]

theorem Chain.load (chain : list.Chain slot nodes) : list.load slot = toFirst nodes := by
  cases nodes with
  | nil => exact chain
  | cons node nodes => exact chain.1

theorem Chain.congr (chain : list.Chain slot nodes) (first : after.load slot = list.load slot)
    (next : ∀ x ∈ nodes, after.next x = list.next x)
    (prev : ∀ x ∈ nodes, after.prev x = list.prev x) : after.Chain slot nodes := by
  induction nodes generalizing slot with
  | nil => exact first.trans chain
  | cons node nodes ih =>
      obtain ⟨forth, back, rest⟩ := chain
      refine ⟨first.trans forth, (prev node (.head _)).trans back, ih rest ?_ ?_ ?_⟩
      · exact next node (.head _)
      · exact fun x member => next x (.tail _ member)
      · exact fun x member => prev x (.tail _ member)

theorem lastSlot_append (slot : Slot Node) (nodes more : List Node) :
    lastSlot slot (nodes ++ more) = lastSlot (lastSlot slot nodes) more := by
  induction nodes generalizing slot with
  | nil => rfl
  | cons node nodes ih => exact ih (.next node)

theorem Chain.ending (chain : list.Chain slot (nodes ++ more)) :
    list.Chain (lastSlot slot nodes) more := by
  induction nodes generalizing slot with
  | nil => exact chain
  | cons node nodes ih => exact ih chain.2.2

/-- The place after some nodes is the one it began with, or the member of one of them. -/
theorem lastSlot_mem (slot : Slot Node) (nodes : List Node) :
    lastSlot slot nodes = slot ∧ nodes = [] ∨ ∃ x ∈ nodes, lastSlot slot nodes = .next x := by
  induction nodes generalizing slot with
  | nil => exact .inl ⟨rfl, rfl⟩
  | cons node nodes ih =>
      rcases ih (.next node) with ⟨same, _⟩ | ⟨x, member, same⟩
      · exact .inr ⟨node, .head _, same⟩
      · exact .inr ⟨x, .tail _ member, same⟩

theorem mem_of_lastSlot {x : Node} (last : Slot.next x = lastSlot .head nodes) : x ∈ nodes := by
  rcases lastSlot_mem .head nodes with ⟨head, _⟩ | ⟨y, before, equal⟩
  · cases last.trans head
  · cases last.trans equal
    exact before

/-- The end of a chain is replaced: what comes before keeps its pointers, except for the last
place. -/
theorem Chain.splice {rest : List Node} (chain : list.Chain slot (nodes ++ more))
    (nodup : nodes.Nodup) (first : nodes ≠ [] → after.load slot = list.load slot)
    (next : ∀ x ∈ nodes, Slot.next x ≠ lastSlot slot nodes → after.next x = list.next x)
    (prev : ∀ x ∈ nodes, after.prev x = list.prev x)
    (ends : after.Chain (lastSlot slot nodes) rest) : after.Chain slot (nodes ++ rest) := by
  induction nodes generalizing slot with
  | nil => exact ends
  | cons node nodes ih =>
      obtain ⟨forth, back, tail⟩ := chain
      obtain ⟨fresh, nodup⟩ := List.nodup_cons.mp nodup
      refine ⟨(first (by simp)).trans forth, (prev node (.head _)).trans back,
        ih tail nodup ?_ ?_ ?_ ends⟩
      · intro some
        refine next node (.head _) fun last => ?_
        rcases lastSlot_mem (.next node) nodes with ⟨_, none⟩ | ⟨x, member, same⟩
        · exact some none
        · cases last.trans same
          exact fresh member
      · exact fun x member different => next x (.tail _ member) different
      · exact fun x member => prev x (.tail _ member)

end Chain

section Operations

variable {list : HeadedList Node} {node : Node} {nodes more : List Node}

omit [DecidableEq Node] in
theorem Represents.slot_ne (valid : list.Represents (nodes ++ more)) {x : Node} (member : x ∈ more) :
    Slot.next x ≠ lastSlot .head nodes := by
  intro same
  exact (List.nodup_append.mp valid.nodup).2.2 x (mem_of_lastSlot same) x member rfl

section Insert

variable (list) (slot : Slot Node) (node)

@[simp] theorem insertAt_load_self : (list.insertAt slot node).load slot = .node node := by
  simp [HeadedList.insertAt]

theorem insertAt_load_node (apart : Slot.next node ≠ slot) :
    (list.insertAt slot node).load (.next node) = list.load slot := by
  simp [HeadedList.insertAt, load_store_of_ne _ _ _ apart]

theorem insertAt_load_other (other : Slot Node) (apart : other ≠ slot)
    (away : other ≠ .next node) : (list.insertAt slot node).load other = list.load other := by
  simp [HeadedList.insertAt, load_store_of_ne _ _ _ apart, load_store_of_ne _ _ _ away]

@[simp] theorem insertAt_prev_self : (list.insertAt slot node).prev node = slot := by
  simp [HeadedList.insertAt]

theorem insertAt_prev_next {x : Node} (points : list.load slot = .node x) (apart : x ≠ node) :
    (list.insertAt slot node).prev x = .next node := by
  have other : Pointer.node node ≠ .node x := by simpa using Ne.symm apart
  simp [HeadedList.insertAt, setPrev_prev_of_ne _ _ _ _ other, points]

theorem insertAt_prev_other {x : Node} (points : list.load slot ≠ .node x) (apart : x ≠ node) :
    (list.insertAt slot node).prev x = list.prev x := by
  have other : Pointer.node node ≠ .node x := by simpa using Ne.symm apart
  simp [HeadedList.insertAt, setPrev_prev_of_ne _ _ _ _ other, setPrev_prev_of_ne _ _ _ _ points]

end Insert

theorem Represents.insertAt (valid : list.Represents (nodes ++ more)) (fresh : node ∉ nodes ++ more) :
    (list.insertAt (lastSlot .head nodes) node).Represents (nodes ++ node :: more) := by
  obtain ⟨left, right⟩ : node ∉ nodes ∧ node ∉ more := by simpa using fresh
  have points := valid.chain.ending.load
  have nodup := List.nodup_append.mp valid.nodup
  have apart : Slot.next node ≠ lastSlot .head nodes := fun same => left (mem_of_lastSlot same)
  have away : ∀ {x}, x ∈ nodes ++ more → x ≠ node := by
    rintro x member rfl
    exact fresh member
  refine ⟨valid.chain.splice nodup.1 ?_ ?_ ?_ ⟨by simp, by simp, ?_⟩, ?_⟩
  · intro some
    refine insertAt_load_other _ _ _ _ ?_ (by simp)
    rcases lastSlot_mem .head nodes with ⟨_, none⟩ | ⟨y, _, last⟩
    · exact absurd none some
    · simp [last]
  · intro x member different
    refine insertAt_load_other _ _ _ (.next x) different ?_
    simpa using away (List.mem_append_left _ member)
  · intro x member
    refine insertAt_prev_other _ _ _ ?_ (away (List.mem_append_left _ member))
    rw [points]
    cases more with
    | nil => simp [toFirst]
    | cons z rest =>
        have distinct := nodup.2.2 x member z (.head _)
        simpa [toFirst] using Ne.symm distinct
  · cases more with
    | nil => exact (insertAt_load_node _ _ _ apart).trans points
    | cons z rest =>
        have fresh := (List.nodup_cons.mp nodup.2.1).1
        refine ⟨(insertAt_load_node _ _ _ apart).trans points,
          insertAt_prev_next _ _ _ points (away (by simp)), ?_⟩
        refine (valid.chain.ending.2.2).congr ?_ ?_ ?_
        · exact insertAt_load_other _ _ _ _ (valid.slot_ne (.head _)) (by simpa using away (by simp))
        · intro x member
          exact insertAt_load_other _ _ _ (.next x) (valid.slot_ne (.tail _ member))
            (by simpa using away (by simp [member]))
        · intro x member
          refine insertAt_prev_other _ _ _ ?_ (away (by simp [member]))
          rw [points]
          rintro same
          cases same
          exact fresh member
  · have fresh : (node :: (nodes ++ more)).Nodup := List.nodup_cons.mpr ⟨fresh, valid.nodup⟩
    exact (List.perm_middle.nodup_iff).mpr fresh

omit [DecidableEq Node] in
theorem Represents.at_node (valid : list.Represents (nodes ++ node :: more)) :
    list.prev node = lastSlot .head nodes ∧ list.next node = toFirst more ∧
      list.next node ≠ .node node := by
  obtain ⟨_, back, rest⟩ := valid.chain.ending
  have forth : list.next node = toFirst more := rest.load
  refine ⟨back, forth, ?_⟩
  have fresh := (List.nodup_cons.mp (List.nodup_append.mp valid.nodup).2.1).1
  rw [forth]
  cases more with
  | nil => simp [toFirst]
  | cons z rest =>
      have distinct : z ≠ node := by
        rintro rfl
        exact fresh (.head _)
      simpa [toFirst] using distinct

theorem Represents.remove (valid : list.Represents (nodes ++ node :: more)) :
    (list.remove node).Represents (nodes ++ more) := by
  obtain ⟨back, forth, own⟩ := valid.at_node
  have nodup := List.nodup_append.mp valid.nodup
  obtain ⟨fresh, distinct⟩ := List.nodup_cons.mp nodup.2.1
  have same : (list.setPrev (list.next node) (list.prev node)).prev node = lastSlot .head nodes := by
    rw [setPrev_prev_of_ne _ _ _ _ own, back]
  have self : (list.remove node).load (lastSlot .head nodes) = toFirst more := by
    rw [HeadedList.remove, same, load_store_self]
    exact (load_setPrev list (list.prev node) (list.next node) (.next node)).trans forth
  have other : ∀ slot, slot ≠ lastSlot .head nodes →
      (list.remove node).load slot = list.load slot := by
    intro slot different
    rw [HeadedList.remove, same, load_store_of_ne _ _ _ different, load_setPrev]
  have prev : ∀ x, toFirst more ≠ .node x → (list.remove node).prev x = list.prev x := by
    intro x different
    rw [HeadedList.remove, store_prev, setPrev_prev_of_ne _ _ _ _ (forth ▸ different)]
  refine ⟨valid.chain.splice nodup.1 ?_ ?_ ?_ ?_, ?_⟩
  · intro some
    refine other _ ?_
    rcases lastSlot_mem .head nodes with ⟨_, none⟩ | ⟨y, _, last⟩
    · exact absurd none some
    · simp [last]
  · exact fun x member different => other (.next x) different
  · intro x member
    refine prev x ?_
    cases more with
    | nil => simp [toFirst]
    | cons z rest =>
        have different := nodup.2.2 x member z (by simp)
        simpa [toFirst] using Ne.symm different
  · cases more with
    | nil => exact self
    | cons z rest =>
        obtain ⟨_, _, _, _, chain⟩ := valid.chain.ending
        refine ⟨self, ?_, chain.congr ?_ ?_ ?_⟩
        · rw [HeadedList.remove, store_prev, forth, toFirst, setPrev_prev_self, back]
        · exact other _ (valid.slot_ne (by simp))
        · exact fun x member => other (.next x) (valid.slot_ne (by simp [member]))
        · intro x member
          refine prev x ?_
          rintro same
          cases same
          exact (List.nodup_cons.mp distinct).1 member
  · exact (List.nodup_cons.mp ((List.perm_middle.nodup_iff).mp valid.nodup)).2

theorem insertBefore_eq {listNode : Node} (points : list.load (list.prev listNode) = .node listNode)
    (apart : listNode ≠ node) :
    list.insertBefore listNode node = list.insertAt (list.prev listNode) node := by
  have away : Function.update list.prev node (list.prev listNode) listNode = list.prev listNode :=
    Function.update_of_ne apart _ _
  have prev := Function.update_comm (Ne.symm apart) (list.prev listNode) (.next node) list.prev
  unfold HeadedList.insertBefore HeadedList.insertAt
  rw [points]
  cases slot : list.prev listNode with
  | head =>
      simp only [slot] at away prev
      simp [setPrev, store, away, prev]
  | next x =>
      simp only [slot] at away prev
      simp [setPrev, store, away, prev]

theorem Represents.insertBefore_eq {listNode : Node} (valid : list.Represents (nodes ++ listNode :: more))
    (fresh : node ∉ nodes ++ listNode :: more) :
    list.insertBefore listNode node = list.insertAt (lastSlot .head nodes) node := by
  obtain ⟨back, _, _⟩ := valid.at_node
  have apart : listNode ≠ node := by
    rintro rfl
    simp at fresh
  rw [HeadedList.insertBefore_eq (back ▸ valid.chain.ending.load) apart, back]

omit [DecidableEq Node] in
theorem Chain.unique {slot : Slot Node} {others : List Node} (chain : list.Chain slot nodes)
    (second : list.Chain slot others) : nodes = others := by
  induction nodes generalizing slot others with
  | nil =>
      cases others with
      | nil => rfl
      | cons x others => simpa [second.1] using chain.symm.trans second.1
  | cons node nodes ih =>
      cases others with
      | nil => simpa [second] using chain.1.symm.trans second
      | cons x others =>
          obtain rfl : node = x := by simpa using chain.1.symm.trans second.1
          rw [ih chain.2.2 second.2.2]

omit [DecidableEq Node] in
theorem Represents.first (valid : list.Represents nodes) : list.first = toFirst nodes :=
  valid.chain.load

omit [DecidableEq Node] in
theorem Represents.next_ne_mark (valid : list.Represents nodes) (member : node ∈ nodes) :
    list.next node ≠ .mark := by
  obtain ⟨before, after, rfl⟩ := List.append_of_mem member
  rw [valid.at_node.2.1]
  cases after <;> simp [toFirst]

theorem Represents.store (valid : list.Represents nodes) (fresh : node ∉ nodes)
    (pointer : Pointer Node) : (list.store (.next node) pointer).Represents nodes where
  chain := by
    refine valid.chain.congr rfl (fun x member => ?_) fun _ _ => rfl
    have apart : x ≠ node := by
      rintro rfl
      exact fresh member
    exact Function.update_of_ne apart _ _
  nodup := valid.nodup

/-! Which nodes hold the mark. -/

theorem Represents.remove_mark (valid : list.Represents (nodes ++ node :: more)) (x : Node) :
    (list.remove node).next x = .mark ↔ list.next x = .mark := by
  obtain ⟨back, forth, own⟩ := valid.at_node
  have same : (list.setPrev (list.next node) (list.prev node)).prev node = lastSlot .head nodes := by
    rw [setPrev_prev_of_ne _ _ _ _ own, back]
  have moved : (list.remove node).next x = if Slot.next x = lastSlot .head nodes
      then toFirst more else list.next x := by
    rw [HeadedList.remove, same]
    have next := load_setPrev list (list.prev node) (list.next node)
    split
    · next last =>
      rw [← last]
      exact (load_store_self _ (.next x) _).trans ((next (.next node)).trans forth)
    · next other => exact (load_store_of_ne _ _ _ other).trans (next (.next x))
  rw [moved]
  split
  · next last =>
    have unmarked := valid.next_ne_mark (List.mem_append_left _ (mem_of_lastSlot last))
    cases more <;> simp [toFirst, unmarked]
  · rfl

theorem Represents.insertAt_mark (valid : list.Represents (nodes ++ more)) {x : Node}
    (apart : x ≠ node) :
    (list.insertAt (lastSlot .head nodes) node).next x = .mark ↔ list.next x = .mark := by
  by_cases last : Slot.next x = lastSlot .head nodes
  · have unmarked := valid.next_ne_mark (List.mem_append_left _ (mem_of_lastSlot last))
    have now : (list.insertAt (lastSlot .head nodes) node).next x = .node node := by
      rw [← last]
      exact insertAt_load_self list node (.next x)
    simp [unmarked, now]
  · rw [show (list.insertAt (lastSlot .head nodes) node).next x = list.next x from
      insertAt_load_other list node _ (.next x) last (by simpa using apart)]

end Operations

end HeadedList

end Libtcr
