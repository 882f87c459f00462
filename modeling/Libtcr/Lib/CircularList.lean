import Mathlib.Data.List.Nodup
import Mathlib.Logic.Function.Iterate

/-! Circular doubly linked lists through pointers, without an abstract list behind them: a
node that is not removed properly keeps its stale pointers. A list is circular around one
node, its head, which stands for no element. -/

set_option autoImplicit false

namespace Libtcr

structure Links (Node : Type) where
  next : Node → Node
  prev : Node → Node

namespace Links

variable {Node : Type} [DecidableEq Node]

/-- A list of its own. -/
def init (links : Links Node) (node : Node) : Links Node where
  next := Function.update links.next node node
  prev := Function.update links.prev node node

def insertAfter (links : Links Node) (listNode node : Node) : Links Node :=
  let next := Function.update links.next node (links.next listNode)
  let prev := Function.update links.prev node listNode
  { next := Function.update next listNode node
    prev := Function.update prev (next listNode) node }

/-- Insert elements behind `head`, the last one first. -/
def ofList (links : Links Node) (head : Node) (nodes : List Node) : Links Node :=
  nodes.foldr (fun node after => after.insertAfter head node) links

def remove (links : Links Node) (node : Node) : Links Node :=
  let prev := Function.update links.prev (links.next node) (links.prev node)
  { next := Function.update links.next (prev node) (links.next node)
    prev := prev }

def isEmpty (links : Links Node) (head : Node) : Bool := decide (links.next head = head)

/-- Follow the pointers from `node` until the list ends at `head`. -/
def forEach {Acc : Type} (links : Links Node) (head : Node) (body : Acc → Node → Acc) :
    Nat → Node → Acc → Acc
  | 0, _, acc => acc
  | fuel + 1, node, acc =>
    if node = head then acc else links.forEach head body fuel (links.next node) (body acc node)

omit [DecidableEq Node] in
/-- The pointers lead from `first` through `nodes` to `last`, and back. -/
def Segment (links : Links Node) : Node → List Node → Node → Prop
  | first, [], last => links.next first = last ∧ links.prev last = first
  | first, node :: nodes, last =>
    links.next first = node ∧ links.prev node = first ∧ links.Segment node nodes last

/-- The elements of the list around `head`. -/
structure Ring (links : Links Node) (head : Node) (nodes : List Node) : Prop where
  segment : links.Segment head nodes head
  nodup : (head :: nodes).Nodup

section Segment

variable {links after : Links Node} {first last node : Node} {nodes : List Node}

omit [DecidableEq Node]

theorem Segment.congr (segment : links.Segment first nodes last)
    (next : ∀ x ∈ first :: nodes, after.next x = links.next x)
    (prev : ∀ x ∈ nodes ++ [last], after.prev x = links.prev x) :
    after.Segment first nodes last := by
  induction nodes generalizing first with
  | nil =>
      exact ⟨(next first (.head _)).trans segment.1, (prev last (by simp)).trans segment.2⟩
  | cons node nodes ih =>
      obtain ⟨forth, back, rest⟩ := segment
      refine ⟨(next first (.head _)).trans forth, (prev node (by simp)).trans back, ih rest ?_ ?_⟩
      · exact fun x member => next x (.tail _ member)
      · exact fun x member => prev x (.tail _ member)

theorem Segment.append {more : List Node}
    (segment : links.Segment first (nodes ++ node :: more) last) :
    links.Segment first nodes node ∧ links.Segment node more last := by
  induction nodes generalizing first with
  | nil => exact ⟨⟨segment.1, segment.2.1⟩, segment.2.2⟩
  | cons x nodes ih =>
      obtain ⟨forth, back, rest⟩ := segment
      obtain ⟨left, right⟩ := ih rest
      exact ⟨⟨forth, back, left⟩, right⟩

theorem Segment.next_mem (segment : links.Segment first nodes last) :
    links.next first ∈ nodes ++ [last] := by
  cases nodes with
  | nil => simp [segment.1]
  | cons node nodes => simp [segment.1]

theorem Segment.prev_mem (segment : links.Segment first nodes last) :
    links.prev last ∈ first :: nodes := by
  induction nodes generalizing first with
  | nil => simp [segment.2]
  | cons node nodes ih => exact .tail _ (ih segment.2.2)

end Segment

variable {links : Links Node} {head node : Node} {nodes : List Node}

theorem Ring.init (links : Links Node) (head : Node) : (links.init head).Ring head [] where
  segment := by simp [Segment, Links.init]
  nodup := List.nodup_singleton head

theorem Ring.isEmpty (ring : links.Ring head nodes) : links.isEmpty head = true ↔ nodes = [] := by
  have distinct := List.nodup_cons.mp ring.nodup
  cases nodes with
  | nil => simpa [Links.isEmpty] using ring.segment.1
  | cons node nodes =>
      have forth := ring.segment.1
      have other : node ≠ head := fun same => distinct.1 (by simp [same])
      simp [Links.isEmpty, forth, other]

theorem Ring.insertAfter (ring : links.Ring head nodes) (fresh : node ∉ head :: nodes) :
    (links.insertAfter head node).Ring head (node :: nodes) := by
  have distinct := List.nodup_cons.mp ring.nodup
  have apart : node ≠ head ∧ node ∉ nodes := by simpa using fresh
  have target : links.next head ≠ node := by
    intro same
    have member := ring.segment.next_mem
    rw [same] at member
    simp [apart] at member
  refine ⟨⟨by simp [Links.insertAfter], ?_, ?_⟩, ?_⟩
  · simp [Links.insertAfter, Ne.symm target, Ne.symm apart.1]
  · cases nodes with
    | nil =>
        have forth := ring.segment.1
        simp [Segment, Links.insertAfter, apart.1, forth, Ne.symm apart.1]
    | cons x rest =>
        obtain ⟨forth, _, segment⟩ := ring.segment
        refine ⟨by simp [Links.insertAfter, apart.1, forth], ?_, segment.congr ?_ ?_⟩
        · simp [Links.insertAfter, forth, Ne.symm apart.1]
        · intro y member
          have away : y ≠ node ∧ y ≠ head := by
            refine ⟨?_, ?_⟩
            · rintro rfl
              exact apart.2 member
            · rintro rfl
              exact distinct.1 member
          simp [Links.insertAfter, away.1, away.2]
        · intro y member
          have first := (List.nodup_cons.mp distinct.2).1
          have away : y ≠ node ∧ y ≠ x := by
            refine ⟨?_, ?_⟩
            · rintro rfl
              simp [apart.1] at member
              exact apart.2 (.tail _ member)
            · rintro rfl
              rcases List.mem_append.mp member with below | same
              · exact first below
              · exact distinct.1 (by simp [List.mem_singleton.mp same])
          simp [Links.insertAfter, forth, away.1, away.2, Ne.symm apart.1]
  · refine List.nodup_cons.mpr ⟨?_, List.nodup_cons.mpr ⟨apart.2, distinct.2⟩⟩
    simp [Ne.symm apart.1, distinct.1]

theorem Segment.remove {first last : Node} {left right : List Node}
    (before : links.Segment first left node) (behind : links.Segment node right last)
    (distinct : (left ++ node :: right ++ [last]).Nodup) (fresh : first ∉ left ++ node :: right) :
    (links.remove node).Segment first (left ++ right) last := by
  have next_ne : links.next node ≠ node := by
    intro same
    have member := behind.next_mem
    rw [same] at member
    grind
  induction left generalizing first with
  | nil =>
      obtain ⟨forth, back⟩ := before
      have joined : (links.remove node).next first = links.next node ∧
          (links.remove node).prev (links.next node) = first := by
        simp [Links.remove, Ne.symm next_ne, back]
      cases right with
      | nil =>
          rw [behind.1] at joined
          exact joined
      | cons x rest =>
          rw [behind.1] at joined
          refine ⟨joined.1, joined.2, behind.2.2.congr (fun y member => ?_) (fun y member => ?_)⟩
          · have away : y ≠ first := by
              rintro rfl
              exact fresh (by simp_all)
            simp [Links.remove, Ne.symm next_ne, back, away]
          · have away : y ≠ x := by
              rintro rfl
              grind
            simp [Links.remove, behind.1, away]
  | cons x left ih =>
      obtain ⟨forth, back, rest⟩ := before
      have away : links.prev node ≠ first ∧ links.next node ≠ x := by
        refine ⟨?_, ?_⟩
        · intro same
          have member := rest.prev_mem
          rw [same] at member
          grind
        · intro same
          have member := behind.next_mem
          rw [same] at member
          grind
      refine ⟨?_, ?_, ih rest (by grind) (by grind)⟩
      · simp [Links.remove, Ne.symm next_ne, Ne.symm away.1, forth]
      · simp [Links.remove, Ne.symm away.2, back]

theorem Ring.remove (ring : links.Ring head nodes) (member : node ∈ nodes) :
    (links.remove node).Ring head (nodes.erase node) := by
  obtain ⟨left, right, rfl⟩ := List.append_of_mem member
  have distinct := List.nodup_cons.mp ring.nodup
  have absent : node ∉ left := by grind
  have erased : (left ++ node :: right).erase node = left ++ right := by
    simp [List.erase_append_right _ absent]
  obtain ⟨before, behind⟩ := ring.segment.append
  refine ⟨?_, ring.nodup.sublist ?_⟩
  · rw [erased]
    refine before.remove behind ?_ distinct.1
    refine List.nodup_append.mpr ⟨distinct.2, List.nodup_singleton head, ?_⟩
    rintro x below y single rfl
    exact distinct.1 (List.mem_singleton.mp single ▸ below)
  · exact List.Sublist.cons_cons _ List.erase_sublist

theorem Ring.insertAfter_other {listNode : Node} (ring : links.Ring head nodes)
    (outside : listNode ∉ head :: nodes) (apart : links.next listNode ∉ head :: nodes)
    (fresh : node ∉ head :: nodes) : (links.insertAfter listNode node).Ring head nodes := by
  refine ⟨ring.segment.congr (fun x member => ?_) (fun x member => ?_), ring.nodup⟩
  · have away : x ≠ node ∧ x ≠ listNode :=
      ⟨fun same => fresh (same ▸ member), fun same => outside (same ▸ member)⟩
    simp [Links.insertAfter, away.1, away.2]
  · have inside : x ∈ head :: nodes := by
      rcases List.mem_append.mp member with below | last
      · exact .tail _ below
      · simp [List.mem_singleton.mp last]
    have away : x ≠ node ∧ x ≠ links.next listNode :=
      ⟨fun same => fresh (same ▸ inside), fun same => apart (same ▸ inside)⟩
    by_cases own : listNode = node
    · subst own
      simp [Links.insertAfter, away.1, away.2]
    · simp [Links.insertAfter, own, away.1, away.2]

theorem Ring.ofList {head' : Node} {items : List Node} (empty : links.Ring head [])
    (other : links.Ring head' items) (nodup : (head :: nodes).Nodup)
    (apart : (head :: nodes).Disjoint (head' :: items)) :
    (links.ofList head nodes).Ring head nodes ∧ (links.ofList head nodes).Ring head' items := by
  induction nodes with
  | nil => exact ⟨empty, other⟩
  | cons node nodes ih =>
      obtain ⟨absent, distinct⟩ := List.nodup_cons.mp nodup
      obtain ⟨fresh, distinct⟩ := List.nodup_cons.mp distinct
      have own : head ≠ node ∧ head ∉ nodes := by simpa using absent
      obtain ⟨ring, kept⟩ := ih (List.nodup_cons.mpr ⟨own.2, distinct⟩)
        (fun x member => apart (by grind))
      have next : (links.ofList head nodes).next head ∈ head :: nodes := by
        have member := ring.segment.next_mem
        grind
      refine ⟨ring.insertAfter (by simp [Ne.symm own.1, fresh]), kept.insertAfter_other ?_ ?_ ?_⟩
      · exact apart (.head _)
      · exact apart (by grind)
      · exact apart (by simp)

theorem Segment.forEach {Acc : Type} {first : Node} (segment : links.Segment first nodes head)
    (absent : head ∉ nodes) (body : Acc → Node → Acc) {fuel : Nat} (enough : nodes.length ≤ fuel)
    (acc : Acc) : links.forEach head body fuel (links.next first) acc = nodes.foldl body acc := by
  induction nodes generalizing first fuel acc with
  | nil =>
      cases fuel with
      | zero => rfl
      | succ fuel => simp [Links.forEach, segment.1]
  | cons node nodes ih =>
      cases fuel with
      | zero => cases enough
      | succ fuel =>
          obtain ⟨forth, _, rest⟩ := segment
          have other : node ≠ head := fun same => absent (by simp [same])
          rw [Links.forEach, forth, if_neg other]
          exact ih rest (fun below => absent (.tail _ below)) (Nat.le_of_succ_le_succ enough) _

theorem forEach_invariant {Acc : Type} {body : Acc → Node → Acc} (holds : Acc → Prop)
    (kept : ∀ acc node, holds acc → holds (body acc node)) (fuel : Nat) (node : Node) (acc : Acc)
    (initially : holds acc) : holds (links.forEach head body fuel node acc) := by
  induction fuel generalizing node acc with
  | zero => exact initially
  | succ fuel ih =>
      unfold Links.forEach
      split
      · exact initially
      · exact ih _ _ (kept acc node initially)

omit [DecidableEq Node] in
theorem Ring.reachable (ring : links.Ring head nodes) {x : Node} :
    (∃ k, links.next^[k] head = x) ↔ x ∈ head :: nodes := by
  have closed : ∀ (nodes : List Node) (first : Node), links.Segment first nodes head →
      ∀ x ∈ first :: nodes, links.next x ∈ nodes ++ [head] := by
    intro nodes
    induction nodes with
    | nil =>
        intro first segment x member
        obtain rfl : x = first := by simpa using member
        exact segment.next_mem
    | cons node nodes ih =>
        intro first segment x member
        rcases List.mem_cons.mp member with rfl | below
        · exact segment.next_mem
        · exact .tail _ (ih node segment.2.2 x below)
  have reached : ∀ (nodes : List Node) (first : Node), links.Segment first nodes head →
      ∀ x ∈ first :: nodes, ∃ k, links.next^[k] first = x := by
    intro nodes
    induction nodes with
    | nil =>
        intro first segment x member
        exact ⟨0, by simpa using Eq.symm (by simpa using member)⟩
    | cons node nodes ih =>
        intro first segment x member
        rcases List.mem_cons.mp member with rfl | below
        · exact ⟨0, rfl⟩
        · obtain ⟨k, found⟩ := ih node segment.2.2 x below
          refine ⟨k + 1, ?_⟩
          rw [Function.iterate_succ_apply, segment.1]
          exact found
  constructor
  · rintro ⟨k, rfl⟩
    induction k with
    | zero => exact .head _
    | succ k ih =>
        rw [Function.iterate_succ_apply']
        have member := closed nodes head ring.segment _ ih
        rcases List.mem_append.mp member with below | back
        · exact .tail _ below
        · simp [List.mem_singleton.mp back]
  · exact reached nodes head ring.segment x

end Links

end Libtcr
