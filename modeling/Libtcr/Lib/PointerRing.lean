import Mathlib.Data.List.Nodup
import Mathlib.Logic.Function.Basic

/-! Rings of nodes through one pointer per node. A ring has no head: it is given by the list of
its nodes from any of them on. -/

set_option autoImplicit false

namespace Libtcr.PointerRing

variable {Node : Type}

def Leads (next : Node → Option Node) : List Node → Node → Prop
  | [], _ => True
  | node :: nodes, last => next node = some (nodes.headD last) ∧ Leads next nodes last

/-- The nodes of a ring, from `first` on. -/
structure IsRing (next : Node → Option Node) (first : Node) (nodes : List Node) : Prop where
  head : nodes.head? = some first
  leads : Leads next nodes first
  nodup : nodes.Nodup

section Leads

variable {next next' : Node → Option Node} {nodes front back : List Node} {node last : Node}

theorem leads_append : Leads next (front ++ back) last ↔
    Leads next front (back.headD last) ∧ Leads next back last := by
  induction front with
  | nil => simp [Leads]
  | cons node front ih =>
      cases front with
      | nil => simp [Leads]
      | cons after front => simpa [Leads, and_assoc] using fun _ => ih

theorem Leads.congr (leads : Leads next nodes last)
    (same : ∀ node ∈ nodes, next' node = next node) : Leads next' nodes last := by
  induction nodes with
  | nil => trivial
  | cons node nodes ih =>
      constructor
      · rw [same node List.mem_cons_self]
        exact leads.1
      · exact ih leads.2 fun node member => same node (List.mem_cons_of_mem _ member)

end Leads

/-! ## The ring from another node on -/

section Rotation

variable {next next' : Node → Option Node} {first node : Node} {nodes front back : List Node}

theorem IsRing.rotate (ring : IsRing next first (front ++ node :: back)) :
    IsRing next node (node :: back ++ front) where
  head := rfl
  leads := by
    obtain ⟨before, behind⟩ := leads_append.mp ring.leads
    refine leads_append.mpr ⟨?_, before⟩
    cases front with
    | nil =>
        have same : node = first := by simpa using ring.head
        simpa [same] using behind
    | cons x front =>
        have same : x = first := by simpa using ring.head
        simpa [same] using behind
  nodup := List.nodup_append_comm.mp ring.nodup

theorem IsRing.exists_from (ring : IsRing next first nodes) (member : node ∈ nodes) :
    ∃ others, IsRing next node others ∧ ∀ x, x ∈ others ↔ x ∈ nodes := by
  obtain ⟨front, back, rfl⟩ := List.append_of_mem member
  refine ⟨node :: back ++ front, ring.rotate, fun x => ?_⟩
  simp only [List.mem_cons, List.mem_append]
  tauto

theorem IsRing.congr (ring : IsRing next first nodes)
    (same : ∀ node ∈ nodes, next' node = next node) : IsRing next' first nodes :=
  ⟨ring.head, ring.leads.congr same, ring.nodup⟩

/-- The pointer of a node is to the one behind it, and that of the last node to the first. -/
theorem IsRing.next_eq (ring : IsRing next first (front ++ node :: back)) :
    next node = some (back.headD first) :=
  (leads_append.mp ring.leads).2.1

end Rotation

/-! ## Insertion -/

section Insertion

variable [DecidableEq Node] {next next' : Node → Option Node} {first node new last : Node}
  {nodes front back : List Node}

def insertAfter (node new : Node) : List Node → List Node
  | [] => []
  | x :: nodes => if x = node then x :: new :: nodes else x :: insertAfter node new nodes

theorem mem_insertAfter (member : node ∈ nodes) {x : Node} :
    x ∈ insertAfter node new nodes ↔ x = new ∨ x ∈ nodes := by
  induction nodes with
  | nil => cases member
  | cons y nodes ih =>
      unfold insertAfter
      split
      · simp only [List.mem_cons]
        tauto
      · next other =>
        have behind : node ∈ nodes := (List.mem_cons.mp member).resolve_left (Ne.symm other)
        simp only [List.mem_cons, ih behind]
        tauto

theorem insertAfter_sublist : nodes.Sublist (insertAfter node new nodes) := by
  induction nodes with
  | nil => exact List.Sublist.refl _
  | cons x nodes ih =>
      unfold insertAfter
      split
      · exact (List.sublist_cons_self new nodes).cons_cons x
      · exact ih.cons_cons x

theorem insertAfter_append_of_mem (member : node ∈ front) :
    insertAfter node new (front ++ back) = insertAfter node new front ++ back := by
  induction front with
  | nil => cases member
  | cons x front ih =>
      simp only [List.cons_append, insertAfter]
      split
      · rfl
      · next other =>
        have behind : node ∈ front := (List.mem_cons.mp member).resolve_left (Ne.symm other)
        rw [ih behind, List.cons_append]

theorem insertAfter_append_of_not_mem (out : node ∉ front) :
    insertAfter node new (front ++ back) = front ++ insertAfter node new back := by
  induction front with
  | nil => rfl
  | cons x front ih =>
      obtain ⟨other, behind⟩ := not_or.mp (mt List.mem_cons.mpr out)
      simp [insertAfter, Ne.symm other, ih behind]

theorem insertAfter_nodup (nodup : nodes.Nodup) (fresh : new ∉ nodes) :
    (insertAfter node new nodes).Nodup := by
  induction nodes with
  | nil => exact List.nodup_nil
  | cons x nodes ih =>
      obtain ⟨out, rest⟩ := List.nodup_cons.mp nodup
      obtain ⟨other, behind⟩ := not_or.mp (mt List.mem_cons.mpr fresh)
      unfold insertAfter
      split
      · simp only [List.nodup_cons, List.mem_cons, not_or]
        exact ⟨⟨Ne.symm other, out⟩, behind, rest⟩
      · refine List.nodup_cons.mpr ⟨?_, ih rest behind⟩
        by_cases member : node ∈ nodes
        · rw [mem_insertAfter member, not_or]
          exact ⟨Ne.symm other, out⟩
        · have same : insertAfter node new (nodes ++ []) = nodes ++ insertAfter node new [] :=
            insertAfter_append_of_not_mem member
          simp only [List.append_nil, insertAfter] at same
          rwa [same]

theorem Leads.insert (leads : Leads next nodes last) (member : node ∈ nodes) (nodup : nodes.Nodup)
    (fresh : new ∉ nodes) (copied : next new = next node) :
    Leads (Function.update next node (some new)) (insertAfter node new nodes) last := by
  have off : ∀ {nodes : List Node}, Leads next nodes last → node ∉ nodes →
      Leads (Function.update next node (some new)) nodes last := fun leads out =>
    leads.congr fun x member => Function.update_of_ne (ne_of_mem_of_not_mem member out) _ _
  induction nodes with
  | nil => cases member
  | cons x nodes ih =>
      obtain ⟨out, rest⟩ := List.nodup_cons.mp nodup
      obtain ⟨other, behind⟩ := not_or.mp (mt List.mem_cons.mpr fresh)
      by_cases same : x = node
      · subst same
        simp only [insertAfter]
        refine ⟨Function.update_self .., ?_, off leads.2 out⟩
        rw [Function.update_of_ne other, copied]
        exact leads.1
      · have inside : node ∈ nodes := (List.mem_cons.mp member).resolve_left (Ne.symm same)
        simp only [insertAfter, if_neg same]
        constructor
        · rw [Function.update_of_ne same, leads.1]
          cases nodes with
          | nil => cases inside
          | cons y nodes =>
              unfold insertAfter
              split <;> rfl
        · exact ih leads.2 inside rest behind

theorem insertAfter_cons (node new x : Node) (nodes : List Node) :
    ∃ rest, insertAfter node new (x :: nodes) = x :: rest := by
  unfold insertAfter
  split
  · exact ⟨_, rfl⟩
  · exact ⟨_, rfl⟩

theorem insertAfter_head : (insertAfter node new nodes).head? = nodes.head? := by
  cases nodes with
  | nil => rfl
  | cons x nodes =>
      obtain ⟨rest, front⟩ := insertAfter_cons node new x nodes
      rw [front]
      rfl

theorem IsRing.insert (ring : IsRing next first nodes) (member : node ∈ nodes)
    (fresh : new ∉ nodes) (copied : next new = next node) :
    IsRing (Function.update next node (some new)) first (insertAfter node new nodes) where
  head := insertAfter_head.trans ring.head
  leads := ring.leads.insert member ring.nodup fresh copied
  nodup := insertAfter_nodup ring.nodup fresh

end Insertion

end Libtcr.PointerRing
