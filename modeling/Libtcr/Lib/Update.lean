import Mathlib.Data.Set.Card
import Mathlib.Logic.Function.Basic

/-! The values of a function that was updated at one point. -/

set_option autoImplicit false

namespace Libtcr.Update

variable {Index Value : Type} [DecidableEq Index] {f : Index → Value} {i j : Index} {new value : Value}

theorem eq_cases (after : Function.update f i new j = value) :
    j = i ∧ new = value ∨ j ≠ i ∧ f j = value := by
  by_cases same : j = i
  · rw [same, Function.update_self] at after
    exact .inl ⟨same, after⟩
  · rw [Function.update_of_ne same] at after
    exact .inr ⟨same, after⟩

theorem old_of_ne (after : Function.update f i new j = value) (other : new ≠ value) :
    j ≠ i ∧ f j = value :=
  (eq_cases after).resolve_left fun written => other written.2

theorem ne_of_ne (after : Function.update f i new j ≠ new) : j ≠ i ∧ f j ≠ new := by
  have apart : j ≠ i := by
    rintro rfl
    exact after (Function.update_self j new f)
  rw [Function.update_of_ne apart] at after
  exact ⟨apart, after⟩

section Count

omit [DecidableEq Index] in
theorem ncard_split [Finite Index] (holds : Index → Bool) (i : Index) :
    {j | holds j = true}.ncard = {j | j ≠ i ∧ holds j = true}.ncard + (holds i).toNat := by
  cases here : holds i with
  | true =>
      have split : {j | holds j = true} = insert i {j | j ≠ i ∧ holds j = true} := by
        ext j
        by_cases same : j = i <;> simp [same, here]
      rw [split, Set.ncard_insert_of_notMem (by simp), Bool.toNat_true]
  | false =>
      have split : {j | holds j = true} = {j | j ≠ i ∧ holds j = true} := by
        ext j
        by_cases same : j = i <;> simp [same, here]
      rw [← split, Bool.toNat_false, Nat.add_zero]

theorem ncard_update [Finite Index] (holds : Value → Bool) (f : Index → Value) (i : Index)
    (new : Value) :
    {j | holds (Function.update f i new j) = true}.ncard + (holds (f i)).toNat =
      {j | holds (f j) = true}.ncard + (holds new).toNat := by
  have others : {j | j ≠ i ∧ holds (Function.update f i new j) = true} =
      {j | j ≠ i ∧ holds (f j) = true} := by
    ext j
    by_cases same : j = i <;> simp [same]
  rw [ncard_split (fun j => holds (Function.update f i new j)) i, ncard_split (fun j => holds (f j)) i,
    others, Function.update_self]
  omega

end Count

end Libtcr.Update
