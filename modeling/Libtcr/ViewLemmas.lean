import Libtcr.ThreadView

/-! How the view of a thread follows the updates of the state. -/

set_option autoImplicit false

namespace Libtcr

section Own

variable {Value : Type} {t : Tid} {default : Value} {field : EventId → Value} {e : EventId}

@[simp] theorem own_of_owner (owner : e.owner = t) : own t default field e = field e := by
  simp [own, owner]

@[simp] theorem own_auto (n : Nat) : own t default field (.auto t n) = field (.auto t n) :=
  own_of_owner rfl

@[simp] theorem own_sub (n : Nat) : own t default field (.sub t n) = field (.sub t n) :=
  own_of_owner rfl

@[simp] theorem own_self : own t default field (.self t) = field (.self t) :=
  own_of_owner rfl

theorem own_of_other (other : e.owner ≠ t) : own t default field e = default := by
  simp [own, other]

theorem own_update (owner : e.owner = t) (value : Value) :
    own t default (Function.update field e value) =
      Function.update (own t default field) e value := by
  funext x
  by_cases same : x = e
  · simp [same, own, owner]
  · simp [same, own]

theorem own_update_other (other : e.owner ≠ t) (value : Value) :
    own t default (Function.update field e value) = own t default field := by
  funext x
  by_cases same : x = e
  · simp [same, own, other]
  · simp [same, own]

end Own

section PlaceOf

variable {t u : Tid} (x : Option EventId)

@[simp] theorem placeOf_sched : placeOf t .sched x = .away := rfl

@[simp] theorem placeOf_off : placeOf t .off x = .away := rfl

@[simp] theorem placeOf_report (f : FdId) (e : EventId) : placeOf t (.report f e) x = .away := rfl

@[simp] theorem placeOf_leave : placeOf t (.leave u) x = .away := rfl

@[simp] theorem placeOf_enter : placeOf t (.enter t) x = .entering x := by simp [placeOf]

@[simp] theorem placeOf_thread : placeOf t (.thread t) x = .on x := by simp [placeOf]

@[simp] theorem placeOf_free : placeOf t (.free t) x = .freeing := by simp [placeOf]

theorem placeOf_enter_other (other : u ≠ t) : placeOf t (.enter u) x = .away := by
  simp [placeOf, other]

theorem placeOf_thread_other (other : u ≠ t) : placeOf t (.thread u) x = .away := by
  simp [placeOf, other]

theorem placeOf_free_other (other : u ≠ t) : placeOf t (.free u) x = .away := by
  simp [placeOf, other]

end PlaceOf

theorem placeOf_eq_entering {t : Tid} {mode : Mode} {x y : Option EventId} :
    placeOf t mode x = .entering y ↔ mode = .enter t ∧ x = y := by
  cases mode with
  | enter u => by_cases same : u = t <;> simp [placeOf, same]
  | thread u => by_cases same : u = t <;> simp [placeOf, same]
  | free u => by_cases same : u = t <;> simp [placeOf, same]
  | _ => simp [placeOf]

theorem placeOf_eq_on {t : Tid} {mode : Mode} {x y : Option EventId} :
    placeOf t mode x = .on y ↔ mode = .thread t ∧ x = y := by
  cases mode with
  | enter u => by_cases same : u = t <;> simp [placeOf, same]
  | thread u => by_cases same : u = t <;> simp [placeOf, same]
  | free u => by_cases same : u = t <;> simp [placeOf, same]
  | _ => simp [placeOf]

section Places

variable (t : Tid) (mode : WorkerId → Mode) (woken : WorkerId → Option EventId) (w : WorkerId)

theorem places_update (m : Mode) (x : Option EventId) :
    (fun w' => placeOf t (Function.update mode w m w') (Function.update woken w x w')) =
      Function.update (fun w' => placeOf t (mode w') (woken w')) w (placeOf t m x) := by
  funext w'
  by_cases same : w' = w
  · simp [same]
  · simp [same]

theorem places_update_mode (m : Mode) :
    (fun w' => placeOf t (Function.update mode w m w') (woken w')) =
      Function.update (fun w' => placeOf t (mode w') (woken w')) w (placeOf t m (woken w)) := by
  funext w'
  by_cases same : w' = w
  · simp [same]
  · simp [same]

theorem places_update_woken (x : Option EventId) :
    (fun w' => placeOf t (mode w') (Function.update woken w x w')) =
      Function.update (fun w' => placeOf t (mode w') (woken w')) w (placeOf t (mode w) x) := by
  funext w'
  by_cases same : w' = w
  · simp [same]
  · simp [same]

end Places

end Libtcr
