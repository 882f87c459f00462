import Libtcr.MatchingProperties

/-! Which reports wake somebody. The kernel is armed with all the bits that the waiters have passed
to `tc_wait_fd`, while `matching_event` looks at `EPOLLIN` and `EPOLLOUT` only. -/

set_option autoImplicit false

namespace Libtcr

def EPOLLPRI : Mask := 0x002

/-- Bits that are reported and that the waiter has asked for; `EPOLLONESHOT` gets added to every
mask. -/
def Mask.common (em asked : Mask) : Mask := em &&& asked &&& ~~~EPOLLONESHOT

section Answers

variable {α : Type} [DecidableEq α] {inn out ew : Option α}

private theorem exits_returns (found : inn ≠ none ∨ out ≠ none) :
    ∃ x, (exits inn out ew).2 = some x := by
  cases ew with
  | some x => exact ⟨x, rfl⟩
  | none =>
      cases inn with
      | some x =>
          cases out with
          | some y => exact ⟨y, rfl⟩
          | none => exact ⟨x, rfl⟩
      | none =>
          cases out with
          | some y => exact ⟨y, rfl⟩
          | none => simp at found

omit [DecidableEq α] in
private theorem found_ne_none {asks priority here : α → Bool} {es : List α} {x : α}
    (member : x ∈ es) (asked : asks x = true) : found asks priority here true none es ≠ none := by
  intro none
  simp only [found, if_true, Option.or_eq_none_iff] at none
  have plain : es.find? asks = .none := none.2.2.2
  simpa [asked] using List.find?_eq_none.mp plain x member

omit [DecidableEq α] in
private theorem common_of_bit {em asked : Mask} {k : Nat} (other : EPOLLONESHOT.getLsbD k = false)
    (small : k < 32) (reported : em.getLsbD k = true) (wanted : asked.getLsbD k = true) :
    em.common asked ≠ 0 := by
  intro zero
  have bit : (em.common asked).getLsbD k = true := by
    rw [Mask.common, BitVec.getLsbD_and, BitVec.getLsbD_and, BitVec.getLsbD_not, reported, wanted,
      other]
    simp [small]
  rw [zero] at bit
  simp at bit

private theorem Mask.common_of_in {em asked : Mask} (reported : em.has EPOLLIN = true)
    (wanted : asked.has EPOLLIN = true) : em.common asked ≠ 0 := by
  rw [Mask.has_in] at reported wanted
  exact common_of_bit (by decide) (by decide) reported wanted

private theorem Mask.common_of_out {em asked : Mask} (reported : em.has EPOLLOUT = true)
    (wanted : asked.has EPOLLOUT = true) : em.common asked ≠ 0 := by
  rw [Mask.has_out] at reported wanted
  exact common_of_bit (by decide) (by decide) reported wanted

variable (epEvents : α → Mask) (priority here : α → Bool) (em : Mask) (es : List α)

/-- If a waiter has asked for something that is reported, one that has is returned. -/
def Answers : Prop :=
  (∃ e ∈ es, em.common (epEvents e) ≠ 0) → ∃ x ∈ es,
    (matchingEvent epEvents priority here em es).2 = some x ∧ em.common (epEvents x) ≠ 0

omit [DecidableEq α] in
/-- Some waiter has asked for `EPOLLIN` or `EPOLLOUT`, and it is reported. -/
def Directed : Prop :=
  ∃ e ∈ es, (em.has EPOLLIN && (epEvents e).has EPOLLIN) = true ∨
    (em.has EPOLLOUT && (epEvents e).has EPOLLOUT) = true

variable {epEvents priority here em es}

private theorem matchingEvent_directed {x : α}
    (returned : (matchingEvent epEvents priority here em es).2 = some x) :
    (em.has EPOLLIN && (epEvents x).has EPOLLIN) = true ∨
      (em.has EPOLLOUT && (epEvents x).has EPOLLOUT) = true := by
  rw [matchingEvent_eq] at returned
  rcases exits_mem (.inr returned) with inn | out | own
  · obtain ⟨reported, asked, _⟩ := found_asks inn
    exact .inl (by simp [reported, asked])
  · obtain ⟨reported, asked, _⟩ := found_asks out
    exact .inr (by simp [reported, asked])
  · simpa using asks_of_reached (reached_of_own own)

theorem Directed.returns (directed : Directed epEvents em es) :
    ∃ x, (matchingEvent epEvents priority here em es).2 = some x := by
  obtain ⟨e, member, asked⟩ := directed
  rw [matchingEvent_eq]
  apply exits_returns
  rcases asked with inn | out
  · rw [Bool.and_eq_true] at inn
    rw [inn.1]
    exact .inl (found_ne_none member inn.2)
  · rw [Bool.and_eq_true] at out
    rw [out.1]
    exact .inr (found_ne_none member out.2)

variable (epEvents priority here em es)

/-- A report is answered if and only if a reported direction is asked for, or nothing that is
reported is asked for. -/
theorem matchingEvent_answers_iff : Answers epEvents priority here em es ↔
    Directed epEvents em es ∨ ∀ e ∈ es, em.common (epEvents e) = 0 := by
  constructor
  · intro answers
    by_cases asked : ∃ e ∈ es, em.common (epEvents e) ≠ 0
    · obtain ⟨x, member, returned, _⟩ := answers asked
      exact .inl ⟨x, member, matchingEvent_directed returned⟩
    · simp only [not_exists, not_and, not_not] at asked
      exact .inr asked
  · intro condition asked
    rcases condition with directed | nobody
    · obtain ⟨x, returned⟩ := directed.returns
      refine ⟨x, matchingEvent_mem (.inr returned), returned, ?_⟩
      rcases matchingEvent_directed returned with inn | out
      · rw [Bool.and_eq_true] at inn
        exact Mask.common_of_in inn.1 inn.2
      · rw [Bool.and_eq_true] at out
        exact Mask.common_of_out out.1 out.2
    · obtain ⟨e, member, common⟩ := asked
      exact absurd (nobody e member) common

end Answers

/-- A thread waits for `EPOLLPRI`, which is reported, and nobody is woken: the scheduler arms the
file descriptor again. -/
theorem report_without_answer : ∃ s, Reachable 1 (fun _ => 0) s ∧
    s.events (.fd 0) = [.auto 0 0] ∧ s.epEvents (.auto 0 0) = EPOLLPRI ||| EPOLLONESHOT ∧
    EPOLLPRI &&& (EPOLLERR ||| EPOLLHUP) = 0 ∧
    ¬ Answers s.epEvents (fun e => s.flags e = .priority) (s.here 0) EPOLLPRI (s.events (.fd 0)) := by
  obtain ⟨s, reached, ended⟩ := reachable_of_exec 1 (fun _ => 0)
    [.user 0 (.waitFd 0 0 EPOLLPRI false true)]
    (fun s => s.events (.fd 0) = [.auto 0 0] && s.epEvents (.auto 0 0) = EPOLLPRI ||| EPOLLONESHOT &&
      matchingEvent s.epEvents (fun e => s.flags e = .priority) (s.here 0) EPOLLPRI
        (s.events (.fd 0)) = (none, none)) (by decide)
  simp only [Bool.and_eq_true, decide_eq_true_eq] at ended
  obtain ⟨⟨list, mask⟩, choice⟩ := ended
  refine ⟨s, reached, list, mask, by decide, fun answers => ?_⟩
  obtain ⟨x, _, returned, _⟩ := answers ⟨.auto 0 0, by simp [list], by rw [mask]; decide⟩
  rw [choice] at returned
  cases returned

end Libtcr
