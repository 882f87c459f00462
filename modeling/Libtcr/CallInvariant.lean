import Libtcr.ThreadInvariantProperties

/-! An event object serves one call of one thread, from the beginning of its life to
its end. -/

set_option autoImplicit false

namespace Libtcr

/-- The event `e` was made for the call `call`, which may have returned. -/
structure MadeFor (v : View) (call : Call) (e : EventId) : Prop where
  used : v.life e ≠ .unused
  frame : v.life e = .live → ∃ f ∈ v.frames, f.e = e ∧ f.call = call

namespace ThreadInv

variable {t : Tid} {v : View}

theorem frame_unique (inv : ThreadInv t v) {f g : Frame} (first : f ∈ v.frames)
    (second : g ∈ v.frames) (same : f.e = g.e) : f = g :=
  List.inj_on_of_nodup_map inv.nodup first second same

theorem madeFor (inv : ThreadInv t v) {f : Frame} (member : f ∈ v.frames) :
    MadeFor v f.call f.e where
  used := by simp [(inv.frame f member).2]
  frame _ := ⟨f, member, rfl, rfl⟩

end ThreadInv

/-- The frames `after` are those of `before`, with program counters changed. -/
def SameCalls (before after : List Frame) : Prop :=
  ∀ g ∈ after, ∃ h ∈ before, h.e = g.e ∧ h.call = g.call

theorem SameCalls.refl (frames : List Frame) : SameCalls frames frames :=
  fun g member => ⟨g, member, rfl, rfl⟩

theorem SameCalls.tail {before : List Frame} {f : Frame} {rest : List Frame}
    (frames : before = f :: rest) : SameCalls before rest :=
  fun g member => ⟨g, frames ▸ .tail _ member, rfl, rfl⟩

theorem SameCalls.setTop {before : List Frame} {f g : Frame} {rest : List Frame}
    (frames : before = f :: rest) (same : f.e = g.e) (call : f.call = g.call) :
    SameCalls before (g :: rest) := by
  intro h member
  rcases List.mem_cons.mp member with rfl | below
  · exact ⟨f, frames ▸ .head _, same, call⟩
  · exact ⟨h, frames ▸ .tail _ below, rfl, rfl⟩

theorem ViewStep.calls {t : Tid} {v v' : View} {kind : Kind} (step : ViewStep t v kind v') :
    (∀ e, v.life e ≠ .unused → v'.life e ≠ .unused) ∧
      ∀ g ∈ v'.frames, (∃ h ∈ v.frames, h.e = g.e ∧ h.call = g.call) ∨ v.life g.e = .unused := by
  have kept : ∀ (e : EventId) (life : Life), life ≠ .unused →
      ∀ x, v.life x ≠ .unused → Function.update v.life e life x ≠ .unused := by
    intro e life used x before
    by_cases same : x = e
    · simpa [same] using used
    · simpa [same] using before
  have calls : ∀ {frames : List Frame}, SameCalls v.frames frames →
      ∀ g ∈ frames, (∃ h ∈ v.frames, h.e = g.e ∧ h.call = g.call) ∨ v.life g.e = .unused :=
    fun same g member => .inl (same g member)
  cases step with
  | wake _ _ => exact ⟨fun _ used => used, calls (.refl _)⟩
  | fire _ _ _ => exact ⟨fun _ used => used, calls (.refl _)⟩
  | grant _ _ _ _ => exact ⟨fun _ used => used, calls (.refl _)⟩
  | share _ _ _ _ _ => exact ⟨fun _ used => used, calls (.refl _)⟩
  | cancel _ _ => exact ⟨kept _ _ (by simp), calls (.refl _)⟩
  | born _ => exact ⟨kept _ _ (by simp), calls (.refl _)⟩
  | post _ _ => exact ⟨fun _ used => used, calls (.refl _)⟩
  | queue _ _ _ _ _ _ _ => exact ⟨fun _ used => used, calls (.refl _)⟩
  | selectSignal _ _ _ _ _ _ _ _ _ => exact ⟨fun _ used => used, calls (.refl _)⟩
  | selectEvent _ _ _ _ _ _ _ _ _ _ _ => exact ⟨fun _ used => used, calls (.refl _)⟩
  | reap _ _ _ _ _ _ => exact ⟨fun _ used => used, calls (.refl _)⟩
  | freed _ _ => exact ⟨kept _ _ (by simp), calls (.refl _)⟩
  | enter _ _ _ _ _ frames => exact ⟨fun _ used => used, calls (.setTop frames rfl rfl)⟩
  | start _ _ _ _ _ => exact ⟨fun _ used => used, calls (.refl _)⟩
  | begin w x n call pc _ unused _ =>
      refine ⟨kept _ _ (by simp), fun g member => ?_⟩
      rcases List.mem_cons.mp member with rfl | below
      · exact .inr unused
      · exact .inl ⟨g, below, rfl, rfl⟩
  | enqueue _ _ _ _ _ top _ _ _ => exact ⟨fun _ used => used, calls (.setTop top.2 rfl rfl)⟩
  | push _ _ _ _ top _ => exact ⟨fun _ used => used, calls (.setTop top.2 rfl rfl)⟩
  | prepare _ _ _ _ top _ _ => exact ⟨fun _ used => used, calls (.setTop top.2 rfl rfl)⟩
  | turn _ _ _ _ _ top _ => exact ⟨fun _ used => used, calls (.setTop top.2 rfl rfl)⟩
  | acquire _ _ _ _ _ top _ _ _ => exact ⟨fun _ used => used, calls (.setTop top.2 rfl rfl)⟩
  | refused _ _ _ _ _ top _ _ => exact ⟨kept _ _ (by simp), calls (.tail top.2)⟩
  | returnPlain _ _ _ _ _ top _ _ _ => exact ⟨kept _ _ (by simp), calls (.tail top.2)⟩
  | returnLocked _ _ _ _ _ top _ _ _ => exact ⟨kept _ _ (by simp), calls (.tail top.2)⟩
  | sleep _ _ _ _ top _ _ => exact ⟨fun _ used => used, calls (.setTop top.2 rfl rfl)⟩
  | resumeEvent _ _ _ _ _ top _ _ _ _ _ =>
      exact ⟨fun _ used => used, calls (.setTop top.2 rfl rfl)⟩
  | resumeSignal _ _ _ _ _ top _ _ _ _ =>
      exact ⟨fun _ used => used, calls (.setTop top.2 rfl rfl)⟩
  | finishExpected _ _ _ _ top _ _ _ _ =>
      exact ⟨fun _ used => used, calls (.setTop top.2 rfl rfl)⟩
  | finishRequeue _ _ _ _ top _ _ _ _ _ _ =>
      exact ⟨fun _ used => used, calls (.setTop top.2 rfl rfl)⟩
  | finishIgnored _ _ _ _ top _ _ _ _ _ _ _ => exact ⟨kept _ _ (by simp), calls (.tail top.2)⟩
  | finishIntr _ _ _ _ top _ _ _ _ _ _ => exact ⟨kept _ _ (by simp), calls (.tail top.2)⟩
  | leafDone _ _ _ _ top _ _ _ => exact ⟨kept _ _ (by simp), calls (.tail top.2)⟩
  | leafIntr _ _ _ _ _ top _ _ _ _ _ => exact ⟨kept _ _ (by simp), calls (.tail top.2)⟩
  | subscribe _ _ _ _ _ _ => exact ⟨kept _ _ (by simp), calls (.refl _)⟩
  | trylock _ _ _ _ _ => exact ⟨fun _ used => used, calls (.refl _)⟩
  | unlock _ _ _ _ _ _ _ _ => exact ⟨fun _ used => used, calls (.refl _)⟩
  | dying _ _ _ _ _ _ => exact ⟨fun _ used => used, calls (.refl _)⟩
  | postExit _ _ _ _ _ _ => exact ⟨fun _ used => used, calls (.refl _)⟩
  | exitMain _ _ _ _ => exact ⟨fun _ used => used, calls (.refl _)⟩

theorem ViewStep.madeFor {t : Tid} {v v' : View} {kind : Kind} (step : ViewStep t v kind v')
    (inv : ThreadInv t v) {call : Call} {n : Nat} (made : MadeFor v call (.auto t n)) :
    MadeFor v' call (.auto t n) := by
  have inv' := step.threadInv inv
  obtain ⟨used, calls⟩ := step.calls
  refine ⟨used _ made.used, fun live => ?_⟩
  obtain ⟨g, member, equal⟩ := inv'.autoLive n live
  rcases calls g member with ⟨h, before, same, calls⟩ | unused
  · obtain ⟨f, first, e, call⟩ := made.frame (equal ▸ same ▸ (inv.frame h before).2)
    obtain rfl := inv.frame_unique first before (e.trans (equal.symm.trans same.symm))
    exact ⟨g, member, equal, calls.symm.trans call⟩
  · exact absurd (equal ▸ unused) made.used

/-- An event whose life has ended stays so, with the result of its call, and before the
end of its life there is no result. -/
theorem ViewStep.results {t : Tid} {v v' : View} {kind : Kind} (step : ViewStep t v kind v')
    (inv : ThreadInv t v) (n : Nat) :
    (v'.life (.auto t n) = v.life (.auto t n) ∨ v.life (.auto t n) = .unused) ∧
        v'.result (.auto t n) = v.result (.auto t n) ∨
      v.life (.auto t n) = .live ∧ v'.life (.auto t n) = .dead := by
  have ends : ∀ {f : Frame} {rest : List Frame}, v.frames = f :: rest →
      ∀ (result : Rv),
      (Function.update v.life f.e .dead (.auto t n) = v.life (.auto t n) ∨
          v.life (.auto t n) = .unused) ∧
        Function.update v.result f.e (some result) (.auto t n) = v.result (.auto t n) ∨
      v.life (.auto t n) = .live ∧ Function.update v.life f.e .dead (.auto t n) = .dead := by
    intro f rest frames result
    have live := (inv.frame f (frames ▸ .head _)).2
    by_cases same : EventId.auto t n = f.e
    · rw [same, Function.update_self]
      exact .inr ⟨live, rfl⟩
    · rw [Function.update_of_ne same, Function.update_of_ne same]
      exact .inl ⟨.inl rfl, rfl⟩
  cases step with
  | cancel k _ => exact .inl ⟨.inl (by simp), rfl⟩
  | born _ => exact .inl ⟨.inl (by simp), rfl⟩
  | freed _ _ => exact .inl ⟨.inl (by simp), rfl⟩
  | begin w x k call pc _ unused _ =>
      refine .inl ⟨?_, rfl⟩
      by_cases same : n = k
      · exact .inr (same ▸ unused)
      · exact .inl (by simp [same])
  | subscribe _ _ k _ _ _ => exact .inl ⟨.inl (by simp), rfl⟩
  | refused _ _ _ _ rv top _ _ => exact ends top.2 rv
  | returnPlain _ _ _ _ rv top _ _ _ => exact ends top.2 rv
  | returnLocked _ _ _ _ _ top _ _ _ => exact ends top.2 .ok
  | finishIgnored _ _ _ _ top _ _ _ _ _ _ _ => exact ends top.2 .ok
  | finishIntr _ _ _ _ top _ _ _ _ _ _ => exact ends top.2 .intr
  | leafDone _ _ _ rv top _ _ _ => exact ends top.2 rv
  | leafIntr _ _ _ _ _ top _ _ _ _ _ => exact ends top.2 .intr
  | _ => exact .inl ⟨.inl rfl, rfl⟩

def Unreturned (t : Tid) (v : View) : Prop :=
  ∀ n, v.life (.auto t n) ≠ .dead → v.result (.auto t n) = none

theorem ViewStep.unreturned {t : Tid} {v v' : View} {kind : Kind} (step : ViewStep t v kind v')
    (inv : ThreadInv t v) (before : Unreturned t v) : Unreturned t v' := by
  intro n lives
  rcases step.results inv n with ⟨same | unused, result⟩ | ⟨_, ended⟩
  · exact result.trans (before n (same ▸ lives))
  · exact result.trans (before n (by simp [unused]))
  · exact absurd ended lives

theorem ViewStep.returned {t : Tid} {v v' : View} {kind : Kind} (step : ViewStep t v kind v')
    (inv : ThreadInv t v) {n : Nat} (ended : v.life (.auto t n) = .dead) :
    v'.life (.auto t n) = .dead ∧ v'.result (.auto t n) = v.result (.auto t n) := by
  rcases step.results inv n with ⟨same | unused, result⟩ | ⟨live, _⟩
  · exact ⟨same.trans ended, result⟩
  · simp [ended] at unused
  · simp [ended] at live

end Libtcr
