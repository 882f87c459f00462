import Libtcr.FaultProperties
import Libtcr.WokenInvariant

/-! What `tc_waitq_finish_wait` finds when it was not the expected event that woke it. -/

set_option autoImplicit false

namespace Libtcr

open State

/-- A wait inside the condition of another wait leaves `tc_waitq_finish_wait` for a signal
alone, with its event on the event stack. -/
def State.nestedSignalOnlyExit (s : State) (a : Action) : Bool :=
  s.signalOnlyExit a && !(s.outerFrames a).isEmpty

/-- A subscription is cancelled while its event is `woken_by_event` of the worker of its
thread, which is inside a wait. -/
def State.cancelsWoken (s : State) (a : Action) : Prop :=
  ∃ w u n, a = .user w (.unsubscribe u n) ∧
    (∃ w', s.Owns w' u ∧ s.wokenByEvent w' = some (.sub u n)) ∧ ∃ f ∈ s.frames u, f.waits = true

/-- The step is neither of the two. -/
def State.keepsWoken (s : State) (a : Action) : Prop :=
  s.nestedSignalOnlyExit a = false ∧ ¬ s.cancelsWoken a

theorem State.keepsWoken.safe {s : State} {a : Action} {t : Tid} {kind : Kind}
    (keeps : s.keepsWoken a) (special : kind = .plain ∨ s.Special a t kind) :
    Safe t (s.view t) kind := by
  rintro n rfl ⟨w', placed⟩ f member
  rcases special with plain | ⟨w, k, cancels, equal⟩
  · cases plain
  · obtain rfl : n = k := by simpa using equal
    by_contra waits
    refine keeps.2 ⟨w, t, n, cancels, ⟨w', ?_⟩, f, member, by simpa using waits⟩
    rcases placed with entering | on
    · obtain ⟨mode, woken⟩ := placeOf_eq_entering.mp entering
      exact ⟨.inl mode, woken⟩
    · obtain ⟨mode, woken⟩ := placeOf_eq_on.mp on
      exact ⟨.inr mode, woken⟩

private theorem State.keepsWoken.pops {s : State} {a : Action} {t : Tid} {kind : Kind}
    (keeps : s.keepsWoken a) (special : kind = .plain ∨ s.Special a t kind) :
    kind ≠ .signalOnly true := by
  rintro rfl
  rcases special with plain | ⟨exits, nested⟩
  · cases plain
  · have outermost := keeps.1
    simp [nestedSignalOnlyExit, exits, ← nested] at outermost

theorem WokenInv.initial (workers : Nat) (domainOf : WorkerId → DomainId) (t : Tid) :
    WokenInv t ((State.initial workers domainOf).view t) := by
  refine ⟨fun w x on _ => ?_, fun w n _ waits => ?_⟩
  · obtain ⟨_, woken⟩ := placeOf_eq_on.mp on
    cases woken
  · obtain ⟨f, member, _⟩ := waits
    cases member

theorem WokenInv.run {workers : Nat} {domainOf : WorkerId → DomainId} {s : State}
    (run : Transition.Run State.step State.keepsWoken (.initial workers domainOf) s) (t : Tid) :
    WokenInv t (s.view t) ∧ ∃ base, StackInv base (s.view t) := by
  refine (SystemInv.initial workers domainOf).view_later run t
    (fun v => WokenInv t v ∧ ∃ base, StackInv base v) ?_ ?_
  · exact ⟨.initial workers domainOf t, none, rfl, trivial⟩
  · intro before a v v' kind _ keeps inv ⟨woken, base, stack⟩ special step
    have safe : Safe t v kind := by
      rcases special with rfl | ⟨rfl, special⟩
      · exact fun n plain => by cases plain
      · exact keeps.safe (.inr special)
    have pops : kind ≠ .signalOnly true := keeps.pops (special.imp_right And.right)
    exact ⟨step.wokenInv inv.thread inv.control woken safe, _, step.stackInv inv.thread stack pops⟩

/-- In a run in which no wait in the condition of another wait leaves its event on the event
stack, and no subscription is cancelled that has woken a wait: whenever
`tc_waitq_finish_wait` does not find what it expects, `woken_by_event` is the event of a live
subscription of its thread, and the call does not fail. -/
theorem finish_wait_finds_signal {workers : Nat} {domainOf : WorkerId → DomainId} {s : State}
    (run : Transition.Run State.step State.keepsWoken (.initial workers domainOf) s)
    {w : WorkerId} {t : Tid} {f : Frame} {rest : List Frame} (on : s.mode w = .thread t)
    (frames : s.frames t = f :: rest) (finishes : f.finishes = true)
    (unexpected : s.unexpected w t f.e = true) :
    (∃ n, s.wokenByEvent w = some (.sub t n) ∧ s.flags (.sub t n) = .signal ∧
        s.life (.sub t n) = .live) ∧
      ∀ fault, s.act (.advance w) ≠ some (.error fault) := by
  have inv := SystemInv.run run
  have thread := inv.thread t
  obtain ⟨woken, base, stack⟩ := WokenInv.run run t
  have view : (s.view t).frames = f :: rest := by simpa [State.view] using frames
  have placed : (s.view t).place w = .on (s.wokenByEvent w) := by simp [State.view, on]
  have onStack : f.pc.onStack = true := by
    rcases Bool.or_eq_true_iff.mp finishes with woke | holds
    · have pc : f.pc = .woke := of_decide_eq_true (Bool.and_eq_true_iff.mp woke).1
      simp [pc, Pc.onStack]
    · simp [of_decide_eq_true holds, Pc.onStack]
  have queue : f.call.isLeaf = false := by
    rcases Bool.or_eq_true_iff.mp finishes with woke | holds
    · simpa using (Bool.and_eq_true_iff.mp woke).2
    · have admits := (inv.control t).admits f rest view
      rw [of_decide_eq_true holds] at admits
      cases call : f.call <;> simp_all [Call.admits, Call.isLeaf]
  have top : s.eventStack t = some f.e := by
    simpa [State.view] using (stack.first view onStack).1
  obtain ⟨x, found, other⟩ : ∃ x, s.wokenByEvent w = some x ∧ x ≠ f.e := by
    cases found : s.wokenByEvent w with
    | none => simp [State.unexpected, top, found] at unexpected
    | some x => exact ⟨x, rfl, by simpa [State.unexpected, top, found] using unexpected⟩
  rw [found] at placed
  obtain ⟨n, rfl⟩ : ∃ n, x = .sub t n := by
    by_cases pc : f.pc = .woke
    · obtain ⟨y, equal, delivered⟩ := thread.delivered w _ f rest view (.inr ⟨placed, pc⟩)
      obtain rfl := Option.some.inj equal
      rcases delivered with ⟨own, _⟩ | ⟨sub, _⟩
      · exact absurd own other
      · exact sub
    · refine woken.signal w x placed fun g rest' equal => ?_
      obtain ⟨rfl, _⟩ := List.cons.inj (view.symm.trans equal)
      exact pc
  have live : s.life (.sub t n) = .live := by
    have waits : ∃ g ∈ (s.view t).frames, g.waits = true :=
      ⟨f, view ▸ .head _, by simp [Frame.waits, onStack, queue]⟩
    simpa [State.view] using woken.subscribed w n (.inr placed) waits
  have signal : s.flags (.sub t n) = .signal := by
    simpa [State.view] using thread.flagsSub n
  refine ⟨⟨n, found, signal, live⟩, fun fault failed => ?_⟩
  cases act_error inv failed with
  | finish w' u g rest' fault' _ _ _ _ cause =>
      rcases cause with ⟨_, null⟩ | ⟨x, equal, ⟨_, dead⟩ | ⟨_, event⟩⟩
      · simp [found] at null
      · obtain rfl := Option.some.inj (found.symm.trans equal)
        exact dead live
      · obtain rfl := Option.some.inj (found.symm.trans equal)
        exact event signal

def Action.unsubscribes : Action → Bool
  | .user _ (.unsubscribe _ _) => true
  | _ => false

set_option maxRecDepth 10000 in
/-- The condition of a wait calls `tc_sched_yield`, which is interrupted by a signal, and is
then true. -/
theorem finish_wait_finds_signal_condition :
    ∃ s, Transition.Run State.step State.keepsWoken (.initial 1 fun _ => 0) s ∧
      s.frames 0 = [⟨.cond 0, .auto 0 0, .holds, none⟩] ∧
      s.unexpected 0 0 (.auto 0 0) = true ∧
      ∃ n, s.wokenByEvent 0 = some (.sub 0 n) ∧ s.flags (.sub 0 n) = .signal ∧
        s.life (.sub 0 n) = .live := by
  obtain ⟨s, run, shown⟩ := run_of_exec 1 (fun _ => 0)
    (fun s a => !s.nestedSignalOnlyExit a && !a.unsubscribes)
    [.user 0 (.subscribe 0 0), .user 0 (.waitEventLoop 0 0), .advance 0, .user 0 (.fire 0),
      .user 0 (.yield 1), .advance 0, .advance 0, .leave 0, .runImmediate 0 .any, .enter 0,
      .advance 0, .condition 0 true]
    (fun s => s.mode 0 = .thread 0 ∧ s.frames 0 = [⟨.cond 0, .auto 0 0, .holds, none⟩] ∧
      s.unexpected 0 0 (.auto 0 0) = true) (by decide)
  obtain ⟨on, frames, unexpected⟩ := of_decide_eq_true shown
  have keeps : Transition.Run State.step State.keepsWoken (.initial 1 fun _ => 0) s := by
    refine run.mono fun before a allowed => ?_
    obtain ⟨outermost, other⟩ := Bool.and_eq_true_iff.mp allowed
    refine ⟨by simpa using outermost, ?_⟩
    rintro ⟨w, u, n, rfl, _⟩
    simp [Action.unsubscribes] at other
  exact ⟨s, keeps, frames, unexpected,
    (finish_wait_finds_signal keeps on frames rfl unexpected).1⟩

set_option maxRecDepth 10000 in
/-- In the condition of a wait, another wait is interrupted by a signal and leaves its event
on the event stack. After a `tc_sched_yield` that clears `woken_by_event` the condition is
true, and `tc_waitq_finish_wait` reads the flags of `NULL`. And if the condition cancels a
subscription that has interrupted a `tc_sched_yield` in it, those of a freed event. -/
theorem finish_wait_unexpected_event :
    (∃ s s', Reachable 1 (fun _ => 0) s ∧ s.mode 0 = .thread 0 ∧
        s.frames 0 = [⟨.cond 0, .auto 0 0, .holds, none⟩] ∧
        s.unexpected 0 0 (.auto 0 0) = true ∧ s.wokenByEvent 0 = none ∧
        s.step (.advance 0) = some s' ∧ s'.fault = some .nullWokenByEvent) ∧
      ∃ s s', Reachable 1 (fun _ => 0) s ∧ s.mode 0 = .thread 0 ∧
        s.frames 0 = [⟨.cond 0, .auto 0 0, .holds, none⟩] ∧
        s.unexpected 0 0 (.auto 0 0) = true ∧ s.wokenByEvent 0 = some (.sub 0 0) ∧
        s.life (.sub 0 0) = .dead ∧
        s.step (.advance 0) = some s' ∧ s'.fault = some .useAfterFree := by
  constructor
  · obtain ⟨s, reached, shown⟩ := reachable_of_exec 1 (fun _ => 0)
      [.user 0 (.subscribe 0 0), .user 0 (.waitEventLoop 0 0), .advance 0, .user 0 (.fire 0),
        .user 0 (.waitqWait 1 1), .advance 0, .leave 0, .runImmediate 0 .any, .enter 0, .advance 0,
        .user 0 (.yield 2), .advance 0, .advance 0, .leave 0, .runImmediate 0 .any, .enter 0,
        .advance 0, .condition 0 true]
      (fun s => (s.mode 0 = .thread 0 ∧ s.frames 0 = [⟨.cond 0, .auto 0 0, .holds, none⟩] ∧
          s.unexpected 0 0 (.auto 0 0) = true ∧ s.wokenByEvent 0 = none) &&
        (s.step (.advance 0)).any fun s' => s'.fault = some .nullWokenByEvent) (by decide)
    obtain ⟨before, after⟩ := Bool.and_eq_true_iff.mp shown
    obtain ⟨on, frames, unexpected, null⟩ := of_decide_eq_true before
    obtain ⟨s', stepped, fault⟩ := (Option.any_eq_true _ _).mp after
    exact ⟨s, s', reached, on, frames, unexpected, null, stepped, of_decide_eq_true fault⟩
  · obtain ⟨s, reached, shown⟩ := reachable_of_exec 1 (fun _ => 0)
      [.user 0 (.subscribe 0 0), .user 0 (.waitEventLoop 0 0), .advance 0, .user 0 (.fire 0),
        .user 0 (.yield 1), .advance 0, .advance 0, .leave 0, .runImmediate 0 .any, .enter 0,
        .advance 0, .user 0 (.unsubscribe 0 0), .condition 0 true]
      (fun s => (s.mode 0 = .thread 0 ∧ s.frames 0 = [⟨.cond 0, .auto 0 0, .holds, none⟩] ∧
          s.unexpected 0 0 (.auto 0 0) = true ∧ s.wokenByEvent 0 = some (.sub 0 0) ∧
          s.life (.sub 0 0) = .dead) &&
        (s.step (.advance 0)).any fun s' => s'.fault = some .useAfterFree) (by decide)
    obtain ⟨before, after⟩ := Bool.and_eq_true_iff.mp shown
    obtain ⟨on, frames, unexpected, woken, dead⟩ := of_decide_eq_true before
    obtain ⟨s', stepped, fault⟩ := (Option.any_eq_true _ _).mp after
    exact ⟨s, s', reached, on, frames, unexpected, woken, dead, stepped, of_decide_eq_true fault⟩

end Libtcr
