import Libtcr.WorkersProperties
import Mathlib.Data.Int.CardIntervalMod

/-! The CPUs of the workers: `tc_worker_init` binds its pthread to one of the available CPUs, by the
number that it draws, and marks its spin locks with the place of that CPU among them. All domains
have the same `available_cpus`. -/

set_option autoImplicit false

namespace Libtcr

def cpuSetsize : Nat := 1024

def cpuCount (available : Nat → Bool) : Nat := Nat.count (fun ci => available ci = true) cpuSetsize

/-- The loop of `tc_worker_init`, with `rest` turns to go. -/
def findCpu (available : Nat → Bool) (myCpu : Nat) : Nat → Nat → Nat → Option Nat
  | 0, _, _ => none
  | rest + 1, ci, cpusSeen =>
    if available ci then
      if cpusSeen = myCpu then some ci
      else findCpu available myCpu rest (ci + 1) (cpusSeen + 1)
    else findCpu available myCpu rest (ci + 1) cpusSeen

/-- `my_cpu` of the worker with number `i`, which is also the `cpu` of its spin locks. -/
def myCpu (available : Nat → Bool) (i : Nat) : Nat := i % cpuCount available

/-- The CPU of the worker with number `i`; `none` is `msg_exit(1, "could not find my CPU\n")`. -/
def workerCpu (available : Nat → Bool) (i : Nat) : Option Nat :=
  findCpu available (myCpu available i) cpuSetsize 0 0

section Loop

variable {available : Nat → Bool} {n rest ci cpu i j : Nat}

private theorem findCpu_found
    (found : findCpu available n rest ci (Nat.count (available · = true) ci) =
    some cpu) : available cpu = true ∧ Nat.count (available · = true) cpu = n := by
  induction rest generalizing ci with
  | zero => cases found
  | succ rest ih =>
      simp only [findCpu] at found
      split at found
      · next here =>
        split at found
        · next seen =>
          cases found
          exact ⟨here, seen⟩
        · apply ih
          rwa [Nat.count_succ, if_pos here]
      · next absent =>
        apply ih
        rwa [Nat.count_succ, if_neg absent]

private theorem findCpu_exists (more : n < Nat.count (available · = true) (ci + rest))
    (seen : Nat.count (available · = true) ci ≤ n) :
    ∃ cpu, findCpu available n rest ci (Nat.count (available · = true) ci) = some cpu := by
  induction rest generalizing ci with
  | zero =>
      rw [Nat.add_zero] at more
      omega
  | succ rest ih =>
      have later : n < Nat.count (available · = true) (ci + 1 + rest) := by
        rwa [Nat.add_assoc, Nat.add_comm 1 rest]
      have count := Nat.count_succ (p := (available · = true)) ci
      simp only [findCpu]
      split
      · next here =>
        rw [if_pos here] at count
        split
        · exact ⟨ci, rfl⟩
        · rw [← count]
          exact ih later (by omega)
      · next absent =>
        rw [if_neg absent] at count
        have same := count.trans (Nat.add_zero _)
        rw [← same]
        exact ih later (by omega)

private theorem exists_workerCpu (nonempty : 0 < cpuCount available) (i : Nat) :
    ∃ cpu, workerCpu available i = some cpu := by
  have below : myCpu available i < cpuCount available := Nat.mod_lt i nonempty
  rw [cpuCount, ← Nat.zero_add cpuSetsize] at below
  simpa [workerCpu] using findCpu_exists below (by simp)

private theorem workerCpu_spec (found : workerCpu available i = some cpu) :
    available cpu = true ∧ Nat.count (available · = true) cpu = myCpu available i := by
  have start : findCpu available (myCpu available i) cpuSetsize 0
      (Nat.count (available · = true) 0) = some cpu := by
    rwa [Nat.count_zero]
  exact findCpu_found start

private theorem workerCpu_eq_iff (nonempty : 0 < cpuCount available) (here : available cpu = true) :
    workerCpu available i = some cpu ↔
      Nat.count (available · = true) cpu = myCpu available i := by
  obtain ⟨cpu', found⟩ := exists_workerCpu nonempty i
  obtain ⟨here', place⟩ := workerCpu_spec found
  constructor
  · exact fun found => (workerCpu_spec found).2
  · intro same
    rw [found, Nat.count_injective here' here (place.trans same.symm)]

/-- Two workers have the same mark in their spin locks if and only if they share a CPU. -/
theorem myCpu_eq_iff (nonempty : 0 < cpuCount available) :
    myCpu available i = myCpu available j ↔ workerCpu available i = workerCpu available j := by
  obtain ⟨cpu, found⟩ := exists_workerCpu nonempty i
  obtain ⟨here, place⟩ := workerCpu_spec found
  rw [found, eq_comm (a := some cpu), workerCpu_eq_iff nonempty here, place]

end Loop

/-! ## The workers of all domains -/

namespace WorkerState

/-- Every number below the counter has been drawn. -/
def Drawn (s : WorkerState) : Prop := ∀ k < s.pthreadCounter, ∃ p, s.nr p = some k

private theorem step_nr {availCpu : Nat} {s s' : WorkerState} {a : WorkerAction}
    (stepped : s.step availCpu a = some s') :
    (s'.nr = s.nr ∧ s'.pthreadCounter = s.pthreadCounter) ∨
      ∃ p, s.nr p = none ∧ s'.nr = Function.update s.nr p (some s.pthreadCounter) ∧
        s'.pthreadCounter = s.pthreadCounter + 1 := by
  cases a with
  | tcWorkerInit p =>
      simp only [step] at stepped
      split at stepped
      · cases stepped
        unfold tcWorkerInit
        split
        · exact .inl ⟨rfl, rfl⟩
        · next unnumbered => exact .inr ⟨p, unnumbered, rfl, rfl⟩
      · cases stepped
  | tcRunReturns k =>
      simp only [step] at stepped
      split at stepped
      · cases stepped
        exact .inl ⟨rfl, rfl⟩
      · cases stepped
  | switchTo p pool i =>
      simp only [step] at stepped
      split at stepped
      · cases stepped
        exact .inl ⟨rfl, rfl⟩
      · cases stepped
  | _ =>
      simp only [step] at stepped
      split at stepped
      · cases stepped
        exact .inl ⟨rfl, rfl⟩
      · cases stepped

theorem Drawn.step {availCpu : Nat} {s s' : WorkerState} {a : WorkerAction} (drawn : s.Drawn)
    (stepped : s.step availCpu a = some s') : s'.Drawn := by
  intro k below
  rcases step_nr stepped with ⟨nr, counter⟩ | ⟨p, unnumbered, nr, counter⟩
  · rw [counter] at below
    rw [nr]
    exact drawn k below
  · rw [counter] at below
    rw [nr]
    rcases Nat.lt_succ_iff_lt_or_eq.mp below with old | rfl
    · obtain ⟨q, has⟩ := drawn k old
      have other : q ≠ p := by
        rintro rfl
        simp [unnumbered] at has
      exact ⟨q, (Function.update_of_ne other _ _).trans has⟩
    · exact ⟨p, Function.update_self ..⟩

end WorkerState

section Placement

variable {available : Nat → Bool} {s : WorkerState} {cpu : Nat}

theorem WorkerInv.run {ok : WorkerState → WorkerAction → Prop}
    (run : WorkerRun (cpuCount available) ok s) : WorkerInv (fun _ => False) s ∧ s.Drawn := by
  apply Transition.Run.invariant run (fun s => WorkerInv (fun _ => False) s ∧ s.Drawn)
  · exact ⟨.initial _, fun k below => absurd below (Nat.not_lt_zero k)⟩
  · intro before after a both _ stepped
    exact ⟨both.1.step (fun _ => False.elim) stepped, both.2.step stepped⟩

private theorem WorkerInv.ncard_nr {fit : DomainId → Prop} (inv : WorkerInv fit s) (drawn : s.Drawn)
    (holds : Nat → Prop) [DecidablePred holds] :
    {p | ∃ i, s.nr p = some i ∧ holds i}.ncard = Nat.count holds s.pthreadCounter := by
  have inhabited : Nonempty Pthread := ⟨.app 0⟩
  choose! p number using drawn
  have image : {p | ∃ i, s.nr p = some i ∧ holds i} =
      p '' ((Finset.range s.pthreadCounter).filter holds : Finset Nat) := by
    ext q
    simp only [Set.mem_ofPred_eq, Set.mem_image, Finset.mem_coe, Finset.mem_filter, Finset.mem_range]
    constructor
    · intro ⟨i, has, good⟩
      have below := inv.drawn q i has
      exact ⟨i, ⟨below, good⟩, inv.distinct _ _ i (number i below) has⟩
    · intro ⟨i, ⟨below, good⟩, same⟩
      exact ⟨i, same ▸ number i below, good⟩
  rw [image, Set.InjOn.ncard_image, Set.ncard_coe_finset, Nat.count_eq_card_filter_range]
  intro i first j second same
  simp only [Finset.mem_coe, Finset.mem_filter, Finset.mem_range] at first second
  have both := (number i first.1).symm.trans (same ▸ number j second.1)
  exact Option.some.inj both

end Placement

/-- Whatever domains are made and in whatever order their pthreads get to `tc_worker_init`, every
worker gets a CPU, the workers are spread over the available CPUs as evenly as possible, and the
marks in their spin locks are equal for those on one CPU only. -/
theorem workers_spread {available : Nat → Bool} {s : WorkerState}
    (nonempty : 0 < cpuCount available)
    (run : WorkerRun (cpuCount available) Transition.always s) :
    (∀ p i, s.nr p = some i → ∃ cpu, workerCpu available i = some cpu ∧ available cpu = true) ∧
    (∀ cpu, cpu < cpuSetsize → available cpu = true →
      {p | ∃ i, s.nr p = some i ∧ workerCpu available i = some cpu}.ncard =
        s.pthreadCounter / cpuCount available +
          if Nat.count (available · = true) cpu < s.pthreadCounter % cpuCount available then 1
          else 0) ∧
    ∀ p q i j, s.nr p = some i → s.nr q = some j →
      (myCpu available i = myCpu available j ↔ workerCpu available i = workerCpu available j) := by
  obtain ⟨inv, drawn⟩ := WorkerInv.run run
  refine ⟨fun p i _ => ?_, fun cpu below here => ?_, fun p q i j _ _ => myCpu_eq_iff nonempty⟩
  · obtain ⟨cpu, found⟩ := exists_workerCpu nonempty i
    exact ⟨cpu, found, (workerCpu_spec found).1⟩
  · have place : Nat.count (available · = true) cpu < cpuCount available :=
      Nat.count_strict_mono here below
    have same : ∀ i, workerCpu available i = some cpu ↔
        i ≡ Nat.count (available · = true) cpu [MOD cpuCount available] := by
      intro i
      rw [workerCpu_eq_iff nonempty here, Nat.ModEq, Nat.mod_eq_of_lt place, eq_comm]
      rfl
    simp only [same]
    rw [inv.ncard_nr drawn, Nat.count_modEq_card _ nonempty, Nat.mod_eq_of_lt place]

def oddCpus (ci : Nat) : Bool := ci == 1 || ci == 3

def threeWorkers : List WorkerAction :=
  [.tcRun 0 3, .tcWorkerInit (.worker 0 2), .tcWorkerInit (.app 0), .tcWorkerInit (.worker 0 1)]

theorem workers_spread_three : ∃ s, WorkerRun (cpuCount oddCpus) Transition.always s ∧
    s.pthreadCounter = 3 ∧
    {p | ∃ i, s.nr p = some i ∧ workerCpu oddCpus i = some 1}.ncard = 2 ∧
    {p | ∃ i, s.nr p = some i ∧ workerCpu oddCpus i = some 3}.ncard = 1 := by
  have count : cpuCount oddCpus = 2 := by decide +kernel
  obtain ⟨s, run, shown⟩ := Transition.exists_run (WorkerState.step 2) .initial threeWorkers
    (fun s => decide (s.pthreadCounter = 3)) (by decide)
  rw [← count] at run
  have counter : s.pthreadCounter = 3 := of_decide_eq_true shown
  obtain ⟨_, spread, _⟩ := workers_spread (by rw [count]; decide) run
  refine ⟨s, run, counter, ?_, ?_⟩
  · rw [spread 1 (by decide) rfl, counter, count]
    decide
  · rw [spread 3 (by decide) rfl, counter, count]
    decide

end Libtcr
