import Libtcr.WorkersProperties

/-! The pthreads of `tc_run`: `_setup_domain` decides how many workers there are and allocates
`pthreads`, `start_pthreads` creates them, and `tc_run` joins them at its end. -/

set_option autoImplicit false

namespace Libtcr

/-- What an element of `pthreads` is set to: the pthread that calls `tc_run`, or one of those that
have been created, by their order. -/
inductive RunThread where
  | self
  | made (k : Nat)
  deriving DecidableEq, Repr

inductive RunFault where
  | outOfBounds
  | notSet
  deriving DecidableEq, Repr

structure RunState where
  nrOfWorkers : Nat
  /-- `n_d->pthreads`; `none` for an element that has not been set. -/
  pthreads : List (Option RunThread)
  created : List RunThread
  joined : List RunThread
  deriving DecidableEq, Repr

namespace RunState

/-- `_setup_domain`. The parameter `nr_of_workers` is assigned to there, which its caller does not
see. -/
def setupDomain (availCpu : Nat) (nrOfWorkers : Int) : RunState where
  nrOfWorkers := setupWorkers availCpu nrOfWorkers
  pthreads := List.replicate (setupWorkers availCpu nrOfWorkers) none
  created := []
  joined := []

/-- `n_d->pthreads[i] = p`. -/
def setPthread (s : RunState) (i : Nat) (p : RunThread) : Except RunFault RunState :=
  if i < s.pthreads.length then .ok { s with pthreads := s.pthreads.set i (some p) }
  else .error .outOfBounds

/-- `pthread_create(n_d->pthreads + i, ...)`, which succeeds. -/
def pthreadCreate (s : RunState) (i : Nat) : Except RunFault RunState :=
  match s.setPthread i (.made s.created.length) with
  | .error fault => .error fault
  | .ok s' => .ok { s' with created := s.created ++ [.made s.created.length] }

/-- The turns of the loop of `start_pthreads` from `i` on; `left` of them are left. -/
def createLoop (s : RunState) (i : Nat) : Nat → Except RunFault RunState
  | 0 => .ok s
  | left + 1 =>
    match s.pthreadCreate i with
    | .error fault => .error fault
    | .ok s' => s'.createLoop (i + 1) left

def startPthreads (s : RunState) (reusePthread : Bool) : Except RunFault RunState :=
  if reusePthread then
    match s.setPthread 0 .self with
    | .error fault => .error fault
    | .ok s' => s'.createLoop 1 (s'.nrOfWorkers - 1)
  else s.createLoop 0 s.nrOfWorkers

/-- `pthread_join(n_d->pthreads[i], NULL)`. -/
def pthreadJoin (s : RunState) (i : Nat) : Except RunFault RunState :=
  match s.pthreads[i]? with
  | none => .error .outOfBounds
  | some none => .error .notSet
  | some (some p) => .ok { s with joined := s.joined ++ [p] }

def joinLoop (s : RunState) (i : Nat) : Nat → Except RunFault RunState
  | 0 => .ok s
  | left + 1 =>
    match s.pthreadJoin i with
    | .error fault => .error fault
    | .ok s' => s'.joinLoop (i + 1) left

end RunState

/-- `tc_run` with its argument `nr_of_workers`, which is also the bound of its last loop. -/
def tcRun (availCpu : Nat) (nrOfWorkers : Int) : Except RunFault RunState :=
  match (RunState.setupDomain availCpu nrOfWorkers).startPthreads true with
  | .error fault => .error fault
  | .ok s => s.joinLoop 1 (nrOfWorkers - 1).toNat

/-- `tc_run` joins the pthreads that it has created, and no others. -/
def JoinsAll (availCpu : Nat) (nrOfWorkers : Int) : Prop :=
  ∃ s, tcRun availCpu nrOfWorkers = .ok s ∧ 1 ≤ s.nrOfWorkers ∧ ∀ p, p ∈ s.created ↔ p ∈ s.joined

namespace RunState

variable {s : RunState} {i left : Nat}

/-- The loop creates one pthread for each element from `i` on, as long as there are elements. -/
theorem createLoop_ok (room : i + left ≤ s.pthreads.length) :
    ∃ s', s.createLoop i left = .ok s' ∧ s'.nrOfWorkers = s.nrOfWorkers ∧ s'.joined = s.joined ∧
      s'.created = s.created ++ (List.range' s.created.length left).map .made ∧
      s'.pthreads.length = s.pthreads.length ∧
      ∀ j, s'.pthreads[j]? = if i ≤ j ∧ j < i + left then
        some (some (.made (s.created.length + (j - i)))) else s.pthreads[j]? := by
  induction left generalizing s i with
  | zero =>
      refine ⟨s, rfl, rfl, rfl, by simp, rfl, fun j => ?_⟩
      rw [if_neg (by omega)]
  | succ left ih =>
      have inside : i < s.pthreads.length := by omega
      have first : s.pthreadCreate i = .ok { s with
          pthreads := s.pthreads.set i (some (.made s.created.length))
          created := s.created ++ [.made s.created.length] } := by
        simp [pthreadCreate, setPthread, inside]
      obtain ⟨s', looped, workers, joined, created, length, elements⟩ := ih (i := i + 1) (s := { s with
        pthreads := s.pthreads.set i (some (.made s.created.length))
        created := s.created ++ [.made s.created.length] }) (by simpa using by omega)
      refine ⟨s', by simp only [createLoop, first, looped], workers, joined, ?_, ?_, fun j => ?_⟩
      · rw [created]
        simp [List.range'_succ]
      · simpa using length
      · rw [elements]
        simp only [List.length_append, List.length_cons, List.length_nil, List.getElem?_set]
        by_cases here : j = i
        · subst here
          rw [if_neg (by omega), if_pos (by omega)]
          simp [inside]
        · rw [if_neg (Ne.symm here)]
          by_cases later : i + 1 ≤ j ∧ j < i + 1 + left
          · have index : s.created.length + (0 + 1) + (j - (i + 1)) = s.created.length + (j - i) := by
              omega
            rw [if_pos later, if_pos (by omega), index]
          · rw [if_neg later, if_neg (by omega)]

private theorem joinLoop_ok {f : Nat → RunThread}
    (set : ∀ j, i ≤ j → j < i + left → s.pthreads[j]? = some (some (f j))) :
    s.joinLoop i left = .ok { s with joined := s.joined ++ (List.range' i left).map f } := by
  induction left generalizing s i with
  | zero => simp [joinLoop]
  | succ left ih =>
      have first : s.pthreadJoin i = .ok { s with joined := s.joined ++ [f i] } := by
        simp [pthreadJoin, set i (Nat.le_refl i) (by omega)]
      have rest := ih (i := i + 1) (s := { s with joined := s.joined ++ [f i] })
        (fun j low high => set j (by omega) (by omega))
      simp only [joinLoop, first, rest, List.range'_succ, List.map_cons, List.append_assoc,
        List.cons_append, List.nil_append]

private theorem startPthreads_ok (availCpu : Nat) (nrOfWorkers : Int) :
    ∃ s, (setupDomain availCpu nrOfWorkers).startPthreads true = .ok s ∧
      s.nrOfWorkers = setupWorkers availCpu nrOfWorkers ∧ s.joined = [] ∧
      s.created = (List.range (setupWorkers availCpu nrOfWorkers - 1)).map .made ∧
      ∀ j, 1 ≤ j → j < setupWorkers availCpu nrOfWorkers →
        s.pthreads[j]? = some (some (.made (j - 1))) := by
  have positive := setupWorkers_pos availCpu nrOfWorkers
  generalize count : setupWorkers availCpu nrOfWorkers = n at positive
  have first : (setupDomain availCpu nrOfWorkers).setPthread 0 .self = .ok
      ⟨n, (List.replicate n none).set 0 (some .self), [], []⟩ := by
    simp [setPthread, setupDomain, count, positive]
  have room : 1 + (n - 1) ≤ ((List.replicate n none).set 0 (some RunThread.self)).length := by
    simpa using by omega
  obtain ⟨s, looped, workers, joined, created, _, elements⟩ := createLoop_ok
    (s := ⟨n, (List.replicate n none).set 0 (some .self), [], []⟩) room
  refine ⟨s, by simp only [startPthreads, if_true, first, looped], workers, joined, ?_, ?_⟩
  · rw [created, List.range_eq_range']
    rfl
  · intro j low high
    rw [elements, if_pos (by omega)]
    simp

end RunState

private theorem setupWorkers_of_pos {availCpu : Nat} {nrOfWorkers : Int}
    (positive : 0 < nrOfWorkers) : setupWorkers availCpu nrOfWorkers = nrOfWorkers.toNat := by
  rw [setupWorkers, if_neg (by omega)]

private theorem setupWorkers_eq_one {availCpu : Nat} {nrOfWorkers : Int}
    (counted : nrOfWorkers ≤ 0) :
    setupWorkers availCpu nrOfWorkers = 1 ↔ availCpu + nrOfWorkers ≤ 1 := by
  rw [setupWorkers, if_pos counted]
  dsimp only
  split_ifs <;> omega

/-- `tc_run` joins every pthread that it has created if and only if it was given the number of
workers itself, or there is no worker but the caller. -/
theorem tc_run_joins_iff (availCpu : Nat) (nrOfWorkers : Int) :
    JoinsAll availCpu nrOfWorkers ↔ 0 < nrOfWorkers ∨ availCpu + nrOfWorkers ≤ 1 := by
  obtain ⟨s, started, workers, joined, created, elements⟩ :=
    RunState.startPthreads_ok availCpu nrOfWorkers
  have positive := setupWorkers_pos availCpu nrOfWorkers
  have run : tcRun availCpu nrOfWorkers = s.joinLoop 1 (nrOfWorkers - 1).toNat := by
    simp only [tcRun, started]
  rcases Int.lt_or_le 0 nrOfWorkers with given | counted
  · refine iff_of_true ?_ (.inl given)
    have count : setupWorkers availCpu nrOfWorkers = nrOfWorkers.toNat := setupWorkers_of_pos given
    have left : (nrOfWorkers - 1).toNat = setupWorkers availCpu nrOfWorkers - 1 := by omega
    have returned : s.joinLoop 1 (nrOfWorkers - 1).toNat = .ok { s with
        joined := s.joined ++ (List.range' 1 (nrOfWorkers - 1).toNat).map fun j => .made (j - 1) } :=
      RunState.joinLoop_ok fun j low high => elements j low (by omega)
    refine ⟨_, run.trans returned, ?_, fun p => ?_⟩
    · simp only [workers]
      exact positive
    · simp only [created, joined, left]
      simp [List.range'_eq_map_range]
  · have nothing : (nrOfWorkers - 1).toNat = 0 := by omega
    have returned : tcRun availCpu nrOfWorkers = .ok s := by
      rw [run, nothing, RunState.joinLoop]
    have alone : s.created = [] ↔ availCpu + nrOfWorkers ≤ 1 := by
      rw [created, List.map_eq_nil_iff, List.range_eq_nil, ← setupWorkers_eq_one counted]
      omega
    constructor
    · rintro ⟨s', returned', _, same⟩
      obtain rfl : s = s' := Except.ok.inj (returned.symm.trans returned')
      rw [joined] at same
      exact .inr (alone.mp (List.eq_nil_iff_forall_not_mem.mpr fun p member => by
        simpa using (same p).mp member))
    · rintro (given | one)
      · omega
      · refine ⟨s, returned, workers ▸ positive, fun p => ?_⟩
        rw [alone.mpr one, joined]

/-- With the recommended argument 0 and four CPUs three pthreads are created, and none is joined. -/
theorem tc_run_zero : tcRun 4 0 = .ok ⟨4, [some .self, some (.made 0), some (.made 1), some (.made 2)],
    [.made 0, .made 1, .made 2], []⟩ ∧ ¬ JoinsAll 4 0 := by
  have returned : tcRun 4 0 = .ok ⟨4,
      [some .self, some (.made 0), some (.made 1), some (.made 2)],
      [.made 0, .made 1, .made 2], []⟩ := by decide
  refine ⟨returned, ?_⟩
  rintro ⟨s, returned', _, same⟩
  obtain rfl := Except.ok.inj (returned.symm.trans returned')
  have member := (same (.made 0)).mp (by decide)
  simp at member

end Libtcr
