import Mathlib.Logic.Relation
import Mathlib.Logic.Function.Basic
import Libtcr.Lib.Transition

/-! Workers that execute programs with spin locks. An instruction may look at shared data before it
decides which commands come next. A discipline says what a worker that holds some locks may go on
with: it takes every lock in one strict order, and what it knows about the data depends only on what
its locks protect. Under a discipline no workers spin for each other. -/

set_option autoImplicit false

namespace Libtcr.LockMachine

inductive Cmd (Lock Instr : Type) where
  | lock (l : Lock)
  | unlock (l : Lock)
  | run (i : Instr)
  deriving DecidableEq, Repr

/-- `body` gives the commands of an operation; `exec` executes an instruction, which depends on the
data and on a choice, and goes on with further commands. -/
structure Program (Lock Data Instr Op Choice : Type) where
  body : Op → List (Cmd Lock Instr)
  exec : Data → Instr → Choice → Option (Data × List (Cmd Lock Instr))

structure State (Worker Lock Data Instr : Type) where
  data : Data
  holder : Lock → Option Worker
  /-- What a worker still has to execute of its operation. -/
  code : Worker → List (Cmd Lock Instr)
  -- history: the locks that a worker has taken and not released, last first
  held : Worker → List Lock

inductive Label (Worker Op Choice : Type) where
  | start (w : Worker) (op : Op)
  | go (w : Worker) (c : Choice)
  deriving DecidableEq, Repr

variable {Worker Lock Data Instr Op Choice : Type}

/-- Worker `w` spins on a lock that worker `v` holds. -/
def State.WaitsOn (s : State Worker Lock Data Instr) (w v : Worker) : Prop :=
  ∃ l rest, s.code w = .lock l :: rest ∧ s.holder l = some v

/-- Every lock comes after those that the worker holds when it takes it. -/
def State.Ordered (rank : Lock → Nat) (s : State Worker Lock Data Instr) : Prop :=
  ∀ w l rest h, s.code w = .lock l :: rest → s.holder h = some w → rank h < rank l

section Order

variable {rank : Lock → Nat} {s : State Worker Lock Data Instr} {w v : Worker}

theorem State.Ordered.chain (ordered : s.Ordered rank) (chain : Relation.TransGen s.WaitsOn w v) :
    ∃ l rest h, s.code w = .lock l :: rest ∧ s.holder h = some v ∧ rank l ≤ rank h := by
  induction chain with
  | single waits =>
      obtain ⟨l, rest, code, holds⟩ := waits
      exact ⟨l, rest, l, code, holds, Nat.le_refl _⟩
  | tail _ waits ih =>
      obtain ⟨l, rest, h, code, holds, le⟩ := ih
      obtain ⟨l', rest', code', holds'⟩ := waits
      have less := ordered _ l' rest' h code' holds
      exact ⟨l, rest, l', code, holds', Nat.le_trans le (Nat.le_of_lt less)⟩

theorem State.Ordered.no_cycle (ordered : s.Ordered rank) : ¬ Relation.TransGen s.WaitsOn w w := by
  intro chain
  obtain ⟨l, rest, h, code, holds, le⟩ := ordered.chain chain
  have less := ordered w l rest h code holds
  omega

end Order

variable [DecidableEq Worker] [DecidableEq Lock]

def step (program : Program Lock Data Instr Op Choice) (s : State Worker Lock Data Instr) :
    Label Worker Op Choice → Option (State Worker Lock Data Instr)
  | .start w op =>
    match s.code w with
    | [] => some { s with code := Function.update s.code w (program.body op) }
    | _ :: _ => none
  | .go w c =>
    match s.code w with
    | [] => none
    | .lock l :: rest =>
      if s.holder l = none then
        some { s with
          holder := Function.update s.holder l (some w)
          held := Function.update s.held w (l :: s.held w)
          code := Function.update s.code w rest }
      else none
    | .unlock l :: rest =>
      some { s with
        holder := Function.update s.holder l none
        held := Function.update s.held w ((s.held w).erase l)
        code := Function.update s.code w rest }
    | .run i :: rest =>
      (program.exec s.data i c).map fun (data, cmds) =>
        { s with data := data, code := Function.update s.code w (cmds ++ rest) }

/-- `fine data held cmds`: a worker that holds the locks `held` may go on with `cmds`. -/
structure Discipline (program : Program Lock Data Instr Op Choice) (rank : Lock → Nat)
    (good : Data → Prop) (fine : Data → List Lock → List (Cmd Lock Instr) → Prop) : Prop where
  done : ∀ {data held}, fine data held [] → held = []
  body : ∀ {data} op, fine data [] (program.body op)
  lock : ∀ {data held l rest}, fine data held (.lock l :: rest) →
    (∀ h ∈ held, rank h < rank l) ∧ fine data (l :: held) rest
  unlock : ∀ {data held l rest}, fine data held (.unlock l :: rest) →
    l ∈ held ∧ fine data (held.erase l) rest
  run : ∀ {data held i rest c data' cmds}, good data → fine data held (.run i :: rest) →
    program.exec data i c = some (data', cmds) → good data' ∧ fine data' held (cmds ++ rest)
  /-- What a worker knows is not touched by one that holds other locks. -/
  others : ∀ {data held i rest c data' cmds held' code}, good data → fine data held (.run i :: rest) →
    program.exec data i c = some (data', cmds) → (∀ l ∈ held', l ∉ held) → fine data held' code →
    fine data' held' code

structure Inv (good : Data → Prop) (fine : Data → List Lock → List (Cmd Lock Instr) → Prop)
    (s : State Worker Lock Data Instr) : Prop where
  good : good s.data
  holder : ∀ w l, l ∈ s.held w ↔ s.holder l = some w
  nodup : ∀ w, (s.held w).Nodup
  fine : ∀ w, fine s.data (s.held w) (s.code w)

section Discipline

variable {program : Program Lock Data Instr Op Choice} {rank : Lock → Nat} {good : Data → Prop}
  {fine : Data → List Lock → List (Cmd Lock Instr) → Prop} {s s' : State Worker Lock Data Instr}

theorem Inv.start (inv : Inv good fine s) (rules : Discipline program rank good fine) {w : Worker}
    {op : Op} (idle : s.code w = []) :
    Inv good fine { s with code := Function.update s.code w (program.body op) } := by
  refine ⟨inv.good, inv.holder, inv.nodup, fun v => ?_⟩
  by_cases same : v = w
  · subst same
    have before := inv.fine v
    rw [idle] at before
    simp only [Function.update_self, rules.done before]
    exact rules.body op
  · simp only [Function.update_of_ne same]
    exact inv.fine v

theorem Inv.lock (inv : Inv good fine s) (rules : Discipline program rank good fine) {w : Worker}
    {l : Lock} {rest : List (Cmd Lock Instr)} (code : s.code w = .lock l :: rest)
    (free : s.holder l = none) :
    Inv good fine { s with
      holder := Function.update s.holder l (some w)
      held := Function.update s.held w (l :: s.held w)
      code := Function.update s.code w rest } := by
  have mine := inv.fine w
  rw [code] at mine
  obtain ⟨above, fine⟩ := rules.lock mine
  have nobody : ∀ v, l ∉ s.held v := by
    intro v holds
    have taken := (inv.holder v l).mp holds
    simp [free] at taken
  refine ⟨inv.good, fun v h => ?_, fun v => ?_, fun v => ?_⟩
  · by_cases same : v = w
    · subst same
      by_cases equal : h = l
      · simp [equal]
      · simpa [equal] using inv.holder v h
    · by_cases equal : h = l
      · subst equal
        simp [same, Ne.symm same, nobody v]
      · simpa [same, equal] using inv.holder v h
  · by_cases same : v = w
    · subst same
      simpa using ⟨nobody v, inv.nodup v⟩
    · simpa [same] using inv.nodup v
  · by_cases same : v = w
    · subst same
      simpa using fine
    · simpa [same] using inv.fine v

theorem Inv.unlock (inv : Inv good fine s) (rules : Discipline program rank good fine) {w : Worker}
    {l : Lock} {rest : List (Cmd Lock Instr)} (code : s.code w = .unlock l :: rest) :
    Inv good fine { s with
      holder := Function.update s.holder l none
      held := Function.update s.held w ((s.held w).erase l)
      code := Function.update s.code w rest } := by
  have mine := inv.fine w
  rw [code] at mine
  obtain ⟨holds, fine⟩ := rules.unlock mine
  have taken := (inv.holder w l).mp holds
  refine ⟨inv.good, fun v h => ?_, fun v => ?_, fun v => ?_⟩
  · by_cases same : v = w
    · subst same
      by_cases equal : h = l
      · simp [equal, (inv.nodup v).mem_erase_iff]
      · simpa [equal, (inv.nodup v).mem_erase_iff] using inv.holder v h
    · by_cases equal : h = l
      · subst equal
        have other : h ∉ s.held v := by
          intro also
          exact same (Option.some.inj (((inv.holder v h).mp also).symm.trans taken))
        simp [same, other]
      · simpa [same, equal] using inv.holder v h
  · by_cases same : v = w
    · subst same
      simpa using (inv.nodup v).erase l
    · simpa [same] using inv.nodup v
  · by_cases same : v = w
    · subst same
      simpa using fine
    · simpa [same] using inv.fine v

theorem Inv.run (inv : Inv good fine s) (rules : Discipline program rank good fine) {w : Worker}
    {i : Instr} {c : Choice} {data : Data} {cmds rest : List (Cmd Lock Instr)}
    (code : s.code w = .run i :: rest) (done : program.exec s.data i c = some (data, cmds)) :
    Inv good fine { s with data := data, code := Function.update s.code w (cmds ++ rest) } := by
  have mine := inv.fine w
  rw [code] at mine
  obtain ⟨good, fine⟩ := rules.run inv.good mine done
  refine ⟨good, inv.holder, inv.nodup, fun v => ?_⟩
  by_cases same : v = w
  · subst same
    simpa using fine
  · have apart : ∀ l ∈ s.held v, l ∉ s.held w := by
      intro l first second
      exact same (Option.some.inj (((inv.holder v l).mp first).symm.trans ((inv.holder w l).mp second)))
    simpa [same] using rules.others inv.good mine done apart (inv.fine v)

theorem Inv.step (inv : Inv good fine s) (rules : Discipline program rank good fine)
    {a : Label Worker Op Choice} (stepped : step program s a = some s') : Inv good fine s' := by
  cases a with
  | start w op =>
      simp only [LockMachine.step] at stepped
      split at stepped
      · next idle =>
        cases stepped
        exact inv.start rules idle
      · cases stepped
  | go w c =>
      simp only [LockMachine.step] at stepped
      split at stepped
      · cases stepped
      · next l rest code =>
        split at stepped
        · next free =>
          cases stepped
          exact inv.lock rules code free
        · cases stepped
      · next l rest code =>
        cases stepped
        exact inv.unlock rules code
      · next i rest code =>
        obtain ⟨⟨data, cmds⟩, done, rfl⟩ := Option.map_eq_some_iff.mp stepped
        exact inv.run rules code done

omit [DecidableEq Worker] in
theorem Inv.ordered (inv : Inv good fine s) (rules : Discipline program rank good fine) :
    s.Ordered rank := by
  intro w l rest h code holds
  have fine := inv.fine w
  rw [code] at fine
  exact (rules.lock fine).1 h ((inv.holder w h).mpr holds)

end Discipline

end Libtcr.LockMachine
