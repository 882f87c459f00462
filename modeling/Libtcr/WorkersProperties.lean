import Libtcr.Lib.Update
import Libtcr.Workers
import Mathlib.Order.Interval.Finset.Nat

/-! The threads of a pool and the workers of its domain. -/

set_option autoImplicit false

namespace Libtcr

namespace WorkerState

def AllReady (s : WorkerState) (d : DomainId) : Prop := ∀ p, s.domain p = some d → s.ready p = true

/-- Once the workers of domain `d` are ready, an affine thread of a pool of the domain has the
number of one of them, in whose `_run_immediate` it is wanted; different affine threads of a pool
have different numbers; and no step changes them. -/
def PoolsBound (availCpu : Nat) (d : DomainId) (s : WorkerState) : Prop :=
  (d < s.domains → s.ended d = false → s.AllReady d → ∀ pool i t, s.poolDomain pool = d →
    s.threads pool i = some t → t.affine = true →
    ∃ p nr, s.domain p = some d ∧ s.nr p = some nr ∧ t.workerNr = nr ∧ t.wanted nr = true) ∧
  (∀ pool i j t u, s.threads pool i = some t → s.threads pool j = some u → t.affine = true →
    u.affine = true → i ≠ j → t.workerNr ≠ u.workerNr) ∧
  ∀ a s', s.step availCpu a = some s' → ∀ pool i t, s.threads pool i = some t → t.affine = true →
    ∃ t', s'.threads pool i = some t' ∧ t'.workerNr = t.workerNr

/-- The number that a pthread of domain `d` has after `tc_worker_init` is below the number of
workers of the domain. -/
def numberFits (d : DomainId) (s : WorkerState) : WorkerAction → Bool
  | .tcWorkerInit p => s.domain p ≠ some d || (s.nr p).getD s.pthreadCounter < s.nrOfWorkers d
  | _ => true

end WorkerState

/-! ## The invariant -/

/-- In the domains `fit` all the numbers so far are below the number of workers. -/
structure WorkerInv (fit : DomainId → Prop) (s : WorkerState) : Prop where
  known : ∀ p d, s.domain p = some d → d < s.domains
  drawn : ∀ p k, s.nr p = some k → k < s.pthreadCounter
  distinct : ∀ p q k, s.nr p = some k → s.nr q = some k → p = q
  staff : ∀ d, d < s.domains → s.ended d = false →
    ∃ ps : Finset Pthread, ps.card = s.nrOfWorkers d ∧ ∀ p, p ∈ ps ↔ s.domain p = some d
  fits : ∀ p d, fit d → s.domain p = some d → s.ready p = true →
    ∃ k, s.nr p = some k ∧ k < s.nrOfWorkers d
  pools : ∀ pool, pool < s.pools → s.poolDomain pool < s.domains
  made : ∀ pool i t, s.threads pool i = some t → pool < s.pools ∧ i < s.next pool
  affine : ∀ pool i t, s.threads pool i = some t → t.affine = true →
    t.workerNr = i ∧ i < s.nrOfWorkers (s.poolDomain pool)
  unstarted : ∀ d i, s.domains ≤ d → s.domain (.worker d i) = none ∧ s.ready (.worker d i) = false

section Steps

variable {availCpu : Nat} {fit : DomainId → Prop} {s s' : WorkerState}

theorem WorkerInv.initial (fit : DomainId → Prop) : WorkerInv fit .initial := by
  constructor <;> simp [WorkerState.initial]

private def started (d : DomainId) (first count : Nat) : Finset Pthread :=
  (Finset.Ico first count).image (Pthread.worker d)

private theorem card_started (d : DomainId) (first count : Nat) :
    (started d first count).card = count - first := by
  unfold started
  rw [Finset.card_image_of_injective _ fun i j same => (Pthread.worker.inj same).2, Nat.card_Ico]

private theorem mem_started {d : DomainId} {first count : Nat} {p : Pthread} :
    p ∈ started d first count ↔ ∃ i, first ≤ i ∧ i < count ∧ p = .worker d i := by
  unfold started
  simp only [Finset.mem_image, Finset.mem_Ico]
  constructor
  · intro ⟨i, bounds, equal⟩
    exact ⟨i, bounds.1, bounds.2, equal.symm⟩
  · intro ⟨i, first, last, equal⟩
    exact ⟨i, ⟨first, last⟩, equal.symm⟩

theorem setupWorkers_pos (availCpu : Nat) (n : Int) : 0 < setupWorkers availCpu n := by
  unfold setupWorkers
  split
  · dsimp only
    split_ifs <;> omega
  · omega

private theorem WorkerInv.adds {n : Nat} (inv : WorkerInv fit s) (ps : Finset Pthread)
    (card : ps.card = n) (count : s'.domains = s.domains + 1)
    (workers : s'.nrOfWorkers = Function.update s.nrOfWorkers s.domains n)
    (joined : ∀ p ∈ ps, s'.domain p = some s.domains ∧ s.domain p = none ∧ s'.ready p = false)
    (others : ∀ p, p ∉ ps → s'.domain p = s.domain p ∧ s'.ready p = s.ready p)
    (new : ∀ d i, s.domains < d → Pthread.worker d i ∉ ps) (ended : s'.ended = s.ended)
    (nr : s'.nr = s.nr) (counter : s'.pthreadCounter = s.pthreadCounter)
    (pools : s'.pools = s.pools) (poolDomain : s'.poolDomain = s.poolDomain)
    (next : s'.next = s.next) (threads : s'.threads = s.threads) : WorkerInv fit s' := by
  have old : ∀ {p d}, s'.domain p = some d → d ≠ s.domains → p ∉ ps := by
    intro p d works other member
    have here_ := (joined p member).1
    rw [works] at here_
    exact other (Option.some.inj here_)
  have kept : ∀ {d}, d < s.domains → s'.nrOfWorkers d = s.nrOfWorkers d := by
    intro d below
    rw [workers, Function.update_of_ne (Nat.ne_of_lt below)]
  constructor
  · intro p d works
    rw [count]
    by_cases same : d = s.domains
    · rw [same]
      exact Nat.lt_succ_self _
    · rw [(others p (old works same)).1] at works
      exact Nat.lt_succ_of_lt (inv.known p d works)
  · rw [nr, counter]
    exact inv.drawn
  · rw [nr]
    exact inv.distinct
  · intro d below running
    rw [ended] at running
    rw [count] at below
    by_cases same : d = s.domains
    · refine ⟨ps, by rw [workers, same, Function.update_self, card], fun p => ⟨fun member => ?_, fun works => ?_⟩⟩
      · rw [(joined p member).1, same]
      · by_contra outside
        rw [(others p outside).1] at works
        exact Nat.ne_of_lt (inv.known p d works) same
    · have earlier : d < s.domains := by omega
      obtain ⟨qs, size, members⟩ := inv.staff d earlier running
      refine ⟨qs, by rw [size, kept earlier], fun p => ⟨fun member => ?_, fun works => ?_⟩⟩
      · have works := (members p).mp member
        have outside : p ∉ ps := fun new => by simp [(joined p new).2.1] at works
        rw [(others p outside).1, works]
      · rw [(others p (old works same)).1] at works
        exact (members p).mpr works
  · intro p d chosen works ready
    rw [nr]
    by_cases member : p ∈ ps
    · simp [(joined p member).2.2] at ready
    · rw [(others p member).1] at works
      rw [(others p member).2] at ready
      rw [kept (inv.known p d works)]
      exact inv.fits p d chosen works ready
  · intro pool below
    rw [pools] at below
    rw [poolDomain, count]
    exact Nat.lt_succ_of_lt (inv.pools pool below)
  · rw [threads, pools, next]
    exact inv.made
  · intro pool i t made affine
    rw [threads] at made
    have early := inv.pools pool (inv.made pool i t made).1
    rw [poolDomain, kept early]
    exact inv.affine pool i t made affine
  · intro d i above
    rw [count] at above
    have outside := new d i above
    rw [(others _ outside).1, (others _ outside).2]
    exact inv.unstarted d i (Nat.le_of_succ_le above)

private theorem setupDomain_outside {n first : Nat} {p : Pthread}
    (outside : p ∉ started s.domains first n) : (s.setupDomain n first).domain p = s.domain p := by
  cases p with
  | app j => rfl
  | worker d i =>
      simp only [WorkerState.setupDomain]
      split
      · next new => exact absurd (mem_started.mpr ⟨i, new.2.1, new.2.2, by rw [new.1]⟩) outside
      · rfl

theorem WorkerInv.tcRun {k n : Nat} (inv : WorkerInv fit s) (positive : 0 < n)
    (free : s.domain (.app k) = none) :
    WorkerInv fit { s.setupDomain n 1 with
      domain := Function.update (s.setupDomain n 1).domain (.app k) (some s.domains)
      ready := Function.update (s.setupDomain n 1).ready (.app k) false } := by
  have apart : Pthread.app k ∉ started s.domains 1 n := by
    intro member
    obtain ⟨i, _, _, equal⟩ := mem_started.mp member
    cases equal
  refine inv.adds (insert (.app k) (started s.domains 1 n)) ?_ rfl rfl ?_ ?_ ?_ rfl rfl rfl rfl
    rfl rfl rfl
  · rw [Finset.card_insert_of_notMem apart, card_started]
    omega
  · intro p member
    rcases Finset.mem_insert.mp member with rfl | later
    · simp [free]
    · obtain ⟨i, first, last, rfl⟩ := mem_started.mp later
      simp [WorkerState.setupDomain, first, last, inv.unstarted s.domains i (Nat.le_refl _)]
  · intro p outside
    rw [Finset.mem_insert, not_or] at outside
    dsimp only
    rw [Function.update_of_ne outside.1, Function.update_of_ne outside.1]
    exact ⟨setupDomain_outside outside.2, rfl⟩
  · intro d i above member
    rcases Finset.mem_insert.mp member with equal | later
    · cases equal
    · obtain ⟨j, _, _, equal⟩ := mem_started.mp later
      exact Nat.ne_of_gt above (Pthread.worker.inj equal).1

theorem WorkerInv.tcNewDomain {n : Nat} (inv : WorkerInv fit s) : WorkerInv fit (s.setupDomain n 0) := by
  refine inv.adds (started s.domains 0 n) ?_ rfl rfl ?_ ?_ ?_ rfl rfl rfl rfl rfl rfl rfl
  · rw [card_started, Nat.sub_zero]
  · intro p member
    obtain ⟨i, _, last, rfl⟩ := mem_started.mp member
    simp [WorkerState.setupDomain, last, inv.unstarted s.domains i (Nat.le_refl _)]
  · exact fun p outside => ⟨setupDomain_outside outside, rfl⟩
  · intro d i above member
    obtain ⟨j, _, _, equal⟩ := mem_started.mp member
    exact Nat.ne_of_gt above (Pthread.worker.inj equal).1

theorem WorkerInv.tcRunReturns {k : Nat} {d : DomainId} (inv : WorkerInv fit s)
    (works : s.domain (.app k) = some d) :
    WorkerInv fit { s with
      ended := Function.update s.ended d true
      domain := Function.update s.domain (.app k) none } := by
  have left : ∀ {p e}, Function.update s.domain (.app k) none p = some e →
      s.domain p = some e :=
    fun still => (Update.old_of_ne still (by simp)).2
  refine { inv with known := ?_, staff := ?_, fits := ?_, unstarted := ?_ }
  · exact fun p e still => inv.known p e (left still)
  · intro e below running
    have other : e ≠ d := by
      rintro rfl
      simp at running
    dsimp only at running
    rw [Function.update_of_ne other] at running
    obtain ⟨ps, card, members⟩ := inv.staff e below running
    refine ⟨ps, card, fun p => ⟨fun member => ?_, fun still => (members p).mpr (left still)⟩⟩
    have there := (members p).mp member
    have apart : p ≠ .app k := by
      rintro rfl
      exact other (Option.some.inj (there.symm.trans works))
    exact (Function.update_of_ne apart _ _).trans there
  · exact fun p e chosen still => inv.fits p e chosen (left still)
  · intro e i above
    have other : Pthread.worker e i ≠ .app k := nofun
    dsimp only
    rw [Function.update_of_ne other]
    exact inv.unstarted e i above

theorem WorkerInv.tcWorkerInit {p : Pthread} {d : DomainId} (inv : WorkerInv fit s)
    (works : s.domain p = some d)
    (fits : fit d → (s.nr p).getD s.pthreadCounter < s.nrOfWorkers d) :
    WorkerInv fit (s.tcWorkerInit p) := by
  have known : ∀ e i, s.domains ≤ e → Pthread.worker e i ≠ p := by
    rintro e i above rfl
    simp [(inv.unstarted e i above).1] at works
  unfold WorkerState.tcWorkerInit
  split
  · next k has =>
    refine { inv with fits := ?_, unstarted := ?_ }
    · intro q e chosen there ready
      by_cases same : q = p
      · subst same
        obtain rfl := Option.some.inj (there.symm.trans works)
        exact ⟨k, has, by simpa [has] using fits chosen⟩
      · exact inv.fits q e chosen there (by simpa [same] using ready)
    · intro e i above
      have before := inv.unstarted e i above
      exact ⟨before.1, (Function.update_of_ne (known e i above) _ _).trans before.2⟩
  · next draws =>
    have numbers : ∀ {q k}, Function.update s.nr p (some s.pthreadCounter) q = some k →
        (q = p ∧ k = s.pthreadCounter) ∨ (q ≠ p ∧ s.nr q = some k) := by
      intro q k has
      exact (Update.eq_cases has).imp_left fun ⟨same, new⟩ => ⟨same, (Option.some.inj new).symm⟩
    refine { inv with drawn := ?_, distinct := ?_, fits := ?_, unstarted := ?_ }
    · intro q k has
      rcases numbers has with ⟨_, rfl⟩ | ⟨_, before⟩
      · exact Nat.lt_succ_self _
      · exact Nat.lt_succ_of_lt (inv.drawn q k before)
    · intro q r k first second
      rcases numbers first with ⟨rfl, rfl⟩ | ⟨_, before⟩
      · rcases numbers second with ⟨rfl, _⟩ | ⟨_, other⟩
        · rfl
        · exact absurd (inv.drawn r _ other) (Nat.lt_irrefl _)
      · rcases numbers second with ⟨_, rfl⟩ | ⟨_, other⟩
        · exact absurd (inv.drawn q _ before) (Nat.lt_irrefl _)
        · exact inv.distinct q r k before other
    · intro q e chosen there ready
      by_cases same : q = p
      · subst same
        obtain rfl := Option.some.inj (there.symm.trans works)
        exact ⟨s.pthreadCounter, by simp, by simpa [draws] using fits chosen⟩
      · obtain ⟨k, has, below⟩ := inv.fits q e chosen there (by simpa [same] using ready)
        exact ⟨k, by simpa [same] using has, below⟩
    · intro e i above
      have before := inv.unstarted e i above
      exact ⟨before.1, (Function.update_of_ne (known e i above) _ _).trans before.2⟩

theorem WorkerInv.tcThreadPoolNewInDomain {d : DomainId} {excess : Int} (inv : WorkerInv fit s)
    (below : d < s.domains) :
    WorkerInv fit { s with
      pools := s.pools + 1
      poolDomain := Function.update s.poolDomain s.pools d
      excess := Function.update s.excess s.pools excess
      next := Function.update s.next s.pools 0 } := by
  have older : ∀ {pool i t}, s.threads pool i = some t → pool ≠ s.pools := by
    intro pool i t made
    exact Nat.ne_of_lt (inv.made pool i t made).1
  refine { inv with pools := ?_, made := ?_, affine := ?_ }
  · intro pool there
    by_cases same : pool = s.pools
    · simpa [same] using below
    · dsimp only
      rw [Function.update_of_ne same]
      exact inv.pools pool (Nat.lt_of_le_of_ne (Nat.le_of_lt_succ there) same)
  · intro pool i t made
    have before := inv.made pool i t made
    dsimp only
    rw [Function.update_of_ne (older made)]
    exact ⟨Nat.lt_succ_of_lt before.1, before.2⟩
  · intro pool i t made affine
    dsimp only
    rw [Function.update_of_ne (older made)]
    exact inv.affine pool i t made affine

private theorem threads_update {pool i j k : Nat} {t t' : PoolThread}
    (made : Function.update s.threads pool (Function.update (s.threads pool) i (some t')) j k = some t) :
    (j = pool ∧ k = i ∧ t = t') ∨ s.threads j k = some t := by
  by_cases same : j = pool
  · subst same
    rw [Function.update_self] at made
    rcases Update.eq_cases made with ⟨index, new⟩ | ⟨_, before⟩
    · exact .inl ⟨rfl, index, (Option.some.inj new).symm⟩
    · exact .inr before
  · rw [Function.update_of_ne same] at made
    exact .inr made

theorem WorkerInv.poolTurn {pool : Nat} {created : Bool} (inv : WorkerInv fit s) (there : pool < s.pools) :
    WorkerInv fit (s.poolTurn pool created) := by
  have advanced : ∀ j, s.next j ≤ Function.update s.next pool (s.next pool + 1) j := by
    intro j
    by_cases same : j = pool
    · simp [same]
    · rw [Function.update_of_ne same]
  refine { inv with made := ?_, affine := ?_ }
  · intro j k t made
    dsimp only [WorkerState.poolTurn] at made ⊢
    cases created with
    | false =>
        have before := inv.made j k t made
        exact ⟨before.1, Nat.lt_of_lt_of_le before.2 (advanced j)⟩
    | true =>
        rcases threads_update made with ⟨rfl, rfl, _⟩ | earlier
        · exact ⟨there, by simp⟩
        · have before := inv.made j k t earlier
          exact ⟨before.1, Nat.lt_of_lt_of_le before.2 (advanced j)⟩
  · intro j k t made affine
    dsimp only [WorkerState.poolTurn] at made ⊢
    cases created with
    | false => exact inv.affine j k t made affine
    | true =>
        rcases threads_update made with ⟨rfl, rfl, rfl⟩ | earlier
        · split at affine
          · next bound => exact ⟨by rw [if_pos bound], bound⟩
          · cases affine
        · exact inv.affine j k t earlier affine

private theorem switchTo_affine {nr : Nat} {t : PoolThread} :
    (WorkerState.switchTo nr t).affine = t.affine ∧
      (t.affine = true → (WorkerState.switchTo nr t).workerNr = t.workerNr) := by
  unfold WorkerState.switchTo
  split_ifs <;> simp_all

theorem WorkerInv.switchTo {pool i nr : Nat} {t : PoolThread} (inv : WorkerInv fit s)
    (there : s.threads pool i = some t) :
    WorkerInv fit { s with
      threads := Function.update s.threads pool
        (Function.update (s.threads pool) i (some (WorkerState.switchTo nr t))) } := by
  refine { inv with made := ?_, affine := ?_ }
  · intro j k u made
    rcases threads_update made with ⟨rfl, rfl, _⟩ | earlier
    · exact inv.made j k t there
    · exact inv.made j k u earlier
  · intro j k u made affine
    rcases threads_update made with ⟨rfl, rfl, rfl⟩ | earlier
    · rw [switchTo_affine.1] at affine
      rw [switchTo_affine.2 affine]
      exact inv.affine j k t there affine
    · exact inv.affine j k u earlier affine

theorem WorkerInv.step {a : WorkerAction} (inv : WorkerInv fit s)
    (fits : ∀ d, fit d → s.numberFits d a = true) (stepped : s.step availCpu a = some s') : WorkerInv fit s' := by
  cases a with
  | tcRun k n =>
      simp only [WorkerState.step] at stepped
      split at stepped
      · next free =>
        cases stepped
        exact inv.tcRun (setupWorkers_pos availCpu n) free
      · cases stepped
  | tcRunReturns k =>
      simp only [WorkerState.step] at stepped
      split at stepped
      · next d works =>
        cases stepped
        exact inv.tcRunReturns works
      · cases stepped
  | tcNewDomain n =>
      simp only [WorkerState.step] at stepped
      split at stepped
      · cases stepped
        exact inv.tcNewDomain
      · cases stepped
  | tcWorkerInit p =>
      simp only [WorkerState.step] at stepped
      split at stepped
      · next guard =>
        cases stepped
        obtain ⟨d, works⟩ := Option.ne_none_iff_exists'.mp guard.1
        exact inv.tcWorkerInit works fun chosen => by
          simpa [WorkerState.numberFits, works] using fits d chosen
      · cases stepped
  | tcThreadPoolNewInDomain d excess =>
      simp only [WorkerState.step] at stepped
      split at stepped
      · next below =>
        cases stepped
        exact inv.tcThreadPoolNewInDomain below
      · cases stepped
  | poolTurn pool created =>
      simp only [WorkerState.step] at stepped
      split at stepped
      · next guard =>
        cases stepped
        exact inv.poolTurn guard.1
      · cases stepped
  | switchTo p pool i =>
      simp only [WorkerState.step] at stepped
      split at stepped
      · next nr t _ there =>
        cases stepped
        exact inv.switchTo there
      · cases stepped

/-! ## Results -/

/-- The workers of a domain that are ready have all the numbers below their count. -/
theorem WorkerInv.numbered (inv : WorkerInv fit s) {d : DomainId} (chosen : fit d) (below : d < s.domains)
    (running : s.ended d = false) (ready : s.AllReady d) {k : Nat} (small : k < s.nrOfWorkers d) :
    ∃ p, s.domain p = some d ∧ s.nr p = some k := by
  obtain ⟨ps, card, members⟩ := inv.staff d below running
  have works : ∀ p ∈ ps, s.domain p = some d := fun p member => (members p).mp member
  have number : ∀ p ∈ ps, ∃ k, s.nr p = some k ∧ k < s.nrOfWorkers d := fun p member =>
    inv.fits p d chosen (works p member) (ready p (works p member))
  -- as many different numbers below the count as there are workers are all of them
  have inside : ps.image (fun p => (s.nr p).getD 0) ⊆ Finset.range (s.nrOfWorkers d) := by
    intro k member
    obtain ⟨p, there, rfl⟩ := Finset.mem_image.mp member
    obtain ⟨k, has, low⟩ := number p there
    simpa [has] using low
  have injective : Set.InjOn (fun p => (s.nr p).getD 0) ps := by
    intro p first q second same
    obtain ⟨j, hasP, _⟩ := number p first
    obtain ⟨k, hasQ, _⟩ := number q second
    simp only [hasP, hasQ, Option.getD_some] at same
    exact inv.distinct p q j hasP (same ▸ hasQ)
  have all : ps.image (fun p => (s.nr p).getD 0) = Finset.range (s.nrOfWorkers d) := by
    refine Finset.eq_of_subset_of_card_le inside ?_
    rw [Finset.card_image_of_injOn injective, Finset.card_range, card]
  obtain ⟨p, member, equal⟩ := Finset.mem_image.mp (all ▸ Finset.mem_range.mpr small)
  obtain ⟨j, has, _⟩ := number p member
  simp only [has, Option.getD_some] at equal
  exact ⟨p, works p member, equal ▸ has⟩

private theorem WorkerInv.keeps_number {a : WorkerAction} (inv : WorkerInv fit s)
    (stepped : s.step availCpu a = some s') {pool i : Nat} {t : PoolThread}
    (made : s.threads pool i = some t) (affine : t.affine = true) :
    ∃ t', s'.threads pool i = some t' ∧ t'.workerNr = t.workerNr := by
  have same : s'.threads = s.threads → ∃ t', s'.threads pool i = some t' ∧
      t'.workerNr = t.workerNr := by
    intro equal
    exact ⟨t, by rw [equal, made], rfl⟩
  cases a with
  | poolTurn j created =>
      simp only [WorkerState.step] at stepped
      split at stepped
      · cases stepped
        cases created with
        | false => exact same rfl
        | true =>
            refine ⟨t, ?_, rfl⟩
            have earlier := (inv.made pool i t made).2
            by_cases own : pool = j
            · subst own
              simp [WorkerState.poolTurn, Nat.ne_of_lt earlier, made]
            · simp [WorkerState.poolTurn, own, made]
      · cases stepped
  | switchTo p j k =>
      simp only [WorkerState.step] at stepped
      split at stepped
      · next nr u _ there =>
        cases stepped
        by_cases own : pool = j ∧ i = k
        · obtain ⟨rfl, rfl⟩ := own
          obtain rfl := Option.some.inj (made.symm.trans there)
          exact ⟨WorkerState.switchTo nr t, by simp, switchTo_affine.2 affine⟩
        · refine ⟨t, ?_, rfl⟩
          by_cases first : pool = j
          · subst first
            simpa [show i ≠ k from fun equal => own ⟨rfl, equal⟩] using made
          · simpa [first] using made
      · cases stepped
  | tcWorkerInit p =>
      simp only [WorkerState.step] at stepped
      split at stepped
      · cases stepped
        refine same ?_
        unfold WorkerState.tcWorkerInit
        split <;> rfl
      · cases stepped
  | tcRunReturns k =>
      simp only [WorkerState.step] at stepped
      split at stepped
      · cases stepped
        exact same rfl
      · cases stepped
  | _ =>
      simp only [WorkerState.step] at stepped
      split at stepped
      · cases stepped
        exact same rfl
      · cases stepped

/-- Where the workers of a domain have numbers below the number of workers of the domain, the
affine threads of its pools are bound to them. -/
theorem pool_threads_bound {d : DomainId}
    (run : WorkerRun availCpu (fun s a => s.numberFits d a = true) s) : s.PoolsBound availCpu d := by
  have inv : WorkerInv (· = d) s := run.invariant (WorkerInv (· = d)) (.initial _)
    fun inv fits stepped => inv.step (fun _ same => same ▸ fits) stepped
  refine ⟨?_, ?_, fun a s' stepped pool i t made affine => inv.keeps_number stepped made affine⟩
  · intro below running ready pool i t home made affine
    obtain ⟨number, small⟩ := inv.affine pool i t made affine
    rw [home] at small
    obtain ⟨p, works, has⟩ := inv.numbered rfl below running ready small
    exact ⟨p, i, works, has, number, by simp [PoolThread.wanted, number]⟩
  · intro pool i j t u first second affine affine' different equal
    rw [(inv.affine pool i t first affine).1, (inv.affine pool j u second affine').1] at equal
    exact different (Int.ofNat.inj equal)

end Steps

def oneDomain : List WorkerAction :=
  [.tcRun 0 2, .tcWorkerInit (.worker 0 1), .tcWorkerInit (.app 0), .tcThreadPoolNewInDomain 0 0,
    .poolTurn 0 true, .poolTurn 0 true]

theorem pool_threads_bound_two : ∃ s,
    WorkerRun 2 (fun s a => s.numberFits 0 a = true) s ∧ s.threads 0 1 = some ⟨1, true⟩ ∧
      s.nr (.app 0) = some 1 ∧ s.PoolsBound 2 0 := by
  obtain ⟨s, run, ended⟩ := Transition.exists_run
    (Transition.guarded (WorkerState.step 2) (WorkerState.numberFits 0)) .initial oneDomain
    (fun s => s.threads 0 1 = some ⟨1, true⟩ && s.nr (.app 0) = some 1) (by decide)
  simp only [Bool.and_eq_true, decide_eq_true_eq] at ended
  exact ⟨s, run.of_guarded, ended.1, ended.2, pool_threads_bound run.of_guarded⟩

/-- `tc_run` and `tc_new_domain` with one worker each, and a pool in the second domain. -/
def twoDomains : List WorkerAction :=
  [.tcRun 0 1, .tcWorkerInit (.app 0), .tcNewDomain 1, .tcWorkerInit (.worker 1 0),
    .tcThreadPoolNewInDomain 1 0, .poolTurn 0 true]

/-- The thread of the pool has number 0, the only worker of its domain has number 1. -/
theorem pool_threads_not_bound : ∃ s, WorkerRun 2 Transition.always s ∧
    s.threads 0 0 = some ⟨0, true⟩ ∧ s.nr (.worker 1 0) = some 1 ∧ ¬ s.PoolsBound 2 1 := by
  obtain ⟨s, run, ended⟩ := Transition.exists_run (WorkerState.step 2) .initial twoDomains
    (fun s => s.threads 0 0 = some ⟨0, true⟩ && s.nr (.worker 1 0) = some 1 && s.domains = 2 &&
      !s.ended 1 && s.poolDomain 0 = 1 && s.nrOfWorkers 1 = 1 && s.ready (.worker 1 0) &&
      s.domain (.worker 1 0) = some 1) (by decide)
  simp only [Bool.and_eq_true, decide_eq_true_eq, Bool.not_eq_true'] at ended
  obtain ⟨⟨⟨⟨⟨⟨⟨thread, number⟩, count⟩, running⟩, home⟩, workers⟩, ready⟩, there⟩ := ended
  refine ⟨s, run, thread, number, fun bound => ?_⟩
  have inv : WorkerInv (fun _ => False) s := run.invariant (WorkerInv _) (.initial _)
    fun inv _ stepped => inv.step (fun _ => False.elim) stepped
  obtain ⟨ps, card, members⟩ := inv.staff 1 (by omega) running
  rw [workers, Finset.card_eq_one] at card
  obtain ⟨p, rfl⟩ := card
  have only : ∀ q, s.domain q = some 1 → q = .worker 1 0 := by
    intro q works
    rw [Finset.mem_singleton.mp ((members q).mpr works),
      Finset.mem_singleton.mp ((members (.worker 1 0)).mpr there)]
  obtain ⟨q, nr, works, has, equal, _⟩ := bound.1 (show (1 : Nat) < s.domains by omega) running
    (fun q works => by rw [only q works, ready]) 0 0 _ home thread rfl
  rw [only q works, number] at has
  obtain rfl := Option.some.inj has
  cases equal

end Libtcr
