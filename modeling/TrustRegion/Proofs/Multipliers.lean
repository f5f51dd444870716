/-
  Root finding as a sequence of multipliers.

  `Finds` lists the runs of root finding, iteration by iteration. No multiplier ever falls below the
  bound, whatever the factorizations propose (`Finds.bound_le`); this is the invariant of the loop.
  With exact factorizations an iteration is a function of its multiplier alone: its step is the one
  that belongs to the multiplier, and the next multiplier is Newton's proposal or, where that falls
  too low, the midpoint to the bound (`rootIteration_eq`). The bound lifts every eigenvalue above
  zero, so no factorization fails. `findRoot_eq` says at which multiplier the loop ends.
-/
import TrustRegion.Proofs.ExactAlgebra

namespace TrustRegion

namespace Model

/-! ## Runs -/

section Runs

variable {α : Type} [Scalar α] {n : Nat} {la : LinearAlgebra α} {M : Model α n}
  {delta bound tolerance lam : α} {more more' : Nat} {root : Root α n}

/-- The runs of root finding from `lam`, with `more` iterations after the first. -/
inductive Finds (la : LinearAlgebra α) (M : Model α n) (delta bound tolerance : α) :
    (more : Nat) → (lam : α) → Root α n → Prop
  /-- The multiplier hardly changes, which ends the run. -/
  | settled {more : Nat} {lam next : α} {s : Vector α n}
    (iterated : M.rootIteration la delta bound lam = .ok (s, next))
    (small : Scalar.abs (next - lam) < tolerance) :
    Finds la M delta bound tolerance more lam ⟨s, next, true⟩
  /-- The multiplier changes, and there are no more iterations. -/
  | spent {lam next : α} {s : Vector α n}
    (iterated : M.rootIteration la delta bound lam = .ok (s, next))
    (large : ¬ Scalar.abs (next - lam) < tolerance) :
    Finds la M delta bound tolerance 0 lam ⟨s, next, false⟩
  /-- The multiplier changes, and the run goes on from the next one. -/
  | later {more : Nat} {lam next : α} {s : Vector α n} {root : Root α n}
    (iterated : M.rootIteration la delta bound lam = .ok (s, next))
    (large : ¬ Scalar.abs (next - lam) < tolerance)
    (rest : Finds la M delta bound tolerance more next root) :
    Finds la M delta bound tolerance (more + 1) lam root

theorem findRoot_eq_ok : M.findRoot la delta bound tolerance more lam = .ok root ↔
    M.Finds la delta bound tolerance more lam root := by
  constructor
  · intro found
    induction more generalizing lam with
    | zero =>
      unfold findRoot at found
      obtain ⟨⟨s, next⟩, iterated, ended⟩ := exists_of_bind_eq_ok found
      dsimp only at ended
      split at ended
      · next small =>
        obtain rfl := Except.ok.inj ended
        exact .settled iterated small
      · next large =>
        obtain rfl := Except.ok.inj ended
        exact .spent iterated large
    | succ more ih =>
      unfold findRoot at found
      obtain ⟨⟨s, next⟩, iterated, ended⟩ := exists_of_bind_eq_ok found
      dsimp only at ended
      split at ended
      · next small =>
        obtain rfl := Except.ok.inj ended
        exact .settled iterated small
      · next large => exact .later iterated large (ih ended)
  · intro finds
    induction finds with
    | settled iterated small =>
      unfold findRoot
      rw [iterated]
      exact if_pos small
    | spent iterated large =>
      unfold findRoot
      rw [iterated]
      exact if_neg large
    | later iterated large rest ih =>
      unfold findRoot
      rw [iterated]
      exact (if_neg large).trans ih

/-- More iterations change nothing where root finding has settled. -/
theorem Finds.more_iterations (finds : M.Finds la delta bound tolerance more lam root)
    (reached : root.reached = true) (le : more ≤ more') :
    M.Finds la delta bound tolerance more' lam root := by
  induction finds generalizing more' with
  | settled iterated small => exact .settled iterated small
  | spent iterated large => cases reached
  | later iterated large rest ih =>
    cases more' with
    | zero => exact absurd le (Nat.not_succ_le_zero _)
    | succ more' => exact .later iterated large (ih reached (Nat.le_of_succ_le_succ le))

end Runs

variable {n : Nat} {M : Model ℝ n} {lam δ tol : ℝ} {pos : 0 < n}

/-- A proposal that falls too low is replaced by one that does not fall below the bound. -/
theorem bound_le_guarded {bound proposed : ℝ} (le : bound ≤ lam) :
    bound ≤ if proposed < bound + definiteThreshold then 0.5 * (lam - bound) + bound
      else proposed := by
  split
  · linarith
  · next high => linarith [not_lt.1 high, definiteThreshold_pos]

/-- No run falls below the bound, whatever the factorizations give. -/
theorem Finds.bound_le {la : LinearAlgebra ℝ} {bound : ℝ} {more : Nat} {root : Root ℝ n}
    (finds : M.Finds la δ bound tol more lam root) (le : bound ≤ lam) : bound ≤ root.lam := by
  have step {lam next : ℝ} {s : Vector ℝ n} (le : bound ≤ lam)
      (iterated : M.rootIteration la δ bound lam = .ok (s, next)) : bound ≤ next := by
    unfold rootIteration at iterated
    obtain ⟨⟨s', q⟩, -, iterated⟩ := exists_of_bind_eq_ok iterated
    obtain ⟨change, -, iterated⟩ := exists_of_bind_eq_ok iterated
    obtain ⟨-, rfl⟩ := Prod.mk.inj (Except.ok.inj iterated)
    exact bound_le_guarded le
  induction finds with
  | settled iterated small => exact step le iterated
  | spent iterated large => exact step le iterated
  | later iterated large rest ih => exact ih (step le iterated)

/-! ## The bound -/

/-- How far the bound lifts the smallest eigenvalue above zero. -/
noncomputable def margin (pos : 0 < n) (M : Model ℝ n) : ℝ :=
  max definiteThreshold (definiteThreshold * (M.greatest pos - M.least pos))

theorem definiteThreshold_le_margin (pos : 0 < n) (M : Model ℝ n) :
    definiteThreshold ≤ M.margin pos :=
  le_max_left _ _

theorem margin_pos (pos : 0 < n) (M : Model ℝ n) : 0 < M.margin pos :=
  lt_of_lt_of_le definiteThreshold_pos (definiteThreshold_le_margin pos M)

theorem multiplierBound_eq (pos : 0 < n) (M : Model ℝ n) :
    M.multiplierBound pos = M.margin pos - M.least pos := by
  unfold multiplierBound margin
  rw [Scalar.real_max]
  ring

theorem Exact.least_le (E : M.Exact) (pos : 0 < n) (j : Fin n) :
    M.least pos ≤ M.spectrum.eigenvalues j :=
  E.diagonalizes.ascending (Fin.mk_le_of_le_val (Nat.zero_le j.val))

theorem Exact.add_least_le_lifted (E : M.Exact) (pos : 0 < n) (lam : ℝ) (j : Fin n) :
    lam + M.least pos ≤ M.lifted lam j :=
  add_le_add_right (E.least_le pos j) lam

theorem Exact.margin_le_lifted (E : M.Exact) (le : M.multiplierBound pos ≤ lam) (j : Fin n) :
    M.margin pos ≤ M.lifted lam j := by
  rw [multiplierBound_eq] at le
  linarith [E.add_least_le_lifted pos lam j]

theorem Exact.definite_of_least (E : M.Exact) (above : -M.least pos < lam) : M.Definite lam :=
  fun j => by linarith [E.add_least_le_lifted pos lam j]

theorem Exact.definite (E : M.Exact) (le : M.multiplierBound pos ≤ lam) : M.Definite lam := fun j =>
  lt_of_lt_of_le (margin_pos pos M) (E.margin_le_lifted le j)

/-- From the bound on, a step misses the radius by what Newton's method wants to move, scaled. -/
theorem Exact.mul_abs_stepLength_sub_le (E : M.Exact) (sloped : M.Sloped) (delta_pos : 0 < δ)
    (le : M.multiplierBound pos ≤ lam) :
    definiteThreshold * |M.stepLength lam - δ| ≤ |M.newton δ lam - lam| * δ :=
  Model.mul_abs_stepLength_sub_le sloped delta_pos definiteThreshold_pos fun j =>
    (M.definiteThreshold_le_margin pos).trans (E.margin_le_lifted le j)

/-! ## The multipliers -/

/-- The multiplier after `lam`. -/
noncomputable def nextMultiplier (pos : 0 < n) (M : Model ℝ n) (δ lam : ℝ) : ℝ :=
  if M.newton δ lam < M.multiplierBound pos + definiteThreshold then
    0.5 * (lam - M.multiplierBound pos) + M.multiplierBound pos
  else M.newton δ lam

/-- The multipliers from `start` on. -/
noncomputable def multiplierFrom (pos : 0 < n) (M : Model ℝ n) (δ start : ℝ) : Nat → ℝ
  | 0 => start
  | i + 1 => M.nextMultiplier pos δ (M.multiplierFrom pos δ start i)

/-- The multiplier that root finding starts with. -/
noncomputable def firstMultiplier (pos : 0 < n) (M : Model ℝ n) : ℝ :=
  if (M.hardCase pos).1 then
    M.multiplierBound pos + 0.01 * Scalar.max (M.greatest pos - M.multiplierBound pos) 0
  else M.multiplierBound pos

/-- The multipliers of root finding. -/
noncomputable def multiplier (pos : 0 < n) (M : Model ℝ n) (δ : ℝ) (i : Nat) : ℝ :=
  M.multiplierFrom pos δ (M.firstMultiplier pos) i

theorem multiplierFrom_succ' (pos : 0 < n) (M : Model ℝ n) (δ start : ℝ) (i : Nat) :
    M.multiplierFrom pos δ start (i + 1) =
      M.multiplierFrom pos δ (M.nextMultiplier pos δ start) i := by
  induction i with
  | zero => rfl
  | succ i ih =>
    rw [multiplierFrom, ih]
    rfl

theorem multiplier_succ (pos : 0 < n) (M : Model ℝ n) (δ : ℝ) (i : Nat) :
    M.multiplier pos δ (i + 1) = M.nextMultiplier pos δ (M.multiplier pos δ i) := rfl

theorem multiplier_zero_of_easy (easy : (M.hardCase pos).1 = false) (δ : ℝ) :
    M.multiplier pos δ 0 = M.multiplierBound pos := by
  show M.firstMultiplier pos = _
  rw [firstMultiplier, easy, if_neg Bool.false_ne_true]

theorem bound_le_firstMultiplier (pos : 0 < n) (M : Model ℝ n) :
    M.multiplierBound pos ≤ M.firstMultiplier pos := by
  unfold firstMultiplier
  split
  · have nonneg : 0 ≤ Scalar.max (M.greatest pos - M.multiplierBound pos) 0 := by
      rw [Scalar.real_max]
      exact le_max_right _ _
    have part : (0 : ℝ) ≤ 0.01 * Scalar.max (M.greatest pos - M.multiplierBound pos) 0 :=
      mul_nonneg (by norm_num) nonneg
    linarith
  · exact le_refl _

theorem bound_le_nextMultiplier (le : M.multiplierBound pos ≤ lam) :
    M.multiplierBound pos ≤ M.nextMultiplier pos δ lam :=
  bound_le_guarded le

/-- No multiplier falls below the bound. -/
theorem bound_le_multiplierFrom {start : ℝ} (le : M.multiplierBound pos ≤ start) (i : Nat) :
    M.multiplierBound pos ≤ M.multiplierFrom pos δ start i := by
  induction i with
  | zero => exact le
  | succ i ih => exact bound_le_nextMultiplier ih

theorem bound_le_multiplier (pos : 0 < n) (M : Model ℝ n) (δ : ℝ) (i : Nat) :
    M.multiplierBound pos ≤ M.multiplier pos δ i :=
  bound_le_multiplierFrom (bound_le_firstMultiplier pos M) i

theorem Exact.definite_multiplier (E : M.Exact) (pos : 0 < n) (δ : ℝ) (i : Nat) :
    M.Definite (M.multiplier pos δ i) :=
  E.definite (bound_le_multiplier pos M δ i)

/-! ## One iteration, and all of them -/

/-- An iteration takes the step of its multiplier and passes on to the next one. -/
theorem rootIteration_eq {la : LinearAlgebra ℝ} (exact_la : la.Exact) (E : M.Exact)
    (sloped : M.Sloped) (delta_pos : 0 < δ) (definite : M.Definite lam) :
    M.rootIteration la δ (M.multiplierBound pos) lam =
      .ok (M.stepAt lam, M.nextMultiplier pos δ lam) := by
  obtain ⟨q, step, q_sq⟩ := regularizedStep_eq exact_la E definite
  have divisor : δ * dot q q ≠ 0 := by
    rw [q_sq]
    exact (mul_pos delta_pos (steepness_pos sloped definite)).ne'
  have change : checkedQuotient (dot (M.stepAt lam) (M.stepAt lam) *
      (Scalar.sqrt (dot (M.stepAt lam) (M.stepAt lam)) - δ)) (δ * dot q q) =
      .ok (M.newton δ lam - lam) := by
    rw [checkedQuotient_real divisor, newton_sub, q_sq, E.dot_stepAt]
    rfl
  have proposed : lam + (M.newton δ lam - lam) = M.newton δ lam := by ring
  unfold rootIteration
  rw [step]
  show (checkedQuotient _ _ >>= fun change => _) = _
  rw [change]
  show Except.ok (_, if lam + (M.newton δ lam - lam) < _ then _ else _) = _
  rw [proposed]
  rfl

/-- Root finding with the given tolerance settles at iteration `i`. -/
def Settles (pos : 0 < n) (M : Model ℝ n) (δ start tol : ℝ) (i : Nat) : Prop :=
  |M.multiplierFrom pos δ start (i + 1) - M.multiplierFrom pos δ start i| < tol

/-- Iteration `i` is the last of at most `more + 1`: the first that settles, or the last at all. -/
structure EndsAt (pos : 0 < n) (M : Model ℝ n) (δ start tol : ℝ) (more i : Nat) : Prop where
  /-- There are enough iterations. -/
  le : i ≤ more
  /-- No iteration before it settles. -/
  before : ∀ j < i, ¬ M.Settles pos δ start tol j
  /-- It settles, or there are no more iterations. -/
  last : M.Settles pos δ start tol i ∨ i = more

theorem settles_succ {start : ℝ} {i : Nat} : M.Settles pos δ start tol (i + 1) ↔
    M.Settles pos δ (M.nextMultiplier pos δ start) tol i := by
  unfold Settles
  rw [multiplierFrom_succ', multiplierFrom_succ' pos M δ start i]

theorem EndsAt.succ {start : ℝ} {more i : Nat} (unsettled : ¬ M.Settles pos δ start tol 0)
    (ends : M.EndsAt pos δ (M.nextMultiplier pos δ start) tol more i) :
    M.EndsAt pos δ start tol (more + 1) (i + 1) where
  le := Nat.succ_le_succ ends.le
  before := fun j lt => by
    cases j with
    | zero => exact unsettled
    | succ j =>
      rw [settles_succ]
      exact ends.before j (Nat.lt_of_succ_lt_succ lt)
  last := by
    rw [settles_succ]
    exact ends.last.imp_right (congrArg Nat.succ)

theorem EndsAt.unique {start : ℝ} {more i j : Nat} (ends : M.EndsAt pos δ start tol more i)
    (ends' : M.EndsAt pos δ start tol more j) : i = j := by
  have not_lt {i j : Nat} (ends : M.EndsAt pos δ start tol more i)
      (ends' : M.EndsAt pos δ start tol more j) : ¬ i < j := by
    intro lt
    rcases ends.last with settles | spent
    · exact ends'.before i lt settles
    · have := ends'.le
      omega
  exact Nat.le_antisymm (Nat.not_lt.1 (not_lt ends' ends)) (Nat.not_lt.1 (not_lt ends ends'))

section Loop

variable {la : LinearAlgebra ℝ} {start : ℝ} {more : Nat}

open Classical in
/-- Root finding returns, with the step of the multiplier at which it ends. -/
theorem findRoot_eq (exact_la : la.Exact) (E : M.Exact) (sloped : M.Sloped) (delta_pos : 0 < δ)
    (tol : ℝ) (more : Nat) (le : M.multiplierBound pos ≤ start) :
    ∃ i, M.EndsAt pos δ start tol more i ∧
      M.findRoot la δ (M.multiplierBound pos) tol more start =
        .ok ⟨M.stepAt (M.multiplierFrom pos δ start i), M.multiplierFrom pos δ start (i + 1),
          decide (M.Settles pos δ start tol i)⟩ := by
  have iterated {start : ℝ} (le : M.multiplierBound pos ≤ start) :
      M.rootIteration la δ (M.multiplierBound pos) start =
        .ok (M.stepAt start, M.nextMultiplier pos δ start) :=
    rootIteration_eq exact_la E sloped delta_pos (E.definite le)
  simp only [findRoot_eq_ok]
  induction more generalizing start with
  | zero =>
    refine ⟨0, ⟨Nat.le_refl 0, fun j lt => absurd lt (Nat.not_lt_zero j), Or.inr rfl⟩, ?_⟩
    by_cases settled : M.Settles pos δ start tol 0
    · rw [decide_eq_true settled]
      exact .settled (iterated le) settled
    · rw [decide_eq_false settled]
      exact .spent (iterated le) settled
  | succ more ih =>
    by_cases settled : M.Settles pos δ start tol 0
    · refine ⟨0, ⟨Nat.zero_le _, fun j lt => absurd lt (Nat.not_lt_zero j), Or.inl settled⟩, ?_⟩
      rw [decide_eq_true settled]
      exact .settled (iterated le) settled
    · obtain ⟨i, ends, rest⟩ := ih (bound_le_nextMultiplier le)
      refine ⟨i + 1, ends.succ settled, ?_⟩
      simp only [settles_succ, multiplierFrom_succ'] at rest ⊢
      exact .later (iterated le) settled rest

end Loop

end Model

end TrustRegion
