/-
  What the subproblem solver demands of its numbers.

  Division by zero, the root of a negative number and a matrix that is not positive definite would
  end a run or spoil its step. `WellPosed` lists all divisors, radicands and matrices to factorize
  of one subproblem; with exact factorizations every subproblem with a positive radius is well
  posed (`Exact.wellPosed`). The multipliers that root finding tries never fall below the bound,
  which lifts every eigenvalue above zero, and a gradient that is not zero keeps the divisor of
  Newton's method positive. So nothing changes where all matrices are refused that are not positive
  definite (`proposeStep_refusing`).
-/
import TrustRegion.Proofs.Routes
import TrustRegion.StepSolver

namespace TrustRegion

namespace Model

variable {n : Nat} {la : LinearAlgebra ℝ} {M : Model ℝ n} {pos : 0 < n} {δ tol lam mu : ℝ}
  {more : Nat}

/-- Root finding from `lam`, with `more` iterations after the first, factorizes `H + μ I`. -/
inductive Tries (la : LinearAlgebra ℝ) (M : Model ℝ n) (δ bound tol : ℝ) :
    (more : Nat) → (lam mu : ℝ) → Prop
  /-- The first iteration does. -/
  | here {more : Nat} {lam : ℝ} : Tries la M δ bound tol more lam lam
  /-- An iteration after one that has not settled does. -/
  | later {more : Nat} {lam next mu : ℝ} {s : Vector ℝ n}
    (iterated : M.rootIteration la δ bound lam = .ok (s, next))
    (unsettled : ¬ Scalar.abs (next - lam) < tol) (rest : Tries la M δ bound tol more next mu) :
    Tries la M δ bound tol (more + 1) lam mu

/-- No multiplier that is tried falls below the bound. -/
theorem Tries.bound_le (exact_la : la.Exact) (E : M.Exact) (sloped : M.Sloped) (delta_pos : 0 < δ)
    (tries : M.Tries la δ (M.multiplierBound pos) tol more lam mu)
    (le : M.multiplierBound pos ≤ lam) : M.multiplierBound pos ≤ mu := by
  induction tries with
  | here => exact le
  | later iterated unsettled rest ih =>
    rw [rootIteration_eq exact_la E sloped delta_pos (E.definite le), Except.ok.injEq,
      Prod.mk.injEq] at iterated
    refine ih ?_
    rw [← iterated.2]
    exact bound_le_nextMultiplier le

/-- Root finding depends on the factorizations of these matrices, and of no others. -/
theorem findRoot_congr {la' : LinearAlgebra ℝ} {bound : ℝ}
    (solve : ∀ {k : Nat} (A : SquareMatrix ℝ k) b, la'.solve A b = la.solve A b)
    (cholesky : ∀ mu, M.Tries la δ bound tol more lam mu →
      la'.cholesky (M.hessian.shift mu) = la.cholesky (M.hessian.shift mu)) :
    M.findRoot la' δ bound tol more lam = M.findRoot la δ bound tol more lam := by
  have same {lam : ℝ} (factor : la'.cholesky (M.hessian.shift lam) =
      la.cholesky (M.hessian.shift lam)) :
      M.rootIteration la' δ bound lam = M.rootIteration la δ bound lam := by
    unfold rootIteration regularizedStep
    simp only [factor, solve]
  induction more generalizing lam with
  | zero =>
    unfold findRoot
    rw [same (cholesky lam .here)]
  | succ more ih =>
    unfold findRoot
    rw [same (cholesky lam .here)]
    cases iterated : M.rootIteration la δ bound lam with
    | error fault => rfl
    | ok result =>
      obtain ⟨s, next⟩ := result
      show (if Scalar.abs (next - lam) < tol then _ else M.findRoot la' δ bound tol more next) =
        if Scalar.abs (next - lam) < tol then _ else M.findRoot la δ bound tol more next
      split
      · rfl
      · next unsettled =>
        exact ih fun mu tries => cholesky mu (.later iterated unsettled tries)

/-- Divisors, radicands and matrices to factorize of a subproblem are as they must be. -/
structure WellPosed (pos : 0 < n) (la : LinearAlgebra ℝ) (M : Model ℝ n) (δ : ℝ)
    (limits : RootLimits ℝ) : Prop where
  /-- The divisors of the Newton step, if it is considered. -/
  newton : definiteThreshold ≤ M.least pos → ∀ j, M.spectrum.eigenvalues j ≠ 0
  /-- The divisors of the step with the least multiplier. -/
  lifted : ∀ j, M.multiplierBound pos + M.spectrum.eigenvalues j ≠ 0
  /-- The radicand of `reach`, where the solution is completed by that length. -/
  radicand : ∀ solution, M.solve pos la δ (δ ^ 2) limits.tolerance limits.maxIterations.toNat =
      .ok solution → solution.outcome.hardCase = true →
    ∃ k, solution.step = M.eigenvectorStep pos (M.multiplierBound pos) (M.reach pos δ k) k ∧
      0 ≤ δ ^ 2 - M.squaredLength (M.multiplierBound pos) k
  /-- The matrices that root finding factorizes. -/
  factorized : M.gradient.all Scalar.isZero = false → ∀ mu,
    M.Tries la δ (M.multiplierBound pos) limits.tolerance (limits.maxIterations.toNat - 1)
      (M.firstMultiplier pos) mu → (M.hessian.shift mu).toMatrix.PosDef
  /-- The divisors of root finding. -/
  divisor : M.gradient.all Scalar.isZero = false → ∀ mu,
    M.Tries la δ (M.multiplierBound pos) limits.tolerance (limits.maxIterations.toNat - 1)
      (M.firstMultiplier pos) mu →
    ∃ s q, M.regularizedStep la mu = .ok (s, q) ∧ δ * dot q q ≠ 0

theorem Exact.sloped (E : M.Exact) (nonzero : M.gradient.all Scalar.isZero = false) :
    M.Sloped := by
  refine E.gradient_ne_zero ?_
  by_contra all
  push Not at all
  rw [(all_isZero_iff _).2 all] at nonzero
  cases nonzero

theorem Exact.wellPosed (exact_la : la.Exact) (E : M.Exact) (pos : 0 < n) (delta_pos : 0 < δ)
    (limits : RootLimits ℝ) : M.WellPosed pos la δ limits := by
  have definite (nonzero : M.gradient.all Scalar.isZero = false) {mu : ℝ}
      (tries : M.Tries la δ (M.multiplierBound pos) limits.tolerance
        (limits.maxIterations.toNat - 1) (M.firstMultiplier pos) mu) : M.Definite mu :=
    E.definite (tries.bound_le exact_la E (E.sloped nonzero) delta_pos
      (bound_le_firstMultiplier pos M))
  constructor
  case newton =>
    intro threshold j
    have least := E.least_le pos j
    exact (lt_of_lt_of_le definiteThreshold_pos (threshold.trans least)).ne'
  case lifted =>
    intro j
    exact (E.definite (le_refl (M.multiplierBound pos)) j).ne'
  case radicand =>
    intro solution solved hard
    obtain ⟨solution', solved', route⟩ :=
      solve_route exact_la E delta_pos pos limits.tolerance limits.maxIterations.toNat
    obtain rfl : solution = solution' := Except.ok.inj (solved.symm.trans solved')
    obtain ⟨k, completes, step⟩ := route.exists_completes hard
    exact ⟨k, step, sub_nonneg.2 completes.2⟩
  case factorized =>
    intro nonzero mu tries
    exact E.posDef_shift (definite nonzero tries)
  case divisor =>
    intro nonzero mu tries
    obtain ⟨q, step, q_sq⟩ := regularizedStep_eq exact_la E (definite nonzero tries)
    refine ⟨_, q, step, ?_⟩
    rw [q_sq]
    exact (mul_pos delta_pos (steepness_pos (E.sloped nonzero) (definite nonzero tries))).ne'

end Model

/-! ## Factorizations that refuse all other matrices -/

open Classical in
/-- The same operations, but for a matrix that is not positive definite there is no factor. -/
noncomputable def LinearAlgebra.refusing (la : LinearAlgebra ℝ) : LinearAlgebra ℝ :=
  { la with
    cholesky := fun A =>
      if A.toMatrix.PosDef then la.cholesky A else .error .notPositiveDefinite }

section Refusing

variable {n : Nat} {la : LinearAlgebra ℝ} {δ : ℝ}

theorem Model.boundarySolution_refusing {M : Model ℝ n} {pos : 0 < n} (exact_la : la.Exact)
    (E : M.Exact) (sloped : M.Sloped) (delta_pos : 0 < δ) (tol : ℝ) (iterations : Nat) :
    M.boundarySolution la.refusing δ (δ ^ 2) (M.multiplierBound pos) (M.firstMultiplier pos) tol
        iterations =
      M.boundarySolution la δ (δ ^ 2) (M.multiplierBound pos) (M.firstMultiplier pos) tol
        iterations := by
  have factors : ∀ mu, M.Tries la δ (M.multiplierBound pos) tol (iterations - 1)
      (M.firstMultiplier pos) mu →
      la.refusing.cholesky (M.hessian.shift mu) = la.cholesky (M.hessian.shift mu) := by
    intro mu tries
    have le := tries.bound_le exact_la E sloped delta_pos (bound_le_firstMultiplier pos M)
    exact if_pos (E.posDef_shift (E.definite le))
  have found : M.findRoot la.refusing δ (M.multiplierBound pos) tol (iterations - 1)
      (M.firstMultiplier pos) =
      M.findRoot la δ (M.multiplierBound pos) tol (iterations - 1) (M.firstMultiplier pos) :=
    findRoot_congr (fun _ _ => rfl) factors
  unfold boundarySolution
  rw [found]

theorem Model.solve_refusing {M : Model ℝ n} (exact_la : la.Exact) (E : M.Exact) (pos : 0 < n)
    (delta_pos : 0 < δ) (tol : ℝ) (iterations : Nat) :
    M.solve pos la.refusing δ (δ ^ 2) tol iterations = M.solve pos la δ (δ ^ 2) tol iterations := by
  unfold solve
  split
  · rfl
  · dsimp only
    split
    · rfl
    · split
      · rfl
      · next nonzero =>
        exact boundarySolution_refusing exact_la E (E.sloped (eq_false_of_ne_true nonzero))
          delta_pos tol iterations

theorem solveSubproblem_refusing (exact_la : la.Exact) (pos : 0 < n) (g : Vector ℝ n)
    (H : SquareMatrix ℝ n) (delta_pos : 0 < δ) (tol : ℝ) (iterations : Nat) :
    solveSubproblem pos la.refusing g H δ tol iterations =
      solveSubproblem pos la g H δ tol iterations := by
  obtain ⟨M, modelled, E, -, -⟩ := Model.ofDerivatives_eq exact_la g H
  have modelled' : Model.ofDerivatives la.refusing g H = .ok M := modelled
  unfold solveSubproblem
  rw [checkedSquare_real, modelled, modelled']
  exact M.solve_refusing exact_la E pos delta_pos tol iterations

theorem proposeStep_refusing (exact_la : la.Exact) (checked : Bool) (g H : Tensor ℝ) (δ : ℝ)
    (shape : Shape) (tol : ℝ) (iterations : Int) :
    proposeStep la.refusing checked g H δ shape tol iterations =
      proposeStep la checked g H δ shape tol iterations := by
  unfold proposeStep
  dsimp only
  split
  · rfl
  · split
    · rfl
    · split
      · rfl
      · split
        · rfl
        · split
          · rfl
          · split
            · rfl
            · next delta_pos =>
              rw [solveSubproblem_refusing exact_la _ _ _ (not_not.1 delta_pos)]

end Refusing

end TrustRegion
