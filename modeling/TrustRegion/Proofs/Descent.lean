/-
  Solved steps go downhill.

  The value of the model at the step of a multiplier is a sum over the eigenvalues
  (`value_stepAt`). Where the multiplier is not negative, the step goes downhill, and among the steps
  that are no longer it alone has the least value (`value_stepAt_lt_of_shorter`). A negative
  multiplier stands for a convex model whose Newton step is too long; there a step goes downhill if
  it is shorter than two Newton steps (`value_stepAt_neg_of_short`). Where root finding settles, the
  step is shorter than two radii (`stepLength_lt_two_mul`), and the Newton step is longer than one.
  So every solved step outside of the hard case goes downhill (`solved_step_descends`). Where the
  model is not convex, the multiplier is positive whether it has settled or not, and the step is the
  best one of its length (`step_least_of_length`).
-/
import TrustRegion.Proofs.NewtonStep
import TrustRegion.Proofs.OneVariable
import TrustRegion.Proofs.Factorizations

namespace TrustRegion

variable {n : Nat}

theorem eq_of_norm_nonpos {v : Vector ℝ n} (short : norm v ≤ 0) : v = Vector.ofFn fun _ => 0 := by
  have square : ∑ i, v i * v i = 0 := by
    rw [← real_dot, ← norm_sq, le_antisymm short (norm_nonneg v), zero_pow two_ne_zero]
  rw [Finset.sum_eq_zero_iff_of_nonneg fun i _ => mul_self_nonneg (v i)] at square
  refine vector_ext fun i => ?_
  rw [get_vectorOfFn]
  exact mul_self_eq_zero.1 (square i (Finset.mem_univ i))

namespace Model

variable {M : Model ℝ n} {lam δ tol : ℝ} {pos : 0 < n} {i more : Nat} {solution : Solution ℝ n}

/-! ## The value of the model at the step of a multiplier -/

theorem Exact.value_stepAt (E : M.Exact) (definite : M.Definite lam) :
    M.value (M.stepAt lam) =
      -(∑ j, M.projections j ^ 2 / M.lifted lam j + lam * M.squaredLength lam 0) / 2 := by
  have solves := E.solves_stepAt definite.flat
  rw [E.value_of_solves solves, solves.sum_lifted_mul_sq definite.flat, E.dot_stepAt]

/-- The step of a multiplier that is not negative goes downhill. -/
theorem Exact.value_stepAt_neg (E : M.Exact) (sloped : M.Sloped) (definite : M.Definite lam)
    (nonneg : 0 ≤ lam) : M.value (M.stepAt lam) < 0 := by
  have curved : 0 < ∑ j, M.projections j ^ 2 / M.lifted lam j := sloped.sum_pos definite
  have long := mul_nonneg nonneg (M.squaredLength_nonneg lam 0)
  rw [E.value_stepAt definite]
  linarith

/-- Among the steps that are no longer, the step of a multiplier alone has the least value. -/
theorem Exact.value_stepAt_lt_of_shorter (E : M.Exact) (definite : M.Definite lam)
    (nonneg : 0 ≤ lam) {t : Vector ℝ n} (shorter : norm t ≤ norm (M.stepAt lam))
    (other : t ≠ M.stepAt lam) : M.value (M.stepAt lam) < M.value t := by
  refine E.value_stepAt_lt definite (mul_nonneg nonneg (sub_nonneg.2 ?_)) other
  rw [← norm_sq (M.stepAt lam)]
  exact (norm_le_iff t (norm_nonneg _)).1 shorter

/-! ## Negative multipliers -/

/--
The geometric mean of the two parts of an eigenvalue, the lifted one and what is taken off, is at
most the arithmetic mean; here summed up over all eigenvalues.
-/
theorem Definite.four_mul_squaredLength_le (definite : M.Definite lam) (negative : lam < 0) :
    4 * -lam * M.squaredLength 0 0 ≤ ∑ j, M.projections j ^ 2 / M.lifted lam j := by
  rw [squaredLength_zero, Finset.mul_sum]
  refine Finset.sum_le_sum fun j _ => ?_
  have lifted_pos := definite j
  have parts : M.lifted 0 j = M.lifted lam j + -lam := by
    rw [← lifted_add, add_neg_cancel]
  have eigenvalue_pos : 0 < M.lifted 0 j := by linarith
  have means : 4 * -lam * M.lifted lam j ≤ M.lifted 0 j ^ 2 := by
    rw [parts]
    nlinarith [sq_nonneg (M.lifted lam j + lam)]
  rw [mul_div_assoc', div_le_div_iff₀ (by positivity) lifted_pos]
  calc 4 * -lam * M.projections j ^ 2 * M.lifted lam j
      = M.projections j ^ 2 * (4 * -lam * M.lifted lam j) := by ring
    _ ≤ M.projections j ^ 2 * M.lifted 0 j ^ 2 :=
        mul_le_mul_of_nonneg_left means (sq_nonneg _)

/-- The step of a negative multiplier goes downhill if it is shorter than two Newton steps. -/
theorem Exact.value_stepAt_neg_of_short (E : M.Exact) (definite : M.Definite lam)
    (negative : lam < 0) (short : M.squaredLength lam 0 < 4 * M.squaredLength 0 0) :
    M.value (M.stepAt lam) < 0 := by
  have curved := definite.four_mul_squaredLength_le negative
  have gain := mul_lt_mul_of_pos_left short (neg_pos.2 negative)
  rw [E.value_stepAt definite]
  linarith

/-! ## Where root finding settles -/

/-- A multiplier that hardly changes has a step shorter than two radii. -/
theorem Exact.stepLength_lt_two_mul (E : M.Exact) (sloped : M.Sloped) (delta_pos : 0 < δ)
    (le : M.multiplierBound pos ≤ lam)
    (settled : |M.nextMultiplier pos δ lam - lam| < definiteThreshold) :
    M.stepLength lam < 2 * δ := by
  -- The proposal is near, too, whether it is taken or turned down.
  have proposed : M.newton δ lam < lam + definiteThreshold := by
    unfold nextMultiplier at settled
    split at settled
    · linarith
    · linarith [(abs_lt.1 settled).2]
  by_contra long
  rw [not_lt] at long
  have beyond : δ < M.stepLength lam := by linarith
  have rises := lt_newton sloped (E.definite le) delta_pos beyond
  have near := E.mul_abs_stepLength_sub_le sloped delta_pos le
  rw [abs_of_pos (sub_pos.2 beyond), abs_of_pos (sub_pos.2 rises)] at near
  have short : definiteThreshold * (M.stepLength lam - δ) < definiteThreshold * δ :=
    near.trans_lt (mul_lt_mul_of_pos_right (by linarith) delta_pos)
  linarith [lt_of_mul_lt_mul_left short definiteThreshold_pos.le]

/-- Where root finding settles, its step goes downhill. -/
theorem Exact.value_neg_of_settles (E : M.Exact) (seeks : M.SeeksRoot pos δ) (delta_pos : 0 < δ)
    (fine : tol ≤ definiteThreshold)
    (settles : M.Settles pos δ (M.firstMultiplier pos) tol i) :
    M.value (M.stepAt (M.multiplier pos δ i)) < 0 := by
  have le := bound_le_multiplier pos M δ i
  by_cases negative : M.multiplier pos δ i < 0
  · have far := far_of_negative seeks.misfit le negative
    have short := E.stepLength_lt_two_mul seeks.sloped delta_pos le (settles.trans_le fine)
    have square := pow_lt_pow_left₀ short (M.stepLength_nonneg _) two_ne_zero
    rw [stepLength_sq] at square
    exact E.value_stepAt_neg_of_short (E.definite le) negative (by linarith)
  · exact E.value_stepAt_neg seeks.sloped (E.definite le) (not_lt.1 negative)

/-! ## The routes outside of the hard case -/

/-- A solved step outside of the hard case goes downhill where there is a slope. -/
theorem Route.m_neg (route : M.Route pos δ tol more solution) (E : M.Exact) (delta_pos : 0 < δ)
    (fine : tol ≤ definiteThreshold) (reached : solution.outcome.reached = true)
    (easy : solution.outcome.hardCase = false) (sloped : M.Sloped) : solution.outcome.m < 0 := by
  cases route with
  | newton fits =>
    change M.value M.newtonStep < 0
    rw [newtonStep_eq]
    exact E.value_stepAt_neg sloped (fits.definite E) (le_refl 0)
  | eigenvector misfit completes => cases easy
  | stationary misfit incomplete flat => exact absurd flat sloped.not_flat
  | @boundary i seeks ends remark =>
    have settles : M.Settles pos δ (M.firstMultiplier pos) tol i := by
      classical exact of_decide_eq_true reached
    exact E.value_neg_of_settles seeks delta_pos fine settles

/-- Without a slope there is no step outside of the hard case. -/
theorem Route.step_of_flat (route : M.Route pos δ tol more solution)
    (easy : solution.outcome.hardCase = false) (flat : ∀ j, M.projections j = 0) :
    solution.step = Vector.ofFn fun _ => 0 := by
  cases route with
  | newton fits =>
    have coordinates : (fun j => -(M.projections j / M.lifted 0 j)) = 0 :=
      funext fun j => by rw [flat j, zero_div, neg_zero, Pi.zero_apply]
    change M.newtonStep = _
    rw [newtonStep_eq, stepAt, coordinates, Spectrum.ofCoordinates, Matrix.mulVec_zero]
    rfl
  | eigenvector misfit completes => cases easy
  | stationary misfit incomplete flat => rfl
  | boundary seeks ends remark => exact absurd flat seeks.sloped.not_flat

/-- Where the model is not convex, a step outside of the hard case is the best of its length. -/
theorem Route.m_lt (route : M.Route pos δ tol more solution) (E : M.Exact)
    (easy : solution.outcome.hardCase = false) (weak : M.least pos < definiteThreshold)
    {t : Vector ℝ n} (shorter : norm t ≤ norm solution.step) (other : t ≠ solution.step) :
    solution.outcome.m < M.value t := by
  cases route with
  | newton fits => exact absurd weak (not_lt.2 fits.1)
  | eigenvector misfit completes => cases easy
  | stationary misfit incomplete flat =>
    rw [norm_stationaryStep] at shorter
    exact absurd (eq_of_norm_nonpos shorter) other
  | @boundary i seeks ends remark =>
    have le := bound_le_multiplier pos M δ i
    have nonneg : 0 ≤ M.multiplier pos δ i := by
      have lifts := M.definiteThreshold_le_margin pos
      rw [multiplierBound_eq] at le
      linarith
    exact E.value_stepAt_lt_of_shorter (E.definite le) nonneg shorter other

end Model

/-! ## The solver -/

/-- A weak gradient and a curvature of `-1`: the step at the bound, outside of the hard case. -/
theorem exists_concave_proposal {tol : ℝ} (tol_pos : 0 < tol) : ∃ proposal,
    proposeStep LinearAlgebra.exact false (.ofVector #v[1e-9]) (.ofSquare #v[#v[-1]]) 1 [1] tol 5 =
      .ok proposal ∧ proposal.outcome.reached = true ∧ proposal.outcome.hardCase = false := by
  have noticed : tieThreshold < |(1e-9 : ℝ)| := by
    norm_num [tieThreshold_eq]
  have weak : |(1e-9 : ℝ)| < 2 * definiteThreshold * 1 := by
    norm_num [definiteThreshold_eq]
  obtain ⟨proposal, returned, -, outcome⟩ := proposeStep_oneVariable LinearAlgebra.exact_exact
    (by norm_num : (-1 : ℝ) < 0) noticed one_pos weak tol_pos (by norm_num : (1 : Int) ≤ 5)
  exact ⟨proposal, returned, by rw [outcome], by rw [outcome]⟩

/-- The only entry of a matrix is its eigenvalue. -/
theorem mem_spectrum_oneVariable (h : ℝ) :
    h ∈ spectrum ℝ (SquareMatrix.symmetricPart #v[#v[h]] : SquareMatrix ℝ 1).toMatrix := by
  obtain ⟨M, -, L, -⟩ := exists_line LinearAlgebra.exact_exact 1 h one_pos 1 (le_refl 1)
  have mem := L.exact.diagonalizes.mem_spectrum 0
  rwa [L.eigenvalue one_ne_zero, L.hessian] at mem

section Solver

variable {la : LinearAlgebra ℝ} {checked : Bool} {g : Vector ℝ n} {H : SquareMatrix ℝ n} {δ tol : ℝ}
  {iterations : Int} {proposal : Proposal ℝ}

/--
With a tolerance of at most `1e-8`, a solved step outside of the hard case goes downhill, unless the
gradient is zero: then it does not move.
-/
theorem solved_step_descends (exact_la : la.Exact) (pos : 0 < n)
    (returned : proposeStep la checked (.ofVector g) (.ofSquare H) δ [n] tol iterations =
      .ok proposal)
    (fine : tol ≤ 1e-8) (reached : proposal.outcome.reached = true)
    (easy : proposal.outcome.hardCase = false) :
    ∃ s, proposal.step = .ofVector s ∧ proposal.outcome.m = quadraticModel g H s ∧
      ((∃ i, g i ≠ 0) → proposal.outcome.m < 0) ∧
      ((∀ i, g i = 0) → proposal.outcome.m = 0 ∧ ∀ i, s i = 0) := by
  obtain ⟨delta_pos, M, solution, -, E, gradient, hessian, route, rfl⟩ :=
    exists_route exact_la pos returned
  refine ⟨solution.step, rfl, ?_, fun nonzero => ?_, fun zero => ?_⟩
  · rw [← Model.value_eq_quadraticModel gradient hessian]
    exact route.m_eq
  · have fine : tol ≤ definiteThreshold := fine
    rw [← gradient] at nonzero
    exact route.m_neg E delta_pos fine reached easy (E.gradient_ne_zero nonzero)
  · rw [← gradient] at zero
    have stays := route.step_of_flat easy (E.flat zero)
    refine ⟨?_, fun i => ?_⟩
    · have model : solution.toProposal.outcome.m = M.value solution.step := route.m_eq
      rw [model, stays, M.value_zero]
    · rw [stays, get_vectorOfFn]

theorem solved_step_descends_concave : ∃ proposal,
    proposeStep LinearAlgebra.exact false (.ofVector #v[1e-9]) (.ofSquare #v[#v[-1]]) 1 [1] 1e-8 5 =
      .ok proposal ∧ (1e-8 : ℝ) ≤ 1e-8 ∧ proposal.outcome.reached = true ∧
    proposal.outcome.hardCase = false ∧
    ∃ s : Vector ℝ 1, proposal.step = .ofVector s ∧
      proposal.outcome.m = quadraticModel #v[1e-9] #v[#v[-1]] s ∧
      ((∃ i, (#v[1e-9] : Vector ℝ 1) i ≠ 0) → proposal.outcome.m < 0) ∧
      ((∀ i, (#v[1e-9] : Vector ℝ 1) i = 0) → proposal.outcome.m = 0 ∧ ∀ i, s i = 0) := by
  obtain ⟨proposal, returned, reached, easy⟩ := exists_concave_proposal (by norm_num : (0 : ℝ) < 1e-8)
  exact ⟨proposal, returned, le_rfl, reached, easy,
    solved_step_descends LinearAlgebra.exact_exact Nat.one_pos returned le_rfl reached easy⟩

/--
Where some eigenvalue of the Hessian does not count as positive, every step outside of the hard case,
settled or not, has the least value of the model among all steps that are no longer, and it is the
only one that has.
-/
theorem step_least_of_length (exact_la : la.Exact) (pos : 0 < n)
    (returned : proposeStep la checked (.ofVector g) (.ofSquare H) δ [n] tol iterations =
      .ok proposal)
    (easy : proposal.outcome.hardCase = false)
    (weak : ∃ e ∈ spectrum ℝ H.symmetricPart.toMatrix, e < 1e-8) :
    ∃ s, proposal.step = .ofVector s ∧ proposal.outcome.m = quadraticModel g H s ∧
      ∀ t, norm t ≤ norm s → proposal.outcome.m ≤ quadraticModel g H t ∧
        (quadraticModel g H t ≤ proposal.outcome.m → t = s) := by
  obtain ⟨-, M, solution, -, E, gradient, hessian, route, rfl⟩ :=
    exists_route exact_la pos returned
  have model : solution.toProposal.outcome.m = quadraticModel g H solution.step := by
    rw [← Model.value_eq_quadraticModel gradient hessian]
    exact route.m_eq
  have weak : M.least pos < definiteThreshold := by
    obtain ⟨e, mem, below⟩ := weak
    rw [← hessian, E.diagonalizes.spectrum_eq] at mem
    obtain ⟨j, rfl⟩ := mem
    exact (E.least_le pos j).trans_lt below
  refine ⟨solution.step, rfl, model, fun t shorter => ?_⟩
  by_cases same : t = solution.step
  · exact ⟨by rw [same, model], fun _ => same⟩
  · have less := route.m_lt E easy weak shorter same
    rw [Model.value_eq_quadraticModel gradient hessian] at less
    exact ⟨less.le, fun le => absurd less (not_lt.2 le)⟩

theorem step_least_of_length_concave : ∃ proposal,
    proposeStep LinearAlgebra.exact false (.ofVector #v[1e-9]) (.ofSquare #v[#v[-1]]) 1 [1] 1e-10
      5 = .ok proposal ∧ proposal.outcome.hardCase = false ∧
    (∃ e ∈ spectrum ℝ (SquareMatrix.symmetricPart #v[#v[-1]] : SquareMatrix ℝ 1).toMatrix,
      e < 1e-8) ∧
    ∃ s : Vector ℝ 1, proposal.step = .ofVector s ∧
      proposal.outcome.m = quadraticModel #v[1e-9] #v[#v[-1]] s ∧
      ∀ t, norm t ≤ norm s → proposal.outcome.m ≤ quadraticModel #v[1e-9] #v[#v[-1]] t ∧
        (quadraticModel #v[1e-9] #v[#v[-1]] t ≤ proposal.outcome.m → t = s) := by
  obtain ⟨proposal, returned, -, easy⟩ := exists_concave_proposal (by norm_num : (0 : ℝ) < 1e-10)
  have weak : ∃ e ∈ spectrum ℝ (SquareMatrix.symmetricPart #v[#v[-1]] : SquareMatrix ℝ 1).toMatrix,
      e < 1e-8 :=
    ⟨-1, mem_spectrum_oneVariable (-1), by norm_num⟩
  exact ⟨proposal, returned, easy, weak,
    step_least_of_length LinearAlgebra.exact_exact Nat.one_pos returned easy weak⟩

end Solver

end TrustRegion
