/-
  When a proposed step lies in the region.

  Every route but root finding ends in the region: the Newton step is tested against the radius,
  the completed step ends on the boundary, and the empty step has length zero. Root finding hands
  out the step of its last multiplier as it is. That step fits if none before it was too long; after
  one that was, only a gradient that is an eigenvector leads back, with a step that ends exactly on
  the boundary (`norm_proposal_le_iff`). `overlong_proposal` is a step of one and a half radii,
  reported as a solution.
-/
import TrustRegion.Proofs.OneVariable
import TrustRegion.Proofs.Factorizations

namespace TrustRegion

variable {n : Nat} {la : LinearAlgebra ℝ} {checked : Bool} {g : Vector ℝ n} {H : SquareMatrix ℝ n}
  {δ tol : ℝ} {iterations : Int} {proposal : Proposal ℝ}

namespace Model

variable {M : Model ℝ n} {pos : 0 < n} {more : Nat} {solution : Solution ℝ n}

theorem Exact.norm_newtonStep (E : M.Exact) (delta_pos : 0 < δ) (fits : M.NewtonFits pos δ) :
    norm M.newtonStep ≤ δ := by
  rw [norm_le_iff _ delta_pos.le, newtonStep_eq, E.dot_stepAt]
  exact fits.2

/-- Without root finding the step of a route lies in the region. -/
theorem Route.norm_le (route : M.Route pos δ tol more solution) (E : M.Exact) (delta_pos : 0 < δ)
    (shortcut : ¬ M.SeeksRoot pos δ) : norm solution.step ≤ δ := by
  cases route with
  | newton fits => exact E.norm_newtonStep delta_pos fits
  | eigenvector misfit completes => exact (E.norm_completedStep delta_pos completes).le
  | stationary misfit incomplete flat =>
    rw [norm_stationaryStep]
    exact delta_pos.le
  | boundary seeks ends remark => exact absurd seeks shortcut

/-- Root finding hands out the step of its last multiplier. -/
theorem Route.exists_multiplier (route : M.Route pos δ tol more solution)
    (seeks : M.SeeksRoot pos δ) : ∃ i, M.EndsAt pos δ (M.firstMultiplier pos) tol more i ∧
      solution.step = M.stepAt (M.multiplier pos δ i) := by
  obtain ⟨i, remark, ends, rfl⟩ := route.eq_boundary seeks
  exact ⟨i, ends, rfl⟩

end Model

/--
A proposed step fits into the region unless it comes from root finding; and then it fits if and
only if the steps of all multipliers tried so far fit, or the gradient is an eigenvector whose step
ends on the boundary. Outside of the hard case, the steps fit if and only if the first one does.
-/
theorem norm_proposal_le_iff (exact_la : la.Exact) (pos : 0 < n)
    (returned : proposeStep la checked (.ofVector g) (.ofSquare H) δ [n] tol iterations =
      .ok proposal) :
    ∃ (M : Model ℝ n) (s : Vector ℝ n), Model.ofDerivatives la g H = .ok M ∧
      proposal.step = .ofVector s ∧
      (¬ M.SeeksRoot pos δ → norm s ≤ δ) ∧
      (M.SeeksRoot pos δ →
        ∃ i, M.EndsAt pos δ (M.firstMultiplier pos) tol (iterations.toNat - 1) i ∧
          s = M.stepAt (M.multiplier pos δ i) ∧
          (norm s ≤ δ ↔ M.StaysShort pos δ i ∨ M.HitsBoundary δ (M.multiplier pos δ i)) ∧
          ((M.hardCase pos).1 = false →
            (M.StaysShort pos δ i ↔ M.stepLength (M.multiplierBound pos) ≤ δ))) := by
  obtain ⟨delta_pos, M, solution, modelled, E, -, -, route, rfl⟩ :=
    exists_route exact_la pos returned
  refine ⟨M, solution.step, modelled, rfl, route.norm_le E delta_pos, ?_⟩
  intro seeks
  obtain ⟨i, ends, step⟩ := route.exists_multiplier seeks
  refine ⟨i, ends, step, ?_, fun easy => E.staysShort_iff seeks.sloped delta_pos easy i⟩
  rw [step, E.norm_stepAt]
  exact E.stepLength_multiplier_le_iff seeks.sloped delta_pos pos i

/-- A step of one and a half radii, handed out as a solution on the boundary. -/
theorem overlong_proposal : ∃ proposal,
    proposeStep LinearAlgebra.exact false (.ofVector #v[1.5e-8]) (.ofSquare #v[#v[-1]]) 1 [1] 1e-10
      5 = .ok proposal ∧ proposal.outcome.reached = true ∧
      ∃ s : Vector ℝ 1, proposal.step = .ofVector s ∧ ¬ norm s ≤ 1 := by
  have noticed : tieThreshold < |(1.5e-8 : ℝ)| := by
    norm_num [tieThreshold_eq]
  have weak : |(1.5e-8 : ℝ)| < 2 * definiteThreshold * 1 := by
    norm_num [definiteThreshold_eq]
  obtain ⟨proposal, returned, step, outcome⟩ := proposeStep_oneVariable LinearAlgebra.exact_exact
    (by norm_num : (-1 : ℝ) < 0) noticed one_pos weak (by norm_num : (0 : ℝ) < 1e-10)
    (by norm_num : (1 : Int) ≤ 5)
  refine ⟨proposal, returned, by rw [outcome], _, step, ?_⟩
  rw [norm_le_iff _ zero_le_one, real_dot, Fin.sum_univ_one]
  show ¬ (-(10 ^ 8 * 1.5e-8) * -(10 ^ 8 * 1.5e-8) : ℝ) ≤ 1 ^ 2
  norm_num

theorem norm_proposal_le_iff_weak : ∃ proposal,
    proposeStep LinearAlgebra.exact false (.ofVector #v[1e-9]) (.ofSquare #v[#v[-1]]) 1 [1] 1e-10
      5 = .ok proposal ∧
    ∃ (M : Model ℝ 1) (s : Vector ℝ 1),
      Model.ofDerivatives LinearAlgebra.exact #v[1e-9] #v[#v[-1]] = .ok M ∧
      proposal.step = .ofVector s ∧
      (¬ M.SeeksRoot Nat.one_pos 1 → norm s ≤ 1) ∧
      (M.SeeksRoot Nat.one_pos 1 →
        ∃ i, M.EndsAt Nat.one_pos 1 (M.firstMultiplier Nat.one_pos) 1e-10 4 i ∧
          s = M.stepAt (M.multiplier Nat.one_pos 1 i) ∧
          (norm s ≤ 1 ↔ M.StaysShort Nat.one_pos 1 i ∨
            M.HitsBoundary 1 (M.multiplier Nat.one_pos 1 i)) ∧
          ((M.hardCase Nat.one_pos).1 = false →
            (M.StaysShort Nat.one_pos 1 i ↔ M.stepLength (M.multiplierBound Nat.one_pos) ≤ 1))) := by
  obtain ⟨proposal, returned⟩ := proposeStep_total LinearAlgebra.exact_exact Nat.one_pos #v[1e-9]
    #v[#v[-1]] one_pos 1e-10
    (by norm_num : (1 : Int) ≤ 5)
  exact ⟨proposal, returned,
    norm_proposal_le_iff LinearAlgebra.exact_exact Nat.one_pos returned⟩

end TrustRegion
