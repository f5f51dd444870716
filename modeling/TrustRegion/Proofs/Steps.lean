/-
  The steps of the routes in coordinates.

  The Newton step is the step of the multiplier zero. The step that is completed along the first
  eigenvector has the components of a multiplier's step from some number on and nothing before it
  but the first, so the square of its length is a sum of two squares (`dot_eigenvectorStep`).
-/
import TrustRegion.Proofs.Routes

namespace TrustRegion

open Matrix

variable {n : Nat}

namespace Model

variable {M : Model ℝ n} {lam δ tau : ℝ} {pos : 0 < n} {k : Nat}

theorem newtonStep_eq (M : Model ℝ n) : M.newtonStep = M.stepAt 0 := by
  refine vector_ext fun i => ?_
  have entry : M.newtonStep.get i = Scalar.sum fun j : Fin n =>
      -(M.spectrum.eigenvectors i j / M.spectrum.eigenvalues j) * M.projections j :=
    get_vectorOfFn _ i
  have entry' : (M.stepAt 0).get i =
      ∑ j, M.spectrum.eigenvectors i j * -(M.projections j / M.lifted 0 j) :=
    get_vectorOfFn _ i
  rw [entry, entry', Scalar.real_sum]
  refine Finset.sum_congr rfl fun j _ => ?_
  rw [lifted_zero]
  ring

theorem NewtonFits.definite (E : M.Exact) (fits : M.NewtonFits pos δ) : M.Definite 0 := fun j => by
  rw [lifted_zero]
  exact definiteThreshold_pos.trans_le (fits.1.trans (E.least_le pos j))

theorem not_newtonFits_of_hard (hard : (M.hardCase pos).1 = true) : ¬ M.NewtonFits pos δ := by
  intro fits
  have negative := (hardCase_eq_true (Prod.ext hard rfl)).1
  exact absurd (fits.1.trans_lt negative) definiteThreshold_pos.not_gt

/-- A negative multiplier stands for a convex model whose Newton step does not fit. -/
theorem far_of_negative (misfit : ¬ M.NewtonFits pos δ) (le : M.multiplierBound pos ≤ lam)
    (negative : lam < 0) : δ ^ 2 < M.squaredLength 0 0 := by
  have convex : definiteThreshold ≤ M.least pos := by
    have threshold := M.definiteThreshold_le_margin pos
    rw [multiplierBound_eq] at le
    linarith
  exact not_le.1 fun fits => misfit ⟨convex, fits⟩

theorem Completes.hard (completes : M.Completes pos δ k) : (M.hardCase pos).1 = true := by
  rw [completes.1]

/-- The coordinates of the step that is completed along the first eigenvector. -/
noncomputable def completed (pos : 0 < n) (M : Model ℝ n) (lam tau : ℝ) (k : Nat) (j : Fin n) : ℝ :=
  (if j = ⟨0, pos⟩ then tau else 0) - if k ≤ j.val then M.projections j / M.lifted lam j else 0

theorem completed_zero (k_pos : 0 < k) (lam tau : ℝ) : M.completed pos lam tau k ⟨0, pos⟩ = tau := by
  rw [completed, if_pos rfl, if_neg (Nat.not_le.2 k_pos), sub_zero]

theorem completed_of_lt {j : Fin n} (off : j ≠ ⟨0, pos⟩) (lt : j.val < k) (lam tau : ℝ) :
    M.completed pos lam tau k j = 0 := by
  rw [completed, if_neg off, if_neg (Nat.not_le.2 lt), sub_zero]

theorem completed_of_le {j : Fin n} (off : j ≠ ⟨0, pos⟩) (le : k ≤ j.val) (lam tau : ℝ) :
    M.completed pos lam tau k j = -(M.projections j / M.lifted lam j) := by
  rw [completed, if_neg off, if_pos le, zero_sub]

theorem eigenvectorStep_eq (pos : 0 < n) (M : Model ℝ n) (lam tau : ℝ) (k : Nat) :
    M.eigenvectorStep pos lam tau k = M.spectrum.ofCoordinates (M.completed pos lam tau k) := by
  refine vector_ext fun i => ?_
  have along : M.spectrum.eigenvectors.toMatrix i ⟨0, pos⟩ * tau =
      ∑ j, M.spectrum.eigenvectors.toMatrix i j * if j = ⟨0, pos⟩ then tau else 0 := by
    rw [Finset.sum_eq_single ⟨0, pos⟩ (fun j _ off => by rw [if_neg off, mul_zero])
      (fun absent => absurd (Finset.mem_univ _) absent), if_pos rfl]
  have rest : Scalar.sumFrom k (fun j : Fin n => M.spectrum.eigenvectors i j *
        (M.projections j / (M.spectrum.eigenvalues j + lam))) =
      ∑ j, M.spectrum.eigenvectors.toMatrix i j *
        if k ≤ j.val then M.projections j / M.lifted lam j else 0 := by
    rw [Scalar.real_sumFrom]
    refine Finset.sum_congr rfl fun j _ => ?_
    rw [mul_ite, mul_zero, lifted, add_comm lam]
    rfl
  have entry : (M.eigenvectorStep pos lam tau k).get i =
      tau * M.spectrum.eigenvectors.toMatrix i ⟨0, pos⟩ - Scalar.sumFrom k fun j : Fin n =>
        M.spectrum.eigenvectors i j * (M.projections j / (M.spectrum.eigenvalues j + lam)) :=
    get_vectorOfFn _ i
  have entry' : (M.spectrum.ofCoordinates (M.completed pos lam tau k)).get i =
      ∑ j, M.spectrum.eigenvectors.toMatrix i j * M.completed pos lam tau k j :=
    get_vectorOfFn _ i
  rw [entry, entry', rest, mul_comm tau, along, ← Finset.sum_sub_distrib]
  refine Finset.sum_congr rfl fun j _ => ?_
  rw [completed]
  ring

theorem Exact.coordinates_eigenvectorStep (E : M.Exact) (pos : 0 < n) (lam tau : ℝ) (k : Nat) :
    M.spectrum.coordinates (M.eigenvectorStep pos lam tau k) = M.completed pos lam tau k := by
  rw [eigenvectorStep_eq, E.diagonalizes.coordinates_ofCoordinates]

/-- A weighted sum over the squares of the coordinates, apart from the tied block. -/
theorem sum_mul_completed_sq (pos : 0 < n) (M : Model ℝ n) (k_pos : 0 < k) (lam tau : ℝ)
    (weight : Fin n → ℝ) :
    ∑ j, weight j * M.completed pos lam tau k j ^ 2 = weight ⟨0, pos⟩ * tau ^ 2 +
      ∑ j, if k ≤ j.val then weight j * (M.projections j ^ 2 / M.lifted lam j ^ 2) else 0 := by
  have terms (j : Fin n) : weight j * M.completed pos lam tau k j ^ 2 =
      (if j = ⟨0, pos⟩ then weight ⟨0, pos⟩ * tau ^ 2 else 0) +
        if k ≤ j.val then weight j * (M.projections j ^ 2 / M.lifted lam j ^ 2) else 0 := by
    by_cases start : j = ⟨0, pos⟩
    · rw [start, completed_zero k_pos, if_pos rfl, if_neg (Nat.not_le.2 k_pos), add_zero]
    · rw [if_neg start, zero_add]
      split
      · next le => rw [completed_of_le start le, neg_sq, div_pow]
      · next lt => rw [completed_of_lt start (Nat.not_le.1 lt), zero_pow two_ne_zero, mul_zero]
  rw [Finset.sum_congr rfl fun j _ => terms j, Finset.sum_add_distrib,
    Finset.sum_ite_eq' Finset.univ (⟨0, pos⟩ : Fin n), if_pos (Finset.mem_univ _)]

/-- The way along the eigenvector and the other components are orthogonal. -/
theorem Exact.dot_eigenvectorStep (E : M.Exact) (k_pos : 0 < k) (lam tau : ℝ) :
    dot (M.eigenvectorStep pos lam tau k) (M.eigenvectorStep pos lam tau k) =
      tau ^ 2 + M.squaredLength lam k := by
  have squares := M.sum_mul_completed_sq pos k_pos lam tau fun _ => 1
  simp only [one_mul] at squares
  rw [E.diagonalizes.dot_self_eq, E.coordinates_eigenvectorStep, squaredLength_eq, squares]

theorem Completes.reach_sq (completes : M.Completes pos δ k) :
    M.reach pos δ k ^ 2 = δ ^ 2 - M.squaredLength (M.multiplierBound pos) k :=
  Real.sq_sqrt (sub_nonneg.2 completes.2)

/-- The completed step ends on the boundary. -/
theorem Exact.norm_completedStep (E : M.Exact) (delta_pos : 0 < δ)
    (completes : M.Completes pos δ k) :
    norm (M.eigenvectorStep pos (M.multiplierBound pos) (M.reach pos δ k) k) = δ := by
  have square : norm (M.eigenvectorStep pos (M.multiplierBound pos) (M.reach pos δ k) k) ^ 2 =
      δ ^ 2 := by
    rw [norm_sq, E.dot_eigenvectorStep (hardCase_eq_true completes.1).2.1, completes.reach_sq]
    ring
  exact (pow_left_inj₀ (norm_nonneg _) delta_pos.le two_ne_zero).1 square

theorem norm_stationaryStep : norm (stationarySolution : Solution ℝ n).step = 0 := by
  have square : dot (stationarySolution : Solution ℝ n).step
      (stationarySolution : Solution ℝ n).step = 0 := by
    rw [real_dot]
    refine Finset.sum_eq_zero fun i _ => ?_
    have entry : (stationarySolution : Solution ℝ n).step.get i = 0 := get_vectorOfFn _ i
    rw [entry, mul_zero]
  show √(dot _ _) = 0
  rw [square, Real.sqrt_zero]

end Model

end TrustRegion
