/-
  Steps that reach half of the best decrease.

  A step of a multiplier that is not negative is half as good as the best one in the region, unless
  it is too short (`half_le_value`); for a negative multiplier, unless it is too long
  (`half_le_value_of_neg`). Where Newton's method comes to rest the length is about right
  (`stepLength_near`). A step completed along an eigenvector misses the best value by the thresholds
  only, so it is half optimal where the curvature exceeds them (`half_of_completes`).
-/
import TrustRegion.Proofs.CompletedStep

namespace TrustRegion

namespace Model

variable {n : Nat} {M : Model ℝ n} {lam δ : ℝ} {pos : 0 < n} {s : Vector ℝ n} {k : Nat}

/-! ## Steps of a multiplier -/

/-- A step of a multiplier that is not negative is half optimal unless it is too short. -/
theorem Exact.half_le_value (E : M.Exact) (feasible : M.DualFeasible lam) (solves : M.Solves lam s)
    (long : lam * δ ^ 2 ≤ lam * (2 * dot s s)) {t : Vector ℝ n} (inside : norm t ≤ δ) :
    2 * M.value s ≤ M.value t := by
  have delta_nonneg : 0 ≤ δ := (norm_nonneg t).trans inside
  have worse := E.value_sub_of_solves solves t
  have value := E.value_of_solves solves
  have squares (u : Fin n → ℝ) : 0 ≤ ∑ j, M.lifted lam j * u j ^ 2 :=
    Finset.sum_nonneg fun j _ => mul_nonneg (feasible.lifted_nonneg j) (sq_nonneg _)
  have apart := squares fun j => M.spectrum.coordinates t j - M.spectrum.coordinates s j
  have down := squares (M.spectrum.coordinates s)
  have room := mul_le_mul_of_nonneg_left ((norm_le_iff t delta_nonneg).1 inside) feasible.nonneg
  linarith

/-- One coordinate of the comparison for a negative multiplier `-l`. -/
theorem negative_term {a l s t : ℝ} (a_pos : 0 < a) (l_pos : 0 < l) :
    2 * l * (9 / 4 * ((-(a * s)) ^ 2 / (a + l) ^ 2) - s ^ 2) ≤
      a * (t - s) ^ 2 + a * s ^ 2 + l * t ^ 2 - 2 * l * s ^ 2 := by
  have e_pos : 0 < a + l := by linarith
  -- The best `t` completes the square.
  have square : a * (t - s) ^ 2 + l * t ^ 2 =
      ((a + l) * t - a * s) ^ 2 / (a + l) + a * l * s ^ 2 / (a + l) := by
    field_simp
    ring
  have form : 0 ≤ a ^ 2 - 3 / 2 * (a * l) + 2 * l ^ 2 := by
    nlinarith [sq_nonneg (a - 3 / 4 * l), sq_nonneg l]
  have gap : a * l * s ^ 2 / (a + l) + a * s ^ 2 - 9 / 2 * l * (a * s) ^ 2 / (a + l) ^ 2 =
      a * s ^ 2 * (a ^ 2 - 3 / 2 * (a * l) + 2 * l ^ 2) / (a + l) ^ 2 := by
    field_simp
    ring
  have gap_nonneg : 0 ≤ a * s ^ 2 * (a ^ 2 - 3 / 2 * (a * l) + 2 * l ^ 2) / (a + l) ^ 2 := by
    positivity
  have best : 0 ≤ ((a + l) * t - a * s) ^ 2 / (a + l) := by positivity
  have scaled : 2 * l * (9 / 4 * ((-(a * s)) ^ 2 / (a + l) ^ 2) - s ^ 2) =
      9 / 2 * l * (a * s) ^ 2 / (a + l) ^ 2 - 2 * l * s ^ 2 := by
    ring
  rw [scaled]
  linarith

/-- A step of a negative multiplier is half optimal unless it is too long. -/
theorem Exact.half_le_value_of_neg (E : M.Exact) (negative : lam < 0) (definite : M.Definite lam)
    (far : δ ^ 2 ≤ M.squaredLength 0 0) (short : M.squaredLength lam 0 ≤ 9 / 4 * δ ^ 2)
    (t : Vector ℝ n) : 2 * M.value (M.stepAt lam) ≤ M.value t := by
  have solves := E.solves_stepAt definite.flat
  have worse := E.value_sub_of_solves solves t
  have value := E.value_of_solves solves
  have terms : 2 * -lam * (9 / 4 * M.squaredLength 0 0 - M.squaredLength lam 0) ≤
      (∑ j, M.lifted lam j *
        (M.spectrum.coordinates t j - M.spectrum.coordinates (M.stepAt lam) j) ^ 2) +
      (∑ j, M.lifted lam j * M.spectrum.coordinates (M.stepAt lam) j ^ 2) +
      -lam * dot t t - 2 * -lam * dot (M.stepAt lam) (M.stepAt lam) := by
    have length : M.squaredLength lam 0 = ∑ j, M.spectrum.coordinates (M.stepAt lam) j ^ 2 := by
      rw [← E.dot_stepAt, E.diagonalizes.dot_self_eq]
    rw [E.diagonalizes.dot_self_eq t, E.diagonalizes.dot_self_eq (M.stepAt lam), length,
      squaredLength_zero, Finset.mul_sum, ← Finset.sum_sub_distrib, Finset.mul_sum,
      Finset.mul_sum, Finset.mul_sum, ← Finset.sum_add_distrib, ← Finset.sum_add_distrib,
      ← Finset.sum_sub_distrib]
    refine Finset.sum_le_sum fun j _ => ?_
    have term := negative_term (a := M.lifted lam j) (l := -lam)
      (s := M.spectrum.coordinates (M.stepAt lam) j) (t := M.spectrum.coordinates t j)
      (definite j) (by linarith)
    have unlifted : M.lifted lam j + -lam = M.lifted 0 j := by
      rw [← lifted_add, add_neg_cancel]
    rw [solves j, neg_neg, unlifted] at term
    exact term
  have room : 0 ≤ 2 * -lam * (9 / 4 * M.squaredLength 0 0 - M.squaredLength lam 0) :=
    mul_nonneg (by linarith) (by linarith)
  linarith

/-- A step of root finding is half optimal if its length is about the radius. -/
theorem Exact.half_of_length (E : M.Exact) (misfit : ¬ M.NewtonFits pos δ)
    (le : M.multiplierBound pos ≤ lam) (long : δ ^ 2 ≤ 2 * M.squaredLength lam 0)
    (short : lam < 0 → M.squaredLength lam 0 ≤ 9 / 4 * δ ^ 2) {t : Vector ℝ n}
    (inside : norm t ≤ δ) : 2 * M.value (M.stepAt lam) ≤ M.value t := by
  have definite := E.definite le
  by_cases negative : lam < 0
  · have far := far_of_negative misfit le negative
    exact E.half_le_value_of_neg negative definite far.le (short negative) t
  · have nonneg : 0 ≤ lam := not_lt.1 negative
    have feasible := definite.dualFeasible nonneg
    refine E.half_le_value feasible (E.solves_stepAt feasible.flat) ?_ inside
    rw [E.dot_stepAt]
    exact mul_le_mul_of_nonneg_left long nonneg

/-- Where Newton's method comes to rest, the step is about as long as the radius. -/
theorem Exact.stepLength_near (E : M.Exact) (sloped : M.Sloped) (delta_pos : 0 < δ)
    (le : M.multiplierBound pos ≤ lam) (settled : |M.newton δ lam - lam| < 1e-10) :
    |M.stepLength lam - δ| ≤ δ / 100 := by
  have near := (E.mul_abs_stepLength_sub_le sloped delta_pos le).trans
    (mul_le_mul_of_nonneg_right settled.le delta_pos.le)
  rw [definiteThreshold_eq] at near
  norm_num at near
  linarith

/-! ## Steps along an eigenvector -/

/-- A step along an eigenvector is half optimal if its curvature exceeds the thresholds. -/
theorem Exact.half_of_completes (E : M.Exact) (delta_pos : 0 < δ) (completes : M.Completes pos δ k)
    (concave : 4 * M.margin pos * δ + (4 * k + 2) * tieThreshold ≤ -M.least pos * δ)
    {t : Vector ℝ n} (inside : norm t ≤ δ) :
    2 * M.value (M.eigenvectorStep pos (M.multiplierBound pos) (M.reach pos δ k) k) ≤
      M.value t := by
  have down := E.value_completed delta_pos completes
  have least := E.le_completedGain pos δ k
  have slope := E.slope_completed_le delta_pos completes
  have gain := E.completed_sub_le delta_pos completes inside
  have scaled := mul_le_mul_of_nonneg_right concave delta_pos.le
  linarith

end Model

end TrustRegion
