/-
  The step that is completed along an eigenvector.

  The multiplier of this step is the bound, which lifts the smallest eigenvalue a little above
  zero. So the step leaves a residual in the shifted system: along the first eigenvector by the
  lift, and in the other tied coordinates by the gradient, which is negligible there
  (`sum_abs_residual_le`). The value of the model is known exactly (`value_completed`), and the
  residual bounds how far it is from the best value in the region (`completed_sub_le`).
-/
import TrustRegion.Proofs.Duality

namespace TrustRegion

namespace Model

variable {n : Nat} {M : Model ℝ n} {lam δ tau : ℝ} {pos : 0 < n} {s : Vector ℝ n} {k : Nat}

/-! ## The residual -/

theorem lifted_bound_first (pos : 0 < n) (M : Model ℝ n) :
    M.lifted (M.multiplierBound pos) ⟨0, pos⟩ = M.margin pos := by
  rw [multiplierBound_eq, lifted]
  exact sub_add_cancel _ _

/-- Along the eigenvector the completed step leaves a residual. -/
theorem Exact.residual_first (E : M.Exact) (k_pos : 0 < k) :
    M.residual (M.multiplierBound pos) (M.eigenvectorStep pos (M.multiplierBound pos) tau k)
      ⟨0, pos⟩ = M.projections ⟨0, pos⟩ + M.margin pos * tau := by
  rw [residual, E.coordinates_eigenvectorStep, completed_zero k_pos, lifted_bound_first]

/-- In the other tied coordinates the gradient itself is left over. -/
theorem Exact.residual_tied (E : M.Exact) {j : Fin n} (off : j ≠ ⟨0, pos⟩) (lt : j.val < k) :
    M.residual lam (M.eigenvectorStep pos lam tau k) j = M.projections j := by
  rw [residual, E.coordinates_eigenvectorStep, completed_of_lt off lt, mul_zero, add_zero]

/-- From the tied block on nothing is left over. -/
theorem Exact.residual_rest (E : M.Exact) (definite : M.Definite lam) {j : Fin n}
    (off : j ≠ ⟨0, pos⟩) (le : k ≤ j.val) :
    M.residual lam (M.eigenvectorStep pos lam tau k) j = 0 := by
  have lifted_ne : M.lifted lam j ≠ 0 := (definite j).ne'
  rw [residual, E.coordinates_eigenvectorStep, completed_of_le off le]
  field_simp
  ring

/-- The residual of the completed step is of the size of the thresholds. -/
theorem Exact.sum_abs_residual_le (E : M.Exact) (hard : M.hardCase pos = (true, k))
    (tau_nonneg : 0 ≤ tau) :
    ∑ j, |M.residual (M.multiplierBound pos)
        (M.eigenvectorStep pos (M.multiplierBound pos) tau k) j| ≤
      k * tieThreshold + M.margin pos * tau := by
  obtain ⟨-, k_pos, k_le, negligible⟩ := hardCase_eq_true hard
  have reached_nonneg : 0 ≤ M.margin pos * tau := mul_nonneg (margin_pos pos M).le tau_nonneg
  have terms (j : Fin n) : |M.residual (M.multiplierBound pos)
        (M.eigenvectorStep pos (M.multiplierBound pos) tau k) j| ≤
      (if j.val < k then tieThreshold else 0) +
        if j = ⟨0, pos⟩ then M.margin pos * tau else 0 := by
    by_cases start : j = ⟨0, pos⟩
    · rw [if_pos start, start, if_pos k_pos, E.residual_first k_pos]
      refine (abs_add_le _ _).trans ?_
      rw [abs_of_nonneg reached_nonneg]
      linarith [negligible ⟨0, pos⟩ k_pos]
    · rw [if_neg start, add_zero]
      by_cases lt : j.val < k
      · rw [if_pos lt, E.residual_tied start lt]
        exact negligible j lt
      · rw [if_neg lt, E.residual_rest (E.definite (le_refl _)) start (not_lt.1 lt), abs_zero]
  have block : (Finset.univ.filter fun j : Fin n => j.val < k).card = k := by
    rw [Fin.card_filter_val_lt, min_eq_right k_le]
  calc _ ≤ ∑ j : Fin n, ((if j.val < k then tieThreshold else 0) +
        if j = ⟨0, pos⟩ then M.margin pos * tau else 0) :=
        Finset.sum_le_sum fun j _ => terms j
    _ = k * tieThreshold + M.margin pos * tau := by
        rw [Finset.sum_add_distrib, ← Finset.sum_filter, Finset.sum_const, block, nsmul_eq_mul,
          Finset.sum_ite_eq' Finset.univ (⟨0, pos⟩ : Fin n), if_pos (Finset.mem_univ _)]

theorem Exact.sum_residual_mul (E : M.Exact) (k_pos : 0 < k) (tau : ℝ) :
    ∑ j, M.residual (M.multiplierBound pos)
        (M.eigenvectorStep pos (M.multiplierBound pos) tau k) j *
      M.completed pos (M.multiplierBound pos) tau k j =
      (M.projections ⟨0, pos⟩ + M.margin pos * tau) * tau := by
  rw [Finset.sum_eq_single ⟨0, pos⟩]
  · rw [completed_zero k_pos, E.residual_first k_pos]
  · intro j _ off
    by_cases lt : j.val < k
    · rw [completed_of_lt off lt, mul_zero]
    · rw [E.residual_rest (E.definite (le_refl _)) off (not_lt.1 lt), zero_mul]
  · intro absent
    exact absurd (Finset.mem_univ _) absent

/-! ## The length -/

theorem Exact.abs_coordinates_le (E : M.Exact) (inside : norm s ≤ δ) (j : Fin n) :
    |M.spectrum.coordinates s j| ≤ δ := by
  have delta_nonneg : 0 ≤ δ := (norm_nonneg s).trans inside
  refine abs_le_of_sq_le_sq ?_ delta_nonneg
  refine le_trans ?_ ((norm_le_iff s delta_nonneg).1 inside)
  rw [E.diagonalizes.dot_self_eq]
  exact Finset.single_le_sum (f := fun j => M.spectrum.coordinates s j ^ 2)
    (fun _ _ => sq_nonneg _) (Finset.mem_univ j)

theorem reach_nonneg (pos : 0 < n) (M : Model ℝ n) (δ : ℝ) (k : Nat) : 0 ≤ M.reach pos δ k :=
  Real.sqrt_nonneg _

/-- The way along the eigenvector is no longer than the radius. -/
theorem Exact.reach_le (E : M.Exact) (delta_pos : 0 < δ) (completes : M.Completes pos δ k) :
    M.reach pos δ k ≤ δ := by
  have first := E.abs_coordinates_le (E.norm_completedStep delta_pos completes).le ⟨0, pos⟩
  rw [E.coordinates_eigenvectorStep, completed_zero (hardCase_eq_true completes.1).2.1] at first
  exact (le_abs_self _).trans first

/-! ## The value of the model -/

/-- The part of the quadratic form that stems from the components past the tied block. -/
noncomputable def restForm (M : Model ℝ n) (lam : ℝ) (k : Nat) : ℝ :=
  ∑ j : Fin n, if k ≤ j.val then M.projections j ^ 2 / M.lifted lam j else 0

theorem Definite.restForm_nonneg (definite : M.Definite lam) (k : Nat) : 0 ≤ M.restForm lam k := by
  refine Finset.sum_nonneg fun j _ => ?_
  split
  · exact div_nonneg (sq_nonneg _) (definite j).le
  · exact le_refl 0

theorem restForm_of_le (le : n ≤ k) : M.restForm lam k = 0 :=
  Finset.sum_eq_zero fun j _ => if_neg (Nat.not_le.2 (j.isLt.trans_le le))

theorem Exact.sum_lifted_mul_completed_sq (E : M.Exact) (k_pos : 0 < k) (tau : ℝ) :
    ∑ j, M.lifted (M.multiplierBound pos) j * M.completed pos (M.multiplierBound pos) tau k j ^ 2 =
      M.margin pos * tau ^ 2 + M.restForm (M.multiplierBound pos) k := by
  rw [M.sum_mul_completed_sq pos k_pos, lifted_bound_first, restForm]
  refine congrArg _ (Finset.sum_congr rfl fun j _ => ?_)
  have lifted_ne : M.lifted (M.multiplierBound pos) j ≠ 0 := (E.definite (le_refl _) j).ne'
  split
  · field_simp
  · rfl

theorem squaredLength_of_le (le : n ≤ k) : M.squaredLength lam k = 0 := by
  rw [squaredLength_eq]
  exact Finset.sum_eq_zero fun j _ => if_neg (Nat.not_le.2 (j.isLt.trans_le le))

/-- Twice what the completed step gains, besides the slope along its eigenvector. -/
noncomputable def completedGain (pos : 0 < n) (M : Model ℝ n) (δ : ℝ) (k : Nat) : ℝ :=
  -M.least pos * δ ^ 2 + M.restForm (M.multiplierBound pos) k +
    M.margin pos * M.squaredLength (M.multiplierBound pos) k

theorem Exact.value_completed (E : M.Exact) (delta_pos : 0 < δ) (completes : M.Completes pos δ k) :
    M.value (M.eigenvectorStep pos (M.multiplierBound pos) (M.reach pos δ k) k) =
      M.projections ⟨0, pos⟩ * M.reach pos δ k - M.completedGain pos δ k / 2 := by
  have k_pos := (hardCase_eq_true completes.1).2.1
  have boundary : dot (M.eigenvectorStep pos (M.multiplierBound pos) (M.reach pos δ k) k)
      (M.eigenvectorStep pos (M.multiplierBound pos) (M.reach pos δ k) k) = δ ^ 2 := by
    rw [← norm_sq, E.norm_completedStep delta_pos completes]
  have shift : M.multiplierBound pos = M.margin pos - M.least pos := M.multiplierBound_eq pos
  rw [E.value_eq_residual (M.multiplierBound pos), boundary, E.coordinates_eigenvectorStep,
    E.sum_residual_mul k_pos, E.sum_lifted_mul_completed_sq k_pos, completedGain]
  linear_combination (M.margin pos / 2) * completes.reach_sq - (δ ^ 2 / 2) * shift

theorem Exact.le_completedGain (E : M.Exact) (pos : 0 < n) (δ : ℝ) (k : Nat) :
    -M.least pos * δ ^ 2 ≤ M.completedGain pos δ k := by
  have rest := (E.definite (le_refl (M.multiplierBound pos))).restForm_nonneg k
  have long := mul_nonneg (margin_pos pos M).le (M.squaredLength_nonneg (M.multiplierBound pos) k)
  unfold completedGain
  linarith

/-- The slope along the eigenvector is no more than the threshold for projections. -/
theorem Exact.slope_completed_le (E : M.Exact) (delta_pos : 0 < δ)
    (completes : M.Completes pos δ k) :
    M.projections ⟨0, pos⟩ * M.reach pos δ k ≤ tieThreshold * δ := by
  obtain ⟨-, k_pos, -, negligible⟩ := hardCase_eq_true completes.1
  calc M.projections ⟨0, pos⟩ * M.reach pos δ k
      ≤ tieThreshold * M.reach pos δ k :=
        mul_le_mul_of_nonneg_right ((le_abs_self _).trans (negligible _ k_pos))
          (M.reach_nonneg pos δ k)
    _ ≤ tieThreshold * δ :=
        mul_le_mul_of_nonneg_left (E.reach_le delta_pos completes) tieThreshold_pos.le

/-- The completed step does not go uphill if the curvature outweighs the slope. -/
theorem Exact.value_completed_nonpos (E : M.Exact) (delta_pos : 0 < δ)
    (completes : M.Completes pos δ k)
    (weak : 2 * M.projections ⟨0, pos⟩ ≤ -M.least pos * δ) :
    M.value (M.eigenvectorStep pos (M.multiplierBound pos) (M.reach pos δ k) k) ≤ 0 := by
  have negative := (hardCase_eq_true completes.1).1
  have curved : 0 ≤ -M.least pos * δ := mul_nonneg (by linarith) delta_pos.le
  have slope : 2 * (M.projections ⟨0, pos⟩ * M.reach pos δ k) ≤ -M.least pos * δ ^ 2 := by
    calc 2 * (M.projections ⟨0, pos⟩ * M.reach pos δ k)
        = 2 * M.projections ⟨0, pos⟩ * M.reach pos δ k := by ring
      _ ≤ -M.least pos * δ * M.reach pos δ k :=
          mul_le_mul_of_nonneg_right weak (M.reach_nonneg pos δ k)
      _ ≤ -M.least pos * δ * δ := mul_le_mul_of_nonneg_left (E.reach_le delta_pos completes) curved
      _ = -M.least pos * δ ^ 2 := by ring
  have gain := E.le_completedGain pos δ k
  rw [E.value_completed delta_pos completes]
  linarith

/-- The completed step does not go uphill by more than a negligible slope can. -/
theorem Exact.value_completed_lt (E : M.Exact) (delta_pos : 0 < δ)
    (completes : M.Completes pos δ k) :
    M.value (M.eigenvectorStep pos (M.multiplierBound pos) (M.reach pos δ k) k) <
      tieThreshold * δ := by
  have negative := (hardCase_eq_true completes.1).1
  have curved : 0 < -M.least pos * δ ^ 2 := mul_pos (by linarith) (by positivity)
  have gain := E.le_completedGain pos δ k
  have slope := E.slope_completed_le delta_pos completes
  rw [E.value_completed delta_pos completes]
  linarith

/-! ## Compared with other steps -/

/-- Compared with a step on the boundary, no step in the region gains more than its residual. -/
theorem Exact.value_sub_le_of_boundary (E : M.Exact) (definite : M.Definite lam) (nonneg : 0 ≤ lam)
    (boundary : norm s = δ) {t : Vector ℝ n} (inside : norm t ≤ δ) :
    M.value s - M.value t ≤ 2 * δ * ∑ j, |M.residual lam s j| := by
  have apart (j : Fin n) : |M.spectrum.coordinates t j - M.spectrum.coordinates s j| ≤ 2 * δ := by
    refine (abs_sub _ _).trans ?_
    linarith [E.abs_coordinates_le inside j, E.abs_coordinates_le boundary.le j]
  have absolute : |∑ j, M.residual lam s j *
      (M.spectrum.coordinates t j - M.spectrum.coordinates s j)| ≤
      2 * δ * ∑ j, |M.residual lam s j| := by
    calc _ ≤ ∑ j, |M.residual lam s j *
          (M.spectrum.coordinates t j - M.spectrum.coordinates s j)| :=
          Finset.abs_sum_le_sum_abs _ _
      _ ≤ ∑ j, 2 * δ * |M.residual lam s j| := by
          refine Finset.sum_le_sum fun j _ => ?_
          rw [abs_mul, mul_comm]
          exact mul_le_mul_of_nonneg_right (apart j) (abs_nonneg _)
      _ = 2 * δ * ∑ j, |M.residual lam s j| := (Finset.mul_sum _ _ _).symm
  have squares : 0 ≤ ∑ j, M.lifted lam j *
      (M.spectrum.coordinates t j - M.spectrum.coordinates s j) ^ 2 :=
    Finset.sum_nonneg fun j _ => mul_nonneg (definite j).le (sq_nonneg _)
  have longer : 0 ≤ lam * (dot s s - dot t t) := by
    refine mul_nonneg nonneg (sub_nonneg.2 ?_)
    rw [← norm_sq s]
    exact (norm_le_iff t (norm_nonneg s)).1 (boundary ▸ inside)
  have identity := E.value_sub_value lam s t
  linarith [neg_abs_le (∑ j, M.residual lam s j *
    (M.spectrum.coordinates t j - M.spectrum.coordinates s j))]

/-- The completed step misses the best value in the region by the thresholds only. -/
theorem Exact.completed_sub_le (E : M.Exact) (delta_pos : 0 < δ) (completes : M.Completes pos δ k)
    {t : Vector ℝ n} (inside : norm t ≤ δ) :
    M.value (M.eigenvectorStep pos (M.multiplierBound pos) (M.reach pos δ k) k) - M.value t ≤
      2 * δ * (k * tieThreshold + M.margin pos * δ) := by
  have small := E.sum_abs_residual_le completes.1 (M.reach_nonneg pos δ k)
  have tau_le := mul_le_mul_of_nonneg_left (E.reach_le delta_pos completes) (margin_pos pos M).le
  have bound_nonneg : 0 ≤ M.multiplierBound pos := by
    rw [multiplierBound_eq]
    linarith [margin_pos pos M, (hardCase_eq_true completes.1).1]
  refine (E.value_sub_le_of_boundary (E.definite (le_refl _)) bound_nonneg
    (E.norm_completedStep delta_pos completes) inside).trans ?_
  refine mul_le_mul_of_nonneg_left (small.trans ?_) (by linarith)
  linarith

end Model

end TrustRegion
