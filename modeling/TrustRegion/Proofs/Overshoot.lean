/-
  Steps that are longer than the radius stay longer.

  Newton's method comes to the root from the side of the long steps and never passes it, and the
  midpoint that replaces a proposal goes further to that side. So once a multiplier has a step
  longer than the radius, so have all that follow (`Long.multiplier`), down to the last. The one
  exception is a gradient that is an eigenvector: then the reciprocal length is a straight line, and
  Newton's method hits the radius exactly.
-/
import TrustRegion.Proofs.Steps

namespace TrustRegion

namespace Model

variable {n : Nat} {M : Model ℝ n} {lam δ e : ℝ} {pos : 0 < n} {i j : Nat}

/-! ## Gradients that are eigenvectors -/

/-- The gradient meets one eigenvalue only. -/
def MeetsOne (M : Model ℝ n) : Prop :=
  ∀ i j, M.projections i ≠ 0 → M.projections j ≠ 0 →
    M.spectrum.eigenvalues i = M.spectrum.eigenvalues j

/-- The gradient is an eigenvector of the Hessian for the eigenvalue `e`. -/
def EigenGradient (M : Model ℝ n) (e : ℝ) : Prop := M.hessian.mulVec M.gradient = e * M.gradient

theorem Exact.eigenGradient_iff (E : M.Exact) :
    M.EigenGradient e ↔ ∀ j, M.projections j ≠ 0 → M.spectrum.eigenvalues j = e := by
  have stretched (j : Fin n) : M.spectrum.coordinates (M.hessian.mulVec M.gradient) j =
      M.spectrum.eigenvalues j * M.projections j := by
    rw [E.diagonalizes.coordinates_mulVec, E.projections]
  have scaled (j : Fin n) : M.spectrum.coordinates (e * M.gradient) j = e * M.projections j := by
    rw [Spectrum.coordinates_mul, E.projections]
    rfl
  constructor
  · intro eigen j nonzero
    have same : M.spectrum.eigenvalues j * M.projections j = e * M.projections j := by
      rw [← stretched, ← scaled, eigen]
    exact mul_right_cancel₀ nonzero same
  · intro eigen
    refine E.diagonalizes.ext (funext fun j => ?_)
    rw [stretched, scaled]
    by_cases zero : M.projections j = 0
    · rw [zero, mul_zero, mul_zero]
    · rw [eigen j zero]

theorem Exact.meetsOne_iff (E : M.Exact) : M.MeetsOne ↔ ∃ e, M.EigenGradient e := by
  constructor
  · intro one
    by_cases sloped : M.Sloped
    · obtain ⟨i, nonzero⟩ := sloped
      exact ⟨M.spectrum.eigenvalues i, E.eigenGradient_iff.2 fun j nonzero' =>
        one j i nonzero' nonzero⟩
    · exact ⟨0, E.eigenGradient_iff.2 fun j nonzero => absurd ⟨j, nonzero⟩ sloped⟩
  · rintro ⟨e, eigen⟩ i j nonzero nonzero'
    rw [E.eigenGradient_iff.1 eigen i nonzero, E.eigenGradient_iff.1 eigen j nonzero']

theorem Exact.lifted_of_eigen (E : M.Exact) (eigen : M.EigenGradient e) (sloped : M.Sloped)
    (definite : M.Definite lam) : 0 < lam + e := by
  obtain ⟨j, nonzero⟩ := sloped
  rw [← E.eigenGradient_iff.1 eigen j nonzero]
  exact definite j

/-- The step of a gradient that is an eigenvector goes straight against the gradient. -/
theorem Exact.stepAt_of_eigen (E : M.Exact) (eigen : M.EigenGradient e) (lam : ℝ) :
    M.stepAt lam = -(1 / (lam + e)) * M.gradient := by
  refine E.diagonalizes.ext (funext fun j => ?_)
  rw [E.coordinates_stepAt, Spectrum.coordinates_mul, E.projections, Pi.smul_apply, smul_eq_mul]
  by_cases zero : M.projections j = 0
  · rw [zero, zero_div, neg_zero, mul_zero]
  · rw [lifted, E.eigenGradient_iff.1 eigen j zero]
    ring

theorem Exact.stepLength_of_eigen (E : M.Exact) (eigen : M.EigenGradient e) (sloped : M.Sloped)
    (definite : M.Definite lam) : M.stepLength lam * (lam + e) = norm M.gradient := by
  have lifted_pos := E.lifted_of_eigen eigen sloped definite
  have square : (M.stepLength lam * (lam + e)) ^ 2 = norm M.gradient ^ 2 := by
    rw [mul_pow, stepLength_sq, squaredLength_zero, norm_sq, E.dot_gradient, Finset.sum_mul]
    refine Finset.sum_congr rfl fun j _ => ?_
    by_cases zero : M.projections j = 0
    · rw [zero]
      ring
    · rw [lifted, E.eigenGradient_iff.1 eigen j zero]
      field_simp
  exact (pow_left_inj₀ (mul_nonneg (M.stepLength_nonneg lam) lifted_pos.le) (norm_nonneg _)
    two_ne_zero).1 square

/-- For a gradient that is an eigenvector, Newton's method finds the root at once. -/
theorem Exact.newton_of_eigen (E : M.Exact) (eigen : M.EigenGradient e) (sloped : M.Sloped)
    (delta_pos : 0 < δ) (definite : M.Definite lam) :
    M.newton δ lam = norm M.gradient / δ - e := by
  have steepness_pos := steepness_pos sloped definite
  have same : M.squaredLength lam 0 = (lam + e) * M.steepness lam := by
    rw [squaredLength_zero, steepness, Finset.mul_sum]
    refine Finset.sum_congr rfl fun j _ => ?_
    have lifted_pos := definite j
    by_cases zero : M.projections j = 0
    · rw [zero]
      ring
    · rw [← E.eigenGradient_iff.1 eigen j zero]
      show _ = M.lifted lam j * _
      field_simp
  rw [newton, same, ← E.stepLength_of_eigen eigen sloped definite]
  field_simp
  ring

/-! ## The long side of the root -/

/-- A step at least as long as the radius, and longer unless the gradient is an eigenvector. -/
structure Long (M : Model ℝ n) (δ lam : ℝ) : Prop where
  /-- It is at least as long. -/
  le : δ ≤ M.stepLength lam
  /-- It is longer. -/
  lt : ¬ M.MeetsOne → δ < M.stepLength lam

theorem long_of_lt (longer : δ < M.stepLength lam) : M.Long δ lam := ⟨longer.le, fun _ => longer⟩

/-- A longer step than a long one is long. -/
theorem Long.mono {mu : ℝ} (long : M.Long δ mu) (le : M.stepLength mu ≤ M.stepLength lam) :
    M.Long δ lam :=
  ⟨long.le.trans le, fun several => (long.lt several).trans_le le⟩

theorem Long.newton (sloped : M.Sloped) (delta_pos : 0 < δ) (definite : M.Definite lam)
    (definite' : M.Definite (M.newton δ lam)) (long : M.Long δ lam) :
    M.Long δ (M.newton δ lam) where
  le := le_stepLength_newton sloped delta_pos definite definite'
  lt := fun several => by
    have moved : M.newton δ lam ≠ lam :=
      (lt_newton sloped definite delta_pos (long.lt several)).ne'
    unfold MeetsOne at several
    push Not at several
    obtain ⟨i, j, nonzero, nonzero', differ⟩ := several
    exact lt_stepLength_newton delta_pos definite definite' moved nonzero nonzero' differ

/-- An iteration does not leave the long side. -/
theorem Long.next (E : M.Exact) (sloped : M.Sloped) (delta_pos : 0 < δ)
    (le : M.multiplierBound pos ≤ lam) (long : M.Long δ lam) :
    M.Long δ (M.nextMultiplier pos δ lam) := by
  have next_le : M.multiplierBound pos ≤ M.nextMultiplier pos δ lam := bound_le_nextMultiplier le
  have definite_next := E.definite next_le
  unfold nextMultiplier at definite_next ⊢
  split at definite_next
  · next low =>
    rw [if_pos low]
    exact long.mono (stepLength_anti definite_next (by linarith))
  · next high =>
    rw [if_neg high]
    exact long.newton sloped delta_pos (E.definite le) definite_next

/-- Once on the long side, root finding stays there. -/
theorem Long.multiplier (E : M.Exact) (sloped : M.Sloped) (delta_pos : 0 < δ)
    (long : M.Long δ (M.multiplier pos δ j)) (le : j ≤ i) : M.Long δ (M.multiplier pos δ i) := by
  induction i, le using Nat.le_induction with
  | base => exact long
  | succ i _ ih => exact ih.next E sloped delta_pos (bound_le_multiplier pos M δ i)

theorem Long.stepLength_le_iff (long : M.Long δ lam) :
    M.stepLength lam ≤ δ ↔ M.MeetsOne ∧ M.stepLength lam = δ := by
  constructor
  · intro short
    refine ⟨?_, le_antisymm short long.le⟩
    by_contra several
    exact absurd (long.lt several) short.not_gt
  · rintro ⟨-, same⟩
    exact same.le

/-! ## When the last step of root finding fits -/

/-- No multiplier up to number `i` has a step longer than the radius. -/
def StaysShort (pos : 0 < n) (M : Model ℝ n) (δ : ℝ) (i : Nat) : Prop :=
  ∀ j ≤ i, M.stepLength (M.multiplier pos δ j) ≤ δ

/-- The gradient is an eigenvector, and the step of the multiplier ends on the boundary. -/
def HitsBoundary (M : Model ℝ n) (δ lam : ℝ) : Prop :=
  ∃ e, M.EigenGradient e ∧ δ * (lam + e) = norm M.gradient

theorem Exact.hitsBoundary_iff (E : M.Exact) (sloped : M.Sloped) (definite : M.Definite lam) :
    M.HitsBoundary δ lam ↔ M.MeetsOne ∧ M.stepLength lam = δ := by
  constructor
  · rintro ⟨e, eigen, same⟩
    refine ⟨E.meetsOne_iff.2 ⟨e, eigen⟩, ?_⟩
    rw [← E.stepLength_of_eigen eigen sloped definite] at same
    exact (mul_right_cancel₀ (E.lifted_of_eigen eigen sloped definite).ne' same).symm
  · rintro ⟨one, same⟩
    obtain ⟨e, eigen⟩ := E.meetsOne_iff.1 one
    refine ⟨e, eigen, ?_⟩
    rw [← same]
    exact E.stepLength_of_eigen eigen sloped definite

/-- The step of a multiplier fits if no step was too long so far, or by an exact hit. -/
theorem Exact.stepLength_multiplier_le_iff (E : M.Exact) (sloped : M.Sloped) (delta_pos : 0 < δ)
    (pos : 0 < n) (i : Nat) : M.stepLength (M.multiplier pos δ i) ≤ δ ↔
      M.StaysShort pos δ i ∨ M.HitsBoundary δ (M.multiplier pos δ i) := by
  have definite := E.definite_multiplier pos δ i
  rw [E.hitsBoundary_iff sloped definite]
  constructor
  · intro fits
    by_cases short : M.StaysShort pos δ i
    · exact Or.inl short
    · unfold StaysShort at short
      push Not at short
      obtain ⟨j, le, longer⟩ := short
      have long := (long_of_lt longer).multiplier E sloped delta_pos le
      exact Or.inr (long.stepLength_le_iff.1 fits)
  · rintro (short | ⟨-, same⟩)
    · exact short i (Nat.le_refl i)
    · exact same.le

/-- The bound is left only for a proposal that lies above it by the threshold. -/
theorem nextMultiplier_bound
    (low : M.newton δ (M.multiplierBound pos) < M.multiplierBound pos + definiteThreshold) :
    M.nextMultiplier pos δ (M.multiplierBound pos) = M.multiplierBound pos := by
  rw [nextMultiplier, if_pos low]
  ring

/-- Without a proposal that lies clearly above it, the bound is not left. -/
theorem multiplier_eq_bound (easy : (M.hardCase pos).1 = false)
    (low : M.newton δ (M.multiplierBound pos) < M.multiplierBound pos + definiteThreshold)
    (i : Nat) : M.multiplier pos δ i = M.multiplierBound pos := by
  induction i with
  | zero => exact multiplier_zero_of_easy easy δ
  | succ i ih => rw [multiplier_succ, ih, nextMultiplier_bound low]

/-- If the step at the bound fits, Newton's method proposes nothing above the bound. -/
theorem Exact.newton_bound_lt (E : M.Exact) (sloped : M.Sloped) (delta_pos : 0 < δ)
    (fits : M.stepLength (M.multiplierBound pos) ≤ δ) :
    M.newton δ (M.multiplierBound pos) < M.multiplierBound pos + definiteThreshold := by
  have definite := E.definite (le_refl (M.multiplierBound pos))
  have falls := newton_le sloped delta_pos definite definite fits
  have := definiteThreshold_pos
  linarith

/-- Outside of the hard case the length of the step at the bound decides. -/
theorem Exact.staysShort_iff (E : M.Exact) (sloped : M.Sloped) (delta_pos : 0 < δ)
    (easy : (M.hardCase pos).1 = false) (i : Nat) :
    M.StaysShort pos δ i ↔ M.stepLength (M.multiplierBound pos) ≤ δ := by
  constructor
  · intro short
    rw [← multiplier_zero_of_easy easy δ]
    exact short 0 (Nat.zero_le i)
  · intro fits j _
    rw [multiplier_eq_bound easy (E.newton_bound_lt sloped delta_pos fits) j]
    exact fits

end Model

end TrustRegion
