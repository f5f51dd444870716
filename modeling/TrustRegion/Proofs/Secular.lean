/-
  The length of the step as a function of the multiplier.

  Where a multiplier lifts every eigenvalue above zero, the length of its step falls as the
  multiplier grows. The reciprocal of the length is concave: its tangent lies above it
  (`squaredLength_le_mul_sq`), strictly unless the gradient meets one eigenvalue only. So the
  multiplier that Newton's method proposes never has a step shorter than the radius, from whichever
  side it comes (`le_stepLength_newton`), and its step is longer than the radius unless the gradient
  is an eigenvector (`lt_stepLength_newton`): the proposal does not lie beyond any multiplier whose
  step fits (`newton_le`). How far Newton's method wants to move tells how far the length of a step
  is from the radius (`mul_abs_stepLength_sub_le`).
-/
import TrustRegion.Proofs.Diagonalization

namespace TrustRegion

namespace Model

variable {n : Nat} {M : Model ℝ n} {lam mu δ c : ℝ}

/-- The eigenvalues of the Hessian with a multiple of the identity added. -/
def lifted (M : Model ℝ n) (lam : ℝ) (j : Fin n) : ℝ := lam + M.spectrum.eigenvalues j

/-- The multiplier lifts every eigenvalue above zero. -/
def Definite (M : Model ℝ n) (lam : ℝ) : Prop := ∀ j, 0 < M.lifted lam j

/-- The gradient is not zero, as its projections tell. -/
def Sloped (M : Model ℝ n) : Prop := ∃ j, M.projections j ≠ 0

/-- The length of the step with a multiplier. -/
noncomputable def stepLength (M : Model ℝ n) (lam : ℝ) : ℝ := √(M.squaredLength lam 0)

/-- The squared length of `L⁻¹ s`, where `s` is the step and `L Lᵀ = H + λ I`. -/
noncomputable def steepness (M : Model ℝ n) (lam : ℝ) : ℝ :=
  ∑ j, M.projections j ^ 2 / M.lifted lam j ^ 3

/-- The multiplier that Newton's method proposes after `lam`. -/
noncomputable def newton (M : Model ℝ n) (δ lam : ℝ) : ℝ :=
  lam + M.squaredLength lam 0 * (M.stepLength lam - δ) / (δ * M.steepness lam)

theorem lifted_zero (M : Model ℝ n) (j : Fin n) : M.lifted 0 j = M.spectrum.eigenvalues j :=
  zero_add _

theorem lifted_add (M : Model ℝ n) (lam c : ℝ) (j : Fin n) :
    M.lifted (lam + c) j = M.lifted lam j + c := by
  unfold lifted
  ring

theorem lifted_eq_add (M : Model ℝ n) (lam mu : ℝ) (j : Fin n) :
    M.lifted mu j = M.lifted lam j + (mu - lam) := by
  rw [← lifted_add, add_sub_cancel]

theorem lifted_mono (le : lam ≤ mu) (j : Fin n) : M.lifted lam j ≤ M.lifted mu j := by
  unfold lifted
  linarith

theorem Definite.mono (definite : M.Definite lam) (le : lam ≤ mu) : M.Definite mu :=
  fun j => (definite j).trans_le (lifted_mono le j)

theorem squaredLength_eq (M : Model ℝ n) (lam : ℝ) (start : Nat) : M.squaredLength lam start =
    ∑ j : Fin n, if start ≤ j.val then M.projections j ^ 2 / M.lifted lam j ^ 2 else 0 := by
  unfold squaredLength
  rw [Scalar.real_sumFrom]
  refine Finset.sum_congr rfl fun j _ => ?_
  rw [Scalar.real_square, Scalar.real_square]
  rfl

theorem squaredLength_zero (M : Model ℝ n) (lam : ℝ) :
    M.squaredLength lam 0 = ∑ j, M.projections j ^ 2 / M.lifted lam j ^ 2 := by
  rw [squaredLength_eq]
  exact Finset.sum_congr rfl fun j _ => if_pos (Nat.zero_le _)

theorem squaredLength_nonneg (M : Model ℝ n) (lam : ℝ) (start : Nat) :
    0 ≤ M.squaredLength lam start := by
  rw [squaredLength_eq]
  refine Finset.sum_nonneg fun j _ => ?_
  split
  · positivity
  · exact le_refl 0

theorem stepLength_sq (M : Model ℝ n) (lam : ℝ) : M.stepLength lam ^ 2 = M.squaredLength lam 0 :=
  Real.sq_sqrt (M.squaredLength_nonneg lam 0)

theorem stepLength_nonneg (M : Model ℝ n) (lam : ℝ) : 0 ≤ M.stepLength lam := Real.sqrt_nonneg _

/-! ## Sums of positive terms -/

theorem Sloped.not_flat (sloped : M.Sloped) : ¬ ∀ j, M.projections j = 0 := by
  obtain ⟨j, nonzero⟩ := sloped
  exact fun flat => nonzero (flat j)

/-- A sum over the projections of positive weights is positive if the gradient is not zero. -/
theorem Sloped.sum_pos (sloped : M.Sloped) {weight : Fin n → ℝ} (positive : ∀ j, 0 < weight j) :
    0 < ∑ j, M.projections j ^ 2 / weight j := by
  obtain ⟨j, nonzero⟩ := sloped
  refine Finset.sum_pos' (fun i _ => div_nonneg (sq_nonneg _) (positive i).le)
    ⟨j, Finset.mem_univ j, ?_⟩
  have square_pos : 0 < M.projections j ^ 2 := by positivity
  exact div_pos square_pos (positive j)

theorem squaredLength_pos (sloped : M.Sloped) (definite : M.Definite lam) :
    0 < M.squaredLength lam 0 := by
  rw [squaredLength_zero]
  exact sloped.sum_pos fun j => pow_pos (definite j) 2

theorem stepLength_pos (sloped : M.Sloped) (definite : M.Definite lam) : 0 < M.stepLength lam :=
  Real.sqrt_pos.2 (squaredLength_pos sloped definite)

theorem steepness_pos (sloped : M.Sloped) (definite : M.Definite lam) : 0 < M.steepness lam :=
  sloped.sum_pos fun j => pow_pos (definite j) 3

/-- The steepness is bounded by the squared length, measured with the smallest lifted eigenvalue. -/
theorem mul_steepness_le (pos : 0 < c) (least : ∀ j, c ≤ M.lifted lam j) :
    c * M.steepness lam ≤ M.squaredLength lam 0 := by
  rw [steepness, squaredLength_zero, Finset.mul_sum]
  refine Finset.sum_le_sum fun j _ => ?_
  have lifted_pos : 0 < M.lifted lam j := lt_of_lt_of_le pos (least j)
  rw [mul_div_assoc', div_le_div_iff₀ (by positivity) (by positivity)]
  have scaled : c * M.lifted lam j ^ 2 ≤ M.lifted lam j ^ 3 := by
    rw [pow_succ _ 2, mul_comm]
    exact mul_le_mul_of_nonneg_left (least j) (by positivity)
  calc c * M.projections j ^ 2 * M.lifted lam j ^ 2
      = M.projections j ^ 2 * (c * M.lifted lam j ^ 2) := by ring
    _ ≤ M.projections j ^ 2 * M.lifted lam j ^ 3 :=
        mul_le_mul_of_nonneg_left scaled (sq_nonneg _)

/-- A step is no longer than the smallest lifted eigenvalue allows. -/
theorem Exact.mul_stepLength_le (E : M.Exact) (pos : 0 < c) (least : ∀ j, c ≤ M.lifted lam j) :
    c * M.stepLength lam ≤ norm M.gradient := by
  have square : (c * M.stepLength lam) ^ 2 ≤ norm M.gradient ^ 2 := by
    rw [mul_pow, stepLength_sq, squaredLength_zero, norm_sq, E.dot_gradient, Finset.mul_sum]
    refine Finset.sum_le_sum fun j _ => ?_
    have lifted_pos : 0 < M.lifted lam j := pos.trans_le (least j)
    rw [mul_div_assoc', div_le_iff₀ (by positivity), mul_comm]
    exact mul_le_mul_of_nonneg_left (pow_le_pow_left₀ pos.le (least j) 2) (sq_nonneg _)
  exact (sq_le_sq₀ (mul_nonneg pos.le (M.stepLength_nonneg lam)) (norm_nonneg _)).1 square

/-! ## Larger multipliers have shorter steps -/

theorem squaredLength_anti (definite : M.Definite lam) (le : lam ≤ mu) :
    M.squaredLength mu 0 ≤ M.squaredLength lam 0 := by
  rw [squaredLength_zero, squaredLength_zero]
  refine Finset.sum_le_sum fun j _ => ?_
  exact div_le_div_of_nonneg_left (sq_nonneg _) (pow_pos (definite j) 2)
    (pow_le_pow_left₀ (definite j).le (lifted_mono le j) 2)

theorem stepLength_anti (definite : M.Definite lam) (le : lam ≤ mu) :
    M.stepLength mu ≤ M.stepLength lam :=
  Real.sqrt_le_sqrt (squaredLength_anti definite le)

theorem stepLength_strictAnti (sloped : M.Sloped) (definite : M.Definite lam) (lt : lam < mu) :
    M.stepLength mu < M.stepLength lam := by
  refine Real.sqrt_lt_sqrt (M.squaredLength_nonneg mu 0) ?_
  rw [squaredLength_zero, squaredLength_zero]
  have further (j : Fin n) : M.lifted lam j < M.lifted mu j := by
    unfold lifted
    linarith
  obtain ⟨j, nonzero⟩ := sloped
  have square_pos : 0 < M.projections j ^ 2 := by positivity
  refine Finset.sum_lt_sum (fun i _ => ?_) ⟨j, Finset.mem_univ j, ?_⟩
  · exact div_le_div_of_nonneg_left (sq_nonneg _) (pow_pos (definite i) 2)
      (pow_le_pow_left₀ (definite i).le (further i).le 2)
  · exact div_lt_div_of_pos_left square_pos (pow_pos (definite j) 2)
      (pow_lt_pow_left₀ (further j) (definite j).le two_ne_zero)

theorem stepLength_lt_iff (sloped : M.Sloped) (definite : M.Definite lam)
    (definite' : M.Definite mu) : M.stepLength mu < M.stepLength lam ↔ lam < mu := by
  constructor
  · intro shorter
    by_contra le
    exact absurd (stepLength_anti definite' (not_lt.1 le)) shorter.not_ge
  · exact stepLength_strictAnti sloped definite

/-! ## The tangent of the reciprocal length -/

/-- The tangent of the reciprocal square at 1. -/
theorem tangent_le {y : ℝ} (pos : 0 < y) : 3 - 2 * y ≤ 1 / y ^ 2 := by
  rw [le_div_iff₀ (by positivity)]
  nlinarith [mul_nonneg (sq_nonneg (1 - y)) (by linarith : (0 : ℝ) ≤ 1 + 2 * y)]

theorem tangent_lt {y : ℝ} (pos : 0 < y) (ne : y ≠ 1) : 3 - 2 * y < 1 / y ^ 2 := by
  have gap : 0 < (1 - y) ^ 2 := by
    have : 1 - y ≠ 0 := sub_ne_zero.2 ne.symm
    positivity
  rw [lt_div_iff₀ (by positivity)]
  nlinarith [mul_pos gap (by linarith : (0 : ℝ) < 1 + 2 * y)]

/-- How far the tangent at `lam` has moved at `mu`, relative to the reciprocal length at `lam`. -/
noncomputable def slack (M : Model ℝ n) (lam mu : ℝ) : ℝ :=
  1 + (mu - lam) * M.steepness lam / M.squaredLength lam 0

theorem sum_mul_lifted (definite : M.Definite lam) :
    ∑ j, M.projections j ^ 2 * M.lifted mu j / M.lifted lam j ^ 3 =
      M.squaredLength lam 0 + (mu - lam) * M.steepness lam := by
  rw [squaredLength_zero, steepness, Finset.mul_sum, ← Finset.sum_add_distrib]
  refine Finset.sum_congr rfl fun j _ => ?_
  have lifted_ne : M.lifted lam j ≠ 0 := (definite j).ne'
  rw [M.lifted_eq_add lam mu j]
  field_simp

theorem slack_mul (sloped : M.Sloped) (definite : M.Definite lam) :
    M.slack lam mu * M.squaredLength lam 0 =
      ∑ j, M.projections j ^ 2 * M.lifted mu j / M.lifted lam j ^ 3 := by
  have length_ne : M.squaredLength lam 0 ≠ 0 := (squaredLength_pos sloped definite).ne'
  rw [sum_mul_lifted definite, slack]
  field_simp

theorem slack_pos (sloped : M.Sloped) (definite : M.Definite lam) (definite' : M.Definite mu) :
    0 < M.slack lam mu := by
  have product : 0 < M.slack lam mu * M.squaredLength lam 0 := by
    rw [slack_mul sloped definite]
    obtain ⟨j, nonzero⟩ := sloped
    have term_pos (i : Fin n) (h : M.projections i ≠ 0) :
        0 < M.projections i ^ 2 * M.lifted mu i / M.lifted lam i ^ 3 := by
      have := definite i
      have := definite' i
      positivity
    refine Finset.sum_pos' (fun i _ => ?_) ⟨j, Finset.mem_univ j, term_pos j nonzero⟩
    by_cases h : M.projections i = 0
    · rw [h]
      norm_num
    · exact (term_pos i h).le
  exact (pos_iff_pos_of_mul_pos product).2 (squaredLength_pos sloped definite)

/-- One term of the sums that `squaredLength_le_mul_sq` compares. -/
theorem tangent_term (definite : M.Definite lam) (definite' : M.Definite mu)
    (slack_pos : 0 < M.slack lam mu) (j : Fin n) :
    3 * (M.projections j ^ 2 / M.lifted lam j ^ 2) -
        2 / M.slack lam mu * (M.projections j ^ 2 * M.lifted mu j / M.lifted lam j ^ 3) ≤
      M.projections j ^ 2 / M.lifted mu j ^ 2 * M.slack lam mu ^ 2 := by
  have pos := definite j
  have pos' := definite' j
  have tangent := tangent_le (y := M.lifted mu j / (M.lifted lam j * M.slack lam mu)) (by positivity)
  have weighted := mul_le_mul_of_nonneg_left tangent
    (by positivity : 0 ≤ M.projections j ^ 2 / M.lifted lam j ^ 2)
  calc _ = M.projections j ^ 2 / M.lifted lam j ^ 2 *
        (3 - 2 * (M.lifted mu j / (M.lifted lam j * M.slack lam mu))) := by
        field_simp
    _ ≤ _ := weighted
    _ = _ := by
        field_simp

theorem tangent_term_lt (definite : M.Definite lam) (definite' : M.Definite mu)
    (slack_pos : 0 < M.slack lam mu) {j : Fin n} (nonzero : M.projections j ≠ 0)
    (off : M.lifted mu j ≠ M.lifted lam j * M.slack lam mu) :
    3 * (M.projections j ^ 2 / M.lifted lam j ^ 2) -
        2 / M.slack lam mu * (M.projections j ^ 2 * M.lifted mu j / M.lifted lam j ^ 3) <
      M.projections j ^ 2 / M.lifted mu j ^ 2 * M.slack lam mu ^ 2 := by
  have pos := definite j
  have pos' := definite' j
  have ne : M.lifted mu j / (M.lifted lam j * M.slack lam mu) ≠ 1 := by
    rw [ne_eq, div_eq_one_iff_eq (by positivity)]
    exact off
  have tangent := tangent_lt (by positivity) ne
  have weighted := mul_lt_mul_of_pos_left tangent
    (by positivity : 0 < M.projections j ^ 2 / M.lifted lam j ^ 2)
  calc _ = M.projections j ^ 2 / M.lifted lam j ^ 2 *
        (3 - 2 * (M.lifted mu j / (M.lifted lam j * M.slack lam mu))) := by
        field_simp
    _ < _ := weighted
    _ = _ := by
        field_simp

theorem sum_tangent_terms (sloped : M.Sloped) (definite : M.Definite lam)
    (slack_pos : 0 < M.slack lam mu) :
    ∑ j, (3 * (M.projections j ^ 2 / M.lifted lam j ^ 2) -
        2 / M.slack lam mu * (M.projections j ^ 2 * M.lifted mu j / M.lifted lam j ^ 3)) =
      M.squaredLength lam 0 := by
  rw [Finset.sum_sub_distrib, ← Finset.mul_sum, ← Finset.mul_sum, ← squaredLength_zero,
    ← slack_mul sloped definite]
  field_simp
  ring

/-- The reciprocal of the length lies below its tangent. -/
theorem squaredLength_le_mul_sq (sloped : M.Sloped) (definite : M.Definite lam)
    (definite' : M.Definite mu) :
    M.squaredLength lam 0 ≤ M.squaredLength mu 0 * M.slack lam mu ^ 2 := by
  have pos := slack_pos sloped definite definite'
  rw [← sum_tangent_terms sloped definite pos, squaredLength_zero, Finset.sum_mul]
  exact Finset.sum_le_sum fun j _ => tangent_term definite definite' pos j

/-- It lies strictly below it if the gradient meets two different eigenvalues. -/
theorem squaredLength_lt_mul_sq (definite : M.Definite lam) (definite' : M.Definite mu)
    (moved : mu ≠ lam) {i j : Fin n} (nonzero : M.projections i ≠ 0)
    (nonzero' : M.projections j ≠ 0)
    (differ : M.spectrum.eigenvalues i ≠ M.spectrum.eigenvalues j) :
    M.squaredLength lam 0 < M.squaredLength mu 0 * M.slack lam mu ^ 2 := by
  have sloped : M.Sloped := ⟨i, nonzero⟩
  have pos := slack_pos sloped definite definite'
  have off : ∃ k, M.projections k ≠ 0 ∧ M.lifted mu k ≠ M.lifted lam k * M.slack lam mu := by
    by_contra none_off
    push Not at none_off
    have at_i := none_off i nonzero
    have at_j := none_off j nonzero'
    -- Both quotients `lifted mu / lifted lam` are the same, so the shift is zero or they agree.
    have same : (mu - lam) * (M.spectrum.eigenvalues i - M.spectrum.eigenvalues j) = 0 := by
      unfold lifted at at_i at_j
      linear_combination (lam + M.spectrum.eigenvalues i) * at_j -
        (lam + M.spectrum.eigenvalues j) * at_i
    rcases mul_eq_zero.1 same with h | h
    · exact moved (sub_eq_zero.1 h)
    · exact differ (sub_eq_zero.1 h)
  obtain ⟨k, nonzero_k, off_k⟩ := off
  rw [← sum_tangent_terms sloped definite pos, squaredLength_zero, Finset.sum_mul]
  exact Finset.sum_lt_sum (fun l _ => tangent_term definite definite' pos l)
    ⟨k, Finset.mem_univ k, tangent_term_lt definite definite' pos nonzero_k off_k⟩

/-! ## Newton's method never passes the root -/

theorem newton_sub (M : Model ℝ n) (δ lam : ℝ) : M.newton δ lam - lam =
    M.squaredLength lam 0 * (M.stepLength lam - δ) / (δ * M.steepness lam) := by
  unfold newton
  ring

theorem slack_newton (sloped : M.Sloped) (definite : M.Definite lam) (pos : 0 < δ) :
    M.slack lam (M.newton δ lam) = M.stepLength lam / δ := by
  have length_ne : M.squaredLength lam 0 ≠ 0 := (squaredLength_pos sloped definite).ne'
  have steepness_ne : M.steepness lam ≠ 0 := (steepness_pos sloped definite).ne'
  rw [slack, newton_sub]
  field_simp
  ring

/-- The step of the multiplier that Newton's method proposes is at least as long as the radius. -/
theorem le_stepLength_newton (sloped : M.Sloped) (pos : 0 < δ) (definite : M.Definite lam)
    (definite' : M.Definite (M.newton δ lam)) : δ ≤ M.stepLength (M.newton δ lam) := by
  have below := squaredLength_le_mul_sq sloped definite definite'
  have length_pos := squaredLength_pos sloped definite
  rw [slack_newton sloped definite pos, div_pow, stepLength_sq, mul_div_assoc',
    le_div_iff₀ (by positivity), mul_comm] at below
  exact (Real.le_sqrt' pos).2 (le_of_mul_le_mul_right below length_pos)

/-- It is longer if the gradient meets two different eigenvalues. -/
theorem lt_stepLength_newton (pos : 0 < δ) (definite : M.Definite lam)
    (definite' : M.Definite (M.newton δ lam)) (off : M.newton δ lam ≠ lam) {i j : Fin n}
    (nonzero : M.projections i ≠ 0) (nonzero' : M.projections j ≠ 0)
    (differ : M.spectrum.eigenvalues i ≠ M.spectrum.eigenvalues j) :
    δ < M.stepLength (M.newton δ lam) := by
  have sloped : M.Sloped := ⟨i, nonzero⟩
  have below := squaredLength_lt_mul_sq definite definite' off nonzero nonzero' differ
  have length_pos := squaredLength_pos sloped definite
  rw [slack_newton sloped definite pos, div_pow, stepLength_sq, mul_div_assoc',
    lt_div_iff₀ (by positivity), mul_comm] at below
  exact (Real.lt_sqrt pos.le).2 (lt_of_mul_lt_mul_right below length_pos.le)

/-- No proposal lies beyond a multiplier whose step fits, from whichever side it comes. -/
theorem newton_le (sloped : M.Sloped) (pos : 0 < δ) (definite : M.Definite lam)
    (definite' : M.Definite mu) (short : M.stepLength mu ≤ δ) : M.newton δ lam ≤ mu := by
  by_contra beyond
  rw [not_le] at beyond
  have long := le_stepLength_newton sloped pos definite (definite'.mono beyond.le)
  have shorter := stepLength_strictAnti sloped definite' beyond
  linarith

theorem lt_newton (sloped : M.Sloped) (definite : M.Definite lam) (pos : 0 < δ)
    (long : δ < M.stepLength lam) : lam < M.newton δ lam := by
  have steepness_pos := steepness_pos sloped definite
  have length_pos := squaredLength_pos sloped definite
  have change : 0 < M.newton δ lam - lam := by
    rw [newton_sub]
    exact div_pos (mul_pos length_pos (sub_pos.2 long)) (by positivity)
  linarith

theorem le_newton (sloped : M.Sloped) (definite : M.Definite lam) (pos : 0 < δ)
    (long : δ ≤ M.stepLength lam) : lam ≤ M.newton δ lam := by
  rcases long.eq_or_lt with same | longer
  · have none_left : M.newton δ lam - lam = 0 := by
      rw [newton_sub, ← same, sub_self, mul_zero, zero_div]
    exact (sub_eq_zero.1 none_left).ge
  · exact (lt_newton sloped definite pos longer).le

/-- The length of a step misses the radius by no more than Newton's method wants to move. -/
theorem mul_abs_stepLength_sub_le (sloped : M.Sloped) (pos : 0 < δ) (c_pos : 0 < c)
    (least : ∀ j, c ≤ M.lifted lam j) : c * |M.stepLength lam - δ| ≤ |M.newton δ lam - lam| * δ := by
  have definite : M.Definite lam := fun j => c_pos.trans_le (least j)
  have steepness_pos := steepness_pos sloped definite
  have change : (M.newton δ lam - lam) * (δ * M.steepness lam) =
      M.squaredLength lam 0 * (M.stepLength lam - δ) := by
    rw [newton_sub]
    field_simp
  have change_abs : |M.newton δ lam - lam| * (δ * M.steepness lam) =
      M.squaredLength lam 0 * |M.stepLength lam - δ| := by
    rw [← abs_of_nonneg (M.squaredLength_nonneg lam 0), ← abs_mul, ← change, abs_mul,
      abs_of_pos (mul_pos pos steepness_pos)]
  refine le_of_mul_le_mul_right ?_ steepness_pos
  calc c * |M.stepLength lam - δ| * M.steepness lam
      = c * M.steepness lam * |M.stepLength lam - δ| := by ring
    _ ≤ M.squaredLength lam 0 * |M.stepLength lam - δ| :=
        mul_le_mul_of_nonneg_right (mul_steepness_le c_pos least) (abs_nonneg _)
    _ = |M.newton δ lam - lam| * (δ * M.steepness lam) := change_abs.symm
    _ = |M.newton δ lam - lam| * δ * M.steepness lam := by ring

end Model

end TrustRegion
