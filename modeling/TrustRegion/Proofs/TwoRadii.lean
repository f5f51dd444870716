/-
  Root finding for two radii.

  The reciprocal length of the step is a concave function of the multiplier, and Newton's method
  follows its tangents. So for a smaller radius, and from a larger multiplier, it goes further
  (`newton_lt_newton`): root finding that starts at the bound for a radius and for a quarter of it
  has the larger multipliers for the quarter. It hands out a shorter step for the quarter if and
  only if the first proposal there lies clearly above the bound (`Exact.stepLength_lt_iff_climbs`);
  otherwise it does not leave the bound.
-/
import TrustRegion.Proofs.HalfSteps
import TrustRegion.Proofs.Ascent

namespace TrustRegion

namespace Model

variable {n : Nat} {M : Model ℝ n} {lam mu x δ δ' : ℝ} {pos : 0 < n}

/-! ## Tangents of the reciprocal length -/

/-- The slope of the reciprocal length at a multiplier. -/
noncomputable def reciprocalSlope (M : Model ℝ n) (lam : ℝ) : ℝ :=
  M.steepness lam / M.squaredLength lam 0 / M.stepLength lam

/-- The tangent of the reciprocal length at `lam`, as a function of `x`. -/
noncomputable def tangent (M : Model ℝ n) (lam x : ℝ) : ℝ := M.slack lam x / M.stepLength lam

theorem tangent_eq (M : Model ℝ n) (lam x : ℝ) :
    M.tangent lam x = 1 / M.stepLength lam + (x - lam) * M.reciprocalSlope lam := by
  unfold tangent slack reciprocalSlope
  ring

theorem reciprocalSlope_pos (sloped : M.Sloped) (definite : M.Definite lam) :
    0 < M.reciprocalSlope lam :=
  div_pos (div_pos (steepness_pos sloped definite) (squaredLength_pos sloped definite))
    (stepLength_pos sloped definite)

/-- The reciprocal length lies below its tangents. -/
theorem reciprocal_le_tangent (sloped : M.Sloped) (definite : M.Definite lam)
    (definite' : M.Definite mu) : 1 / M.stepLength mu ≤ M.tangent lam mu := by
  have below := squaredLength_le_mul_sq sloped definite definite'
  have slack_pos := slack_pos sloped definite definite'
  rw [← stepLength_sq, ← stepLength_sq, ← mul_pow] at below
  have length := (sq_le_sq₀ (M.stepLength_nonneg lam)
    (mul_nonneg (M.stepLength_nonneg mu) slack_pos.le)).1 below
  unfold tangent
  rw [div_le_div_iff₀ (stepLength_pos sloped definite') (stepLength_pos sloped definite), one_mul,
    mul_comm]
  exact length

theorem reciprocalSlope_anti (sloped : M.Sloped) (definite : M.Definite lam) (lt : lam < mu) :
    M.reciprocalSlope mu ≤ M.reciprocalSlope lam := by
  have definite' : M.Definite mu := definite.mono lt.le
  have forth := reciprocal_le_tangent sloped definite definite'
  have back := reciprocal_le_tangent sloped definite' definite
  rw [tangent_eq] at forth back
  have rise : (mu - lam) * M.reciprocalSlope mu ≤ (mu - lam) * M.reciprocalSlope lam := by linarith
  exact le_of_mul_le_mul_left rise (sub_pos.2 lt)

/-- Beyond the larger of two multipliers its tangent is the lower one. -/
theorem tangent_le_tangent (sloped : M.Sloped) (definite : M.Definite lam) (le : lam ≤ mu)
    (beyond : mu ≤ x) : M.tangent mu x ≤ M.tangent lam x := by
  rcases le.eq_or_lt with rfl | lt
  · exact le_refl _
  · have definite' : M.Definite mu := definite.mono le
    have below := reciprocal_le_tangent sloped definite definite'
    have flatter := mul_le_mul_of_nonneg_left (reciprocalSlope_anti sloped definite lt)
      (sub_nonneg.2 beyond)
    rw [tangent_eq] at below
    calc M.tangent mu x
        = 1 / M.stepLength mu + (x - mu) * M.reciprocalSlope mu := tangent_eq M mu x
      _ ≤ 1 / M.stepLength lam + (mu - lam) * M.reciprocalSlope lam +
            (x - mu) * M.reciprocalSlope lam := add_le_add below flatter
      _ = M.tangent lam x := by
          rw [tangent_eq]
          ring

/-! ## Newton's method follows the tangents -/

theorem tangent_newton (sloped : M.Sloped) (definite : M.Definite lam) (delta_pos : 0 < δ) :
    M.tangent lam (M.newton δ lam) = 1 / δ := by
  have length_pos := stepLength_pos sloped definite
  unfold tangent
  rw [slack_newton sloped definite delta_pos]
  field_simp

theorem lt_newton_of_tangent_lt (sloped : M.Sloped) (definite : M.Definite lam) (delta_pos : 0 < δ)
    (low : M.tangent lam x < 1 / δ) : x < M.newton δ lam := by
  by_contra beyond
  have rise := mul_le_mul_of_nonneg_right (sub_le_sub_right (not_lt.1 beyond) lam)
    (reciprocalSlope_pos sloped definite).le
  rw [← tangent_newton sloped definite delta_pos, tangent_eq, tangent_eq] at low
  linarith

/-- For a smaller radius, and from further on, Newton's method goes further. -/
theorem newton_lt_newton (sloped : M.Sloped) (definite : M.Definite lam) (delta_pos' : 0 < δ')
    (smaller : δ' < δ) (le : lam ≤ mu) (long : δ' ≤ M.stepLength mu) :
    M.newton δ lam < M.newton δ' mu := by
  have definite' : M.Definite mu := definite.mono le
  by_cases short : M.newton δ lam < mu
  · exact short.trans_le (le_newton sloped definite' delta_pos' long)
  · refine lt_newton_of_tangent_lt sloped definite' delta_pos' ?_
    calc M.tangent mu (M.newton δ lam)
        ≤ M.tangent lam (M.newton δ lam) := tangent_le_tangent sloped definite le (not_lt.1 short)
      _ = 1 / δ := tangent_newton sloped definite (delta_pos'.trans smaller)
      _ < 1 / δ' := one_div_lt_one_div_of_lt delta_pos' smaller

/-! ## Runs of root finding from the bound -/

/-- The first proposal of Newton's method lies clearly above the bound. -/
def Climbs (pos : 0 < n) (M : Model ℝ n) (δ : ℝ) : Prop :=
  M.multiplierBound pos + definiteThreshold ≤ M.newton δ (M.multiplierBound pos)

namespace Climbs

section

variable (climbs : M.Climbs pos δ) (E : M.Exact) (sloped : M.Sloped) (delta_pos : 0 < δ)
  (easy : (M.hardCase pos).1 = false)
include climbs E sloped delta_pos easy

/-- All multipliers ascend. -/
theorem ascending (i : Nat) : M.Ascending pos δ (M.multiplier pos δ i) := by
  have long : δ ≤ M.stepLength (M.multiplierBound pos) := by
    by_contra fits
    exact absurd (E.newton_bound_lt sloped delta_pos (not_le.1 fits).le) (not_lt.2 climbs)
  have start : M.firstMultiplier pos = M.multiplierBound pos := multiplier_zero_of_easy easy δ
  show M.Ascending pos δ (M.multiplierFrom pos δ (M.firstMultiplier pos) i)
  rw [start]
  exact (ascending_bound long).multiplierFrom E sloped delta_pos i

/-- Every proposal is taken. -/
theorem next (i : Nat) : M.multiplier pos δ (i + 1) = M.newton δ (M.multiplier pos δ i) ∧
    M.multiplierBound pos + definiteThreshold ≤ M.multiplier pos δ (i + 1) := by
  have above : M.multiplierBound pos + definiteThreshold ≤ M.newton δ (M.multiplier pos δ i) := by
    rcases (climbs.ascending E sloped delta_pos easy i).next_cases E sloped delta_pos with
      ⟨at_bound, -⟩ | ⟨above, -⟩
    · rw [at_bound]
      exact climbs
    · exact above
  have taken : M.multiplier pos δ (i + 1) = M.newton δ (M.multiplier pos δ i) :=
    if_neg (not_lt.2 above)
  exact ⟨taken, taken ▸ above⟩

theorem monotone : Monotone (M.multiplier pos δ) := by
  refine monotone_nat_of_le_succ fun i => ?_
  exact (climbs.ascending E sloped delta_pos easy i).le_next E sloped delta_pos

theorem bound_lt (i : Nat) : M.multiplierBound pos < M.multiplier pos δ (i + 1) := by
  have threshold_pos := definiteThreshold_pos
  linarith [(climbs.next E sloped delta_pos easy i).2]

/-- The first iteration does not settle. -/
theorem not_settles {tol : ℝ} (fine : tol ≤ definiteThreshold) :
    ¬ M.Settles pos δ (M.firstMultiplier pos) tol 0 := by
  intro settles
  have small : |M.multiplier pos δ 1 - M.multiplier pos δ 0| < tol := settles
  have far := (climbs.next E sloped delta_pos easy 0).2
  rw [multiplier_zero_of_easy easy] at small
  linarith [le_abs_self (M.multiplier pos δ (0 + 1) - M.multiplierBound pos)]

/-- Where root finding has settled, the step is hardly longer than the radius. -/
theorem stepLength_le_of_settles {i : Nat}
    (settles : M.Settles pos δ (M.firstMultiplier pos) 1e-10 i) :
    M.stepLength (M.multiplier pos δ i) ≤ δ + δ / 100 := by
  have taken := (climbs.next E sloped delta_pos easy i).1
  have small : |M.newton δ (M.multiplier pos δ i) - M.multiplier pos δ i| < 1e-10 := by
    rw [← taken]
    exact settles
  have near := E.stepLength_near sloped delta_pos (bound_le_multiplier pos M δ i) small
  linarith [le_abs_self (M.stepLength (M.multiplier pos δ i) - δ)]

end

/-- The multipliers of the smaller radius are the larger ones. -/
theorem multiplier_lt (climbs : M.Climbs pos δ) (climbs' : M.Climbs pos δ') (E : M.Exact)
    (sloped : M.Sloped) (delta_pos' : 0 < δ') (smaller : δ' < δ)
    (easy : (M.hardCase pos).1 = false) (i : Nat) :
    M.multiplier pos δ (i + 1) < M.multiplier pos δ' (i + 1) := by
  have step {i : Nat} (le : M.multiplier pos δ i ≤ M.multiplier pos δ' i) :
      M.multiplier pos δ (i + 1) < M.multiplier pos δ' (i + 1) := by
    rw [(climbs.next E sloped (delta_pos'.trans smaller) easy i).1,
      (climbs'.next E sloped delta_pos' easy i).1]
    exact newton_lt_newton sloped (E.definite_multiplier pos δ i) delta_pos' smaller le
      (climbs'.ascending E sloped delta_pos' easy i).long
  induction i with
  | zero =>
    refine step ?_
    rw [multiplier_zero_of_easy easy, multiplier_zero_of_easy easy]
  | succ i ih => exact step ih.le

/-- The smaller radius is ahead after as many iterations. -/
theorem multiplier_lt_of_le (climbs : M.Climbs pos δ) (climbs' : M.Climbs pos δ') (E : M.Exact)
    (sloped : M.Sloped) (delta_pos' : 0 < δ') (smaller : δ' < δ)
    (easy : (M.hardCase pos).1 = false) {i j : Nat} (le : i ≤ j + 1) :
    M.multiplier pos δ i < M.multiplier pos δ' (j + 1) := by
  cases i with
  | zero =>
    rw [multiplier_zero_of_easy easy]
    exact climbs'.bound_lt E sloped delta_pos' easy j
  | succ i =>
    have ahead := climbs.multiplier_lt climbs' E sloped delta_pos' smaller easy i
    exact ahead.trans_le (climbs'.monotone E sloped delta_pos' easy le)

end Climbs

/--
Outside of the hard case, root finding for a quarter of the radius hands out a shorter step if and
only if its first proposal lies clearly above the bound.
-/
theorem Exact.stepLength_lt_iff_climbs (E : M.Exact) (sloped : M.Sloped) (delta_pos : 0 < δ)
    (easy : (M.hardCase pos).1 = false) {more i j : Nat} (some_left : 1 ≤ more)
    (ends : M.EndsAt pos δ (M.firstMultiplier pos) 1e-10 more i)
    (ends' : M.EndsAt pos (δ / 4) (M.firstMultiplier pos) 1e-10 more j) :
    M.stepLength (M.multiplier pos (δ / 4) j) < M.stepLength (M.multiplier pos δ i) ↔
      M.Climbs pos (δ / 4) := by
  have quarter_pos : 0 < δ / 4 := by positivity
  have definite := E.definite_multiplier pos δ i
  constructor
  · intro shorter
    by_contra held
    rw [multiplier_eq_bound easy (not_le.1 held)] at shorter
    exact absurd (stepLength_anti (E.definite (le_refl _)) (bound_le_multiplier pos M δ i))
      shorter.not_ge
  · intro climbs'
    obtain ⟨j, rfl⟩ : ∃ l, j = l + 1 := by
      refine Nat.exists_eq_succ_of_ne_zero fun zero => ?_
      subst zero
      have unsettled : ¬ M.Settles pos (δ / 4) (M.firstMultiplier pos) 1e-10 0 :=
        climbs'.not_settles E sloped quarter_pos easy (by norm_num [definiteThreshold_eq])
      rcases ends'.last with settles | spent
      · exact unsettled settles
      · omega
    by_cases climbs : M.Climbs pos δ
    · rcases ends'.last with settles | spent
      · have short := climbs'.stepLength_le_of_settles E sloped quarter_pos easy settles
        have long := (climbs.ascending E sloped delta_pos easy i).long
        linarith
      · have le : i ≤ j + 1 := ends.le.trans spent.ge
        exact stepLength_strictAnti sloped definite
          (climbs.multiplier_lt_of_le climbs' E sloped quarter_pos (by linarith) easy le)
    · rw [multiplier_eq_bound easy (not_le.1 climbs)]
      exact stepLength_strictAnti sloped (E.definite (le_refl _))
        (climbs'.bound_lt E sloped quarter_pos easy j)

end Model

end TrustRegion
