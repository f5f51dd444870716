/-
  Steps that almost satisfy the conditions of optimality.

  A step on the boundary is optimal where `(H + λ I) s = -g` and `‖s‖ = δ`. Root finding hands out
  the step of one multiplier together with the next multiplier, so the first equation is missed by
  the last change of the multiplier, times the step (`Exact.residual_stepAt`). The change bounds the
  error of the length as well if it was made by Newton's method (`Exact.abs_stepLength_sub_le`); a
  change to the midpoint says nothing about the length. But a midpoint clearly above the bound is no
  small change (`nextMultiplier_eq_newton`), so a multiplier that settles there is one of Newton's.
-/
import TrustRegion.Proofs.Factorizations
import TrustRegion.Proofs.OneVariable

namespace TrustRegion

namespace Model

variable {n : Nat} {M : Model ℝ n} {lam δ tol : ℝ} {pos : 0 < n}

/-- With another multiplier than its own, a step misses the equation by a multiple of itself. -/
theorem Exact.residual_stepAt (E : M.Exact) (definite : M.Definite lam) (mu : ℝ) :
    (M.hessian.shift mu).mulVec (M.stepAt lam) + M.gradient = (mu - lam) * M.stepAt lam := by
  refine E.diagonalizes.ext (funext fun j => ?_)
  have lifted_ne : M.lifted lam j ≠ 0 := (definite j).ne'
  rw [Spectrum.coordinates_add, Pi.add_apply, E.coordinates_shift, E.projections,
    Spectrum.coordinates_mul, Pi.smul_apply, smul_eq_mul, E.coordinates_stepAt,
    M.lifted_eq_add lam mu j]
  field_simp
  ring

/-- A small change that ends clearly above the bound is the one that Newton's method proposes. -/
theorem nextMultiplier_eq_newton (small : |M.nextMultiplier pos δ lam - lam| < tol)
    (fine : tol ≤ definiteThreshold)
    (clear : M.multiplierBound pos + definiteThreshold ≤ M.nextMultiplier pos δ lam) :
    M.nextMultiplier pos δ lam = M.newton δ lam := by
  refine if_neg fun low => ?_
  have halfway : M.nextMultiplier pos δ lam =
      0.5 * (lam - M.multiplierBound pos) + M.multiplierBound pos := if_pos low
  have fall : -(M.nextMultiplier pos δ lam - lam) < tol := (neg_le_abs _).trans_lt small
  rw [halfway] at fall clear
  linarith

/-- Where Newton's method hardly changes the multiplier, the step is about as long as the radius. -/
theorem Exact.abs_stepLength_sub_le (E : M.Exact) (sloped : M.Sloped) (delta_pos : 0 < δ)
    (small : |M.newton δ lam - lam| < tol) (lifts : tol < M.least pos + M.newton δ lam) :
    |M.stepLength lam - δ| ≤ δ * tol / (M.least pos + M.newton δ lam - tol) := by
  have gap_pos : 0 < M.least pos + M.newton δ lam - tol := sub_pos.2 lifts
  have least (j : Fin n) : M.least pos + M.newton δ lam - tol ≤ M.lifted lam j := by
    have rise := (le_abs_self (M.newton δ lam - lam)).trans_lt small
    linarith [E.add_least_le_lifted pos lam j]
  rw [le_div_iff₀ gap_pos]
  calc |M.stepLength lam - δ| * (M.least pos + M.newton δ lam - tol)
      = (M.least pos + M.newton δ lam - tol) * |M.stepLength lam - δ| := mul_comm _ _
    _ ≤ |M.newton δ lam - lam| * δ :=
        Model.mul_abs_stepLength_sub_le sloped delta_pos gap_pos least
    _ ≤ tol * δ := mul_le_mul_of_nonneg_right small.le delta_pos.le
    _ = δ * tol := mul_comm _ _

end Model

/-! ## The solver -/

section Solver

variable {n : Nat} {la : LinearAlgebra ℝ} {checked : Bool} {g : Vector ℝ n} {H : SquareMatrix ℝ n}
  {δ tol : ℝ} {iterations : Int} {proposal : Proposal ℝ}

/--
A multiplier that has settled clearly above its bound comes with a step that satisfies the
conditions of optimality up to the tolerance: the equation relative to the length of the step, and
the length relative to the distance of the multiplier from the smallest eigenvalue.
-/
theorem settled_step_nearly_optimal (exact_la : la.Exact) (pos : 0 < n)
    (returned : proposeStep la checked (.ofVector g) (.ofSquare H) δ [n] tol iterations =
      .ok proposal) {M : Model ℝ n} (modelled : Model.ofDerivatives la g H = .ok M)
    (fine : tol ≤ definiteThreshold) (reached : proposal.outcome.reached = true)
    (outside : proposal.outcome.interior = false) (easy : proposal.outcome.hardCase = false)
    (clear : M.multiplierBound pos + definiteThreshold ≤ proposal.outcome.lam) :
    ∃ s : Vector ℝ n, proposal.step = .ofVector s ∧
      norm ((H.symmetricPart.shift proposal.outcome.lam).mulVec s + g) ≤ tol * norm s ∧
      0 < M.least pos + proposal.outcome.lam - tol ∧
      |norm s - δ| ≤ δ * tol / (M.least pos + proposal.outcome.lam - tol) := by
  classical
  obtain ⟨delta_pos, M', solution, modelled', E, rfl, hessian, route, rfl⟩ :=
    exists_route exact_la pos returned
  obtain rfl : M = M' := Except.ok.inj (modelled.symm.trans modelled')
  have seeks : M.SeeksRoot pos δ := route.seeksRoot outside easy
  obtain ⟨i, remark, ends, rfl⟩ := route.eq_boundary seeks
  -- The multiplier of the step, and the one that is reported.
  set lam := M.multiplier pos δ i
  have small : |M.nextMultiplier pos δ lam - lam| < tol := of_decide_eq_true reached
  have newton : M.nextMultiplier pos δ lam = M.newton δ lam :=
    Model.nextMultiplier_eq_newton small fine clear
  have definite : M.Definite lam := E.definite_multiplier pos δ i
  have lifts : tol < M.least pos + M.nextMultiplier pos δ lam := by
    change M.multiplierBound pos + definiteThreshold ≤ M.nextMultiplier pos δ lam at clear
    rw [Model.multiplierBound_eq] at clear
    linarith [M.margin_pos pos]
  refine ⟨M.stepAt lam, rfl, ?_, sub_pos.2 lifts, ?_⟩
  · show norm ((H.symmetricPart.shift (M.nextMultiplier pos δ lam)).mulVec _ + _) ≤ _
    rw [← hessian, E.residual_stepAt definite, norm_mul]
    exact mul_le_mul_of_nonneg_right small.le (norm_nonneg _)
  · show _ ≤ δ * tol / (M.least pos + M.nextMultiplier pos δ lam - tol)
    rw [newton] at small lifts ⊢
    rw [E.norm_stepAt]
    exact E.abs_stepLength_sub_le seeks.sloped delta_pos small lifts

/-- A gradient of one and a curvature of `-1`: the multiplier is two, the bound a little over one. -/
theorem settled_step_nearly_optimal_concave : ∃ (proposal : Proposal ℝ) (M : Model ℝ 1),
    proposeStep LinearAlgebra.exact false (.ofVector #v[1]) (.ofSquare #v[#v[-1]]) 1 [1] 1e-10 5 =
      .ok proposal ∧
    Model.ofDerivatives LinearAlgebra.exact #v[1] #v[#v[-1]] = .ok M ∧
    (1e-10 : ℝ) ≤ definiteThreshold ∧ proposal.outcome.reached = true ∧
    proposal.outcome.interior = false ∧ proposal.outcome.hardCase = false ∧
    M.multiplierBound Nat.one_pos + definiteThreshold ≤ proposal.outcome.lam ∧
    ∃ s : Vector ℝ 1, proposal.step = .ofVector s ∧
      norm (((SquareMatrix.symmetricPart #v[#v[-1]]).shift proposal.outcome.lam).mulVec s + #v[1]) ≤
        1e-10 * norm s ∧
      0 < M.least Nat.one_pos + proposal.outcome.lam - 1e-10 ∧
      |norm s - 1| ≤ 1 * 1e-10 / (M.least Nat.one_pos + proposal.outcome.lam - 1e-10) := by
  have fine : (1e-10 : ℝ) ≤ definiteThreshold := by
    rw [definiteThreshold_eq]
    norm_num
  obtain ⟨M, modelled, E, gradient, hessian⟩ :=
    Model.ofDerivatives_eq LinearAlgebra.exact_exact #v[1] #v[#v[-1]]
  have L : M.Line 1 (-1) := ⟨E, gradient, hessian⟩
  obtain ⟨proposal, returned, -, outcome⟩ := proposeStep_concave LinearAlgebra.exact_exact
    (γ := 1) (h := -1) (δ := 1) (by norm_num) (by norm_num [tieThreshold_eq]) one_pos
    (by norm_num [definiteThreshold_eq]) (by norm_num) fine (by norm_num : (2 : Int) ≤ 5)
  have reached : proposal.outcome.reached = true := by rw [outcome]
  have outside : proposal.outcome.interior = false := by rw [outcome]
  have easy : proposal.outcome.hardCase = false := by rw [outcome]
  have clear : M.multiplierBound Nat.one_pos + definiteThreshold ≤ proposal.outcome.lam := by
    rw [outcome, L.bound one_ne_zero, definiteThreshold_eq]
    norm_num
  exact ⟨proposal, M, returned, modelled, fine, reached, outside, easy, clear,
    settled_step_nearly_optimal LinearAlgebra.exact_exact Nat.one_pos returned modelled fine
      reached outside easy clear⟩

end Solver

end TrustRegion
