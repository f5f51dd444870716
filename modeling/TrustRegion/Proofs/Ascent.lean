/-
  Root finding from below.

  A multiplier ascends if its step is at least as long as the radius and it is the bound itself or
  lies clearly above it. From there the guard that keeps multipliers above the bound changes
  nothing: it turns down a proposal for the bound only where the multiplier is the bound already. So
  every proposal is taken, no multiplier falls back, and none passes a multiplier whose step ends on
  the boundary (`Ascending.multiplierFrom`, `Ascending.monotone`, `Ascending.le_of_short`). A run that
  starts at the bound with a step that is too short does not ascend, and nothing is said of it here.
-/
import TrustRegion.Proofs.NewtonStep
import TrustRegion.Proofs.OneVariable
import TrustRegion.Proofs.Factorizations

namespace TrustRegion

namespace Model

variable {n : Nat} {M : Model ℝ n} {lam mu δ root : ℝ} {pos : 0 < n}

/-! ## One iteration -/

/-- A multiplier from which root finding goes up, or stays at the bound. -/
structure Ascending (pos : 0 < n) (M : Model ℝ n) (δ lam : ℝ) : Prop where
  /-- Its step is at least as long as the radius. -/
  long : δ ≤ M.stepLength lam
  /-- It is the bound, or lies clearly above it. -/
  clear : lam = M.multiplierBound pos ∨ M.multiplierBound pos + definiteThreshold ≤ lam

namespace Ascending

theorem bound_le (ascending : M.Ascending pos δ lam) : M.multiplierBound pos ≤ lam := by
  rcases ascending.clear with same | clear
  · exact same.ge
  · linarith [definiteThreshold_pos]

section Iteration

variable (ascending : M.Ascending pos δ lam) (E : M.Exact) (sloped : M.Sloped) (delta_pos : 0 < δ)
include ascending E sloped delta_pos

/-- An iteration stays at the bound, or takes a proposal that lies clearly above it. -/
theorem next_cases :
    (lam = M.multiplierBound pos ∧ M.nextMultiplier pos δ lam = lam) ∨
      (M.multiplierBound pos + definiteThreshold ≤ M.newton δ lam ∧
        M.nextMultiplier pos δ lam = M.newton δ lam) := by
  by_cases low : M.newton δ lam < M.multiplierBound pos + definiteThreshold
  · -- The proposal is no lower than the multiplier, so the multiplier is low as well.
    have rises := le_newton sloped (E.definite ascending.bound_le) delta_pos ascending.long
    have at_bound : lam = M.multiplierBound pos := by
      rcases ascending.clear with same | clear
      · exact same
      · linarith
    refine Or.inl ⟨at_bound, ?_⟩
    rw [at_bound] at low ⊢
    exact nextMultiplier_bound low
  · exact Or.inr ⟨not_lt.1 low, if_neg low⟩

theorem le_next : lam ≤ M.nextMultiplier pos δ lam := by
  rcases ascending.next_cases E sloped delta_pos with ⟨-, stays⟩ | ⟨-, taken⟩
  · exact stays.ge
  · rw [taken]
    exact le_newton sloped (E.definite ascending.bound_le) delta_pos ascending.long

theorem next : M.Ascending pos δ (M.nextMultiplier pos δ lam) := by
  rcases ascending.next_cases E sloped delta_pos with ⟨-, stays⟩ | ⟨above, taken⟩
  · rw [stays]
    exact ascending
  · have definite := E.definite ascending.bound_le
    have rises := le_newton sloped definite delta_pos ascending.long
    rw [taken]
    exact ⟨le_stepLength_newton sloped delta_pos definite (definite.mono rises), Or.inr above⟩

end Iteration

/-- No ascending multiplier lies beyond one whose step fits. -/
theorem le_of_short (ascending : M.Ascending pos δ lam) (sloped : M.Sloped)
    (definite : M.Definite mu) (short : M.stepLength mu ≤ δ) : lam ≤ mu := by
  by_contra beyond
  have shorter := stepLength_strictAnti sloped definite (not_le.1 beyond)
  linarith [ascending.long]

/-! ## Runs -/

/-- All multipliers after an ascending one ascend. -/
theorem multiplierFrom (ascending : M.Ascending pos δ lam) (E : M.Exact) (sloped : M.Sloped)
    (delta_pos : 0 < δ) (i : Nat) : M.Ascending pos δ (M.multiplierFrom pos δ lam i) := by
  induction i with
  | zero => exact ascending
  | succ i ih => exact ih.next E sloped delta_pos

theorem monotone (ascending : M.Ascending pos δ lam) (E : M.Exact) (sloped : M.Sloped)
    (delta_pos : 0 < δ) : Monotone (M.multiplierFrom pos δ lam) := by
  apply monotone_nat_of_le_succ
  intro i
  exact (ascending.multiplierFrom E sloped delta_pos i).le_next E sloped delta_pos

end Ascending

theorem ascending_bound (long : δ ≤ M.stepLength (M.multiplierBound pos)) :
    M.Ascending pos δ (M.multiplierBound pos) :=
  ⟨long, Or.inl rfl⟩

/-! ## Roots -/

/-- A multiplier above the negated smallest eigenvalue whose step has the length of the radius. -/
structure IsRoot (pos : 0 < n) (M : Model ℝ n) (δ root : ℝ) : Prop where
  /-- It lifts every eigenvalue above zero. -/
  above : -M.least pos < root
  /-- Its step ends on the boundary. -/
  hits : norm ((M.hessian.shift root).inverseMulVec M.gradient) = δ

theorem IsRoot.definite (isRoot : M.IsRoot pos δ root) (E : M.Exact) : M.Definite root :=
  E.definite_of_least isRoot.above

theorem IsRoot.stepLength_eq (isRoot : M.IsRoot pos δ root) (E : M.Exact) :
    M.stepLength root = δ := by
  rw [← E.norm_inverseMulVec_shift (isRoot.definite E)]
  exact isRoot.hits

/-- The proposal from what an iteration computes, its step and the vector `L⁻¹ s`. -/
theorem Exact.newton_eq (E : M.Exact) {q : Vector ℝ n} (q_sq : dot q q = M.steepness lam) :
    lam + dot (M.stepAt lam) (M.stepAt lam) * (norm (M.stepAt lam) - δ) / (δ * dot q q) =
      M.newton δ lam := by
  rw [E.dot_stepAt, E.norm_stepAt, q_sq]
  rfl

section Line

variable {M : Model ℝ 1} {γ h δ : ℝ}

theorem Line.isRoot (L : M.Line γ h) (nonzero : γ ≠ 0) (delta_pos : 0 < δ) :
    M.IsRoot Nat.one_pos δ (|γ| / δ - h) := by
  have least : M.least Nat.one_pos = h := L.eigenvalue nonzero
  have ratio_pos : 0 < |γ| / δ := div_pos (abs_pos.2 nonzero) delta_pos
  have above : -M.least Nat.one_pos < |γ| / δ - h := by
    rw [least]
    linarith
  have definite := L.exact.definite_of_least above
  have length := L.exact.stepLength_of_eigen L.eigen (L.sloped nonzero) definite
  refine ⟨above, ?_⟩
  rw [L.norm_gradient, sub_add_cancel] at length
  rw [L.exact.norm_inverseMulVec_shift definite]
  have same : M.stepLength (|γ| / δ - h) * (|γ| / δ) = δ * (|γ| / δ) := by
    rw [length]
    field_simp
  exact mul_right_cancel₀ ratio_pos.ne' same

theorem Line.stepLength_bound (L : M.Line γ h) (nonzero : γ ≠ 0) :
    M.stepLength (M.multiplierBound Nat.one_pos) * definiteThreshold = |γ| := by
  have length := L.exact.stepLength_of_eigen L.eigen (L.sloped nonzero)
    (L.exact.definite (le_refl (M.multiplierBound Nat.one_pos)))
  rw [L.norm_gradient] at length
  rw [← length, L.bound nonzero, sub_add_cancel]

end Line

end Model

/-! ## The iterations of the solver -/

section Solver

variable {n : Nat} {la : LinearAlgebra ℝ} {g : Vector ℝ n} {H : SquareMatrix ℝ n} {δ : ℝ}

/--
Newton's method on the reciprocal length never proposes a multiplier beyond a root, from whichever
side it comes. Root finding that starts at the bound with a step at least as long as the radius has
only such steps, and its multipliers neither fall nor pass a root.
-/
theorem newton_never_passes_root (exact_la : la.Exact) (pos : 0 < n) {M : Model ℝ n}
    (modelled : Model.ofDerivatives la g H = .ok M) (nonzero : ∃ i, g i ≠ 0) (delta_pos : 0 < δ) :
    (∀ lam, -M.least pos < lam → ∃ s q, M.regularizedStep la lam = .ok (s, q) ∧
      s = -(H.symmetricPart.shift lam).inverseMulVec g ∧
      ∀ root, M.IsRoot pos δ root → lam + dot s s * (norm s - δ) / (δ * dot q q) ≤ root) ∧
    (δ ≤ norm ((H.symmetricPart.shift (M.multiplierBound pos)).inverseMulVec g) →
      ∃ (lams : Nat → ℝ) (steps : Nat → Vector ℝ n), lams 0 = M.multiplierBound pos ∧
        (∀ i, M.rootIteration la δ (M.multiplierBound pos) (lams i) =
          .ok (steps i, lams (i + 1))) ∧
        (∀ tol more, ∃ k ≤ more, ∃ reached,
          M.findRoot la δ (M.multiplierBound pos) tol more (M.multiplierBound pos) =
            .ok ⟨steps k, lams (k + 1), reached⟩) ∧
        Monotone lams ∧ (∀ i, δ ≤ norm (steps i)) ∧
        ∀ root, M.IsRoot pos δ root → ∀ i, lams i ≤ root) := by
  obtain ⟨E, rfl, hessian⟩ := Model.exact_of_ofDerivatives exact_la.exactSpectra modelled
  have sloped : M.Sloped := E.gradient_ne_zero nonzero
  rw [← hessian]
  constructor
  · intro lam above
    have definite := E.definite_of_least above
    obtain ⟨q, step, q_sq⟩ := Model.regularizedStep_eq exact_la E definite
    refine ⟨M.stepAt lam, q, step, E.stepAt_eq_neg definite, fun root isRoot => ?_⟩
    rw [E.newton_eq q_sq]
    exact Model.newton_le sloped delta_pos definite (isRoot.definite E) (isRoot.stepLength_eq E).le
  · intro long
    have le_bound := le_refl (M.multiplierBound pos)
    rw [E.norm_inverseMulVec_shift (E.definite le_bound)] at long
    have ascending (i : Nat) := (Model.ascending_bound long).multiplierFrom E sloped delta_pos i
    refine ⟨M.multiplierFrom pos δ (M.multiplierBound pos),
      fun i => M.stepAt (M.multiplierFrom pos δ (M.multiplierBound pos) i), rfl, fun i => ?_,
      fun tol more => ?_, (Model.ascending_bound long).monotone E sloped delta_pos, fun i => ?_,
      fun root isRoot i => ?_⟩
    · exact Model.rootIteration_eq exact_la E sloped delta_pos (E.definite (ascending i).bound_le)
    · classical
      obtain ⟨k, ends, found⟩ := Model.findRoot_eq exact_la E sloped delta_pos tol more le_bound
      exact ⟨k, ends.le, _, found⟩
    · rw [E.norm_stepAt]
      exact (ascending i).long
    · exact (ascending i).le_of_short sloped (isRoot.definite E) (isRoot.stepLength_eq E).le

/-- A gradient of one and a curvature of `-1`: the root is two, and the step at the bound is long. -/
theorem newton_never_passes_root_concave : ∃ M : Model ℝ 1,
    Model.ofDerivatives LinearAlgebra.exact #v[1] #v[#v[-1]] = .ok M ∧
    (∃ i, (#v[1] : Vector ℝ 1) i ≠ 0) ∧ M.IsRoot Nat.one_pos 1 2 ∧
    (∀ lam, 1 < lam → ∃ s q, M.regularizedStep LinearAlgebra.exact lam = .ok (s, q) ∧
      lam + dot s s * (norm s - 1) / (1 * dot q q) ≤ 2) ∧
    ∃ (lams : Nat → ℝ) (steps : Nat → Vector ℝ 1), lams 0 = M.multiplierBound Nat.one_pos ∧
      (∀ i, M.rootIteration LinearAlgebra.exact 1 (M.multiplierBound Nat.one_pos) (lams i) =
        .ok (steps i, lams (i + 1))) ∧
      Monotone lams ∧ (∀ i, 1 ≤ norm (steps i)) ∧ ∀ i, lams i ≤ 2 := by
  obtain ⟨M, modelled, E, gradient, hessian⟩ :=
    Model.ofDerivatives_eq LinearAlgebra.exact_exact #v[1] #v[#v[-1]]
  have L : M.Line 1 (-1) := ⟨E, gradient, hessian⟩
  have nonzero : ∃ i, (#v[1] : Vector ℝ 1) i ≠ 0 := ⟨0, one_ne_zero⟩
  have isRoot : M.IsRoot Nat.one_pos 1 2 := by
    have found := L.isRoot one_ne_zero one_pos
    norm_num at found
    exact found
  have least : -M.least Nat.one_pos = 1 := by
    have value : M.least Nat.one_pos = -1 := L.eigenvalue one_ne_zero
    rw [value, neg_neg]
  obtain ⟨proposals, runs⟩ := newton_never_passes_root LinearAlgebra.exact_exact Nat.one_pos
    modelled nonzero one_pos
  refine ⟨M, modelled, nonzero, isRoot, fun lam above => ?_, ?_⟩
  · obtain ⟨s, q, step, -, before⟩ := proposals lam (least.trans_lt above)
    exact ⟨s, q, step, before 2 isRoot⟩
  · have long : 1 ≤ norm ((SquareMatrix.symmetricPart #v[#v[-1]]).shift
        (M.multiplierBound Nat.one_pos) |>.inverseMulVec #v[1]) := by
      have length := L.stepLength_bound one_ne_zero
      rw [← hessian, ← gradient, E.norm_inverseMulVec_shift (E.definite le_rfl)]
      rw [abs_one, definiteThreshold_eq] at length
      linarith
    obtain ⟨lams, steps, start, iterated, -, monotone, lengths, before⟩ := runs long
    exact ⟨lams, steps, start, iterated, monotone, lengths, before 2 isRoot⟩

end Solver

end TrustRegion
