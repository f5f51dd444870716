/-
  Subproblems in one variable.

  With one variable the whole run can be read off. Where the curvature is negative, the bound lies
  above the negated curvature by the threshold, Newton's method proposes the root at once, and a
  root closer to the bound than the threshold is turned down for the bound itself. So the answer to
  a weak gradient is the step at the bound, `-10⁸ γ`, whatever the radius is
  (`proposeStep_oneVariable`), and the answer to a stronger one is the step at the root, which ends
  on the boundary (`proposeStep_concave`). Where the curvature is positive, the answer to a gradient
  that is not too strong is the Newton step, whatever the radius is (`proposeStep_convex`).
-/
import TrustRegion.Proofs.Overshoot

namespace TrustRegion

namespace Model

variable {M : Model ℝ 1} {γ h lam δ tol : ℝ} {more i : Nat}

/-- A model in one variable with gradient `γ` and curvature `h`. -/
structure Line (M : Model ℝ 1) (γ h : ℝ) : Prop where
  /-- It is exact. -/
  exact : M.Exact
  /-- Its gradient has one entry. -/
  gradient : M.gradient = #v[γ]
  /-- Its Hessian has one entry. -/
  hessian : M.hessian = SquareMatrix.symmetricPart #v[#v[h]]

namespace Line

theorem get_hessian (L : M.Line γ h) : M.hessian 0 0 = h := by
  have entry : M.hessian 0 0 = 0.5 * (h + h) := by
    rw [L.hessian]
    exact SquareMatrix.get_symmetricPart _ 0 0
  rw [entry]
  norm_num
  ring

theorem get_mulVec (L : M.Line γ h) (s : ℝ) : (M.hessian.mulVec #v[s]).get 0 = h * s := by
  rw [SquareMatrix.get_mulVec, real_dot, Fin.sum_univ_one, L.get_hessian]
  rfl

theorem eigen (L : M.Line γ h) : M.EigenGradient h := by
  refine vector_ext fun j => ?_
  rw [Fin.fin_one_eq_zero j, L.gradient, L.get_mulVec, get_mul]
  rfl

theorem dot_gradient (L : M.Line γ h) : dot M.gradient M.gradient = γ ^ 2 := by
  rw [L.gradient, real_dot, Fin.sum_univ_one, sq]
  rfl

theorem norm_gradient (L : M.Line γ h) : norm M.gradient = |γ| := by
  show √(dot M.gradient M.gradient) = |γ|
  rw [L.dot_gradient, Real.sqrt_sq_eq_abs]

theorem abs_projection (L : M.Line γ h) : |M.projections 0| = |γ| := by
  rw [← sq_eq_sq_iff_abs_eq_abs, ← L.dot_gradient, L.exact.dot_gradient, Fin.sum_univ_one]

theorem sloped (L : M.Line γ h) (nonzero : γ ≠ 0) : M.Sloped := by
  refine ⟨0, fun zero => nonzero ?_⟩
  rw [← abs_eq_zero, ← L.abs_projection, zero, abs_zero]

theorem eigenvalue (L : M.Line γ h) (nonzero : γ ≠ 0) : M.spectrum.eigenvalues 0 = h := by
  obtain ⟨j, sloped⟩ := L.sloped nonzero
  rw [Fin.fin_one_eq_zero j] at sloped
  exact L.exact.eigenGradient_iff.1 L.eigen 0 sloped

theorem bound (L : M.Line γ h) (nonzero : γ ≠ 0) :
    M.multiplierBound Nat.one_pos = definiteThreshold - h := by
  have least : M.least Nat.one_pos = h := L.eigenvalue nonzero
  have greatest : M.greatest Nat.one_pos = h := L.eigenvalue nonzero
  rw [multiplierBound_eq, margin, least, greatest, sub_self, mul_zero,
    max_eq_left definiteThreshold_pos.le]

theorem value_eq (L : M.Line γ h) (s : ℝ) : M.value #v[s] = γ * s + h * s ^ 2 / 2 := by
  have curved : dot ((0.5 : ℝ) * #v[s]) (M.hessian.mulVec #v[s]) = 0.5 * s * (h * s) := by
    rw [real_dot, Fin.sum_univ_one, L.get_mulVec, get_mul]
    rfl
  have sloping : dot M.gradient #v[s] = γ * s := by
    rw [L.gradient, real_dot, Fin.sum_univ_one]
    rfl
  unfold value
  rw [curved, sloping]
  norm_num
  ring

/-- Newton's method finds the root at once. -/
theorem newton_eq (L : M.Line γ h) (nonzero : γ ≠ 0) (delta_pos : 0 < δ)
    (le : M.multiplierBound Nat.one_pos ≤ lam) : M.newton δ lam = |γ| / δ - h := by
  rw [L.exact.newton_of_eigen L.eigen (L.sloped nonzero) delta_pos (L.exact.definite le),
    L.norm_gradient]

/-! ## Concave subproblems -/

/-- A noticed gradient where the curvature is negative: a root is looked for. -/
theorem seeksRoot (L : M.Line γ h) (concave : h < 0) (noticed : tieThreshold < |γ|) :
    (M.hardCase Nat.one_pos).1 = false ∧ M.SeeksRoot Nat.one_pos δ := by
  have nonzero : γ ≠ 0 := abs_pos.1 (tieThreshold_pos.trans noticed)
  have least : M.least Nat.one_pos = h := L.eigenvalue nonzero
  have easy : (M.hardCase Nat.one_pos).1 = false := by
    refine hardCase_of_first ?_
    rw [← L.abs_projection] at noticed
    exact noticed
  refine ⟨easy, ?_, ?_, L.sloped nonzero⟩
  · intro fits
    have definite := fits.1
    rw [least] at definite
    exact absurd (definite.trans_lt concave) definiteThreshold_pos.not_gt
  · intro k completes
    rw [completes.1] at easy
    exact absurd easy.symm Bool.false_ne_true

/-- A root closer to the bound than the threshold is turned down for the bound. -/
theorem multiplier_eq (L : M.Line γ h) (concave : h < 0) (noticed : tieThreshold < |γ|)
    (delta_pos : 0 < δ) (weak : |γ| < 2 * definiteThreshold * δ) (i : Nat) :
    M.multiplier Nat.one_pos δ i = definiteThreshold - h := by
  have nonzero : γ ≠ 0 := abs_pos.1 (tieThreshold_pos.trans noticed)
  have low : M.newton δ (M.multiplierBound Nat.one_pos) <
      M.multiplierBound Nat.one_pos + definiteThreshold := by
    rw [L.newton_eq nonzero delta_pos (le_refl _), L.bound nonzero]
    have root : |γ| / δ < 2 * definiteThreshold := (div_lt_iff₀ delta_pos).2 weak
    linarith
  rw [← L.bound nonzero]
  exact multiplier_eq_bound (L.seeksRoot (δ := δ) concave noticed).1 low i

theorem stepAt_bound (L : M.Line γ h) :
    M.stepAt (definiteThreshold - h) = #v[-(10 ^ 8 * γ)] := by
  rw [L.exact.stepAt_of_eigen L.eigen, L.gradient, sub_add_cancel, definiteThreshold_eq]
  refine vector_ext fun j => ?_
  rw [Fin.fin_one_eq_zero j, get_mul]
  show -(1 / (1 / 10 ^ 8)) * γ = -(10 ^ 8 * γ)
  ring

variable {solution : Solution ℝ 1}

open Classical in
/-- The solution by root finding, which ends where it starts. -/
theorem solution_eq (L : M.Line γ h) (concave : h < 0) (noticed : tieThreshold < |γ|)
    (delta_pos : 0 < δ) (weak : |γ| < 2 * definiteThreshold * δ) (tol_pos : 0 < tol)
    (route : M.Route Nat.one_pos δ tol more solution) :
    solution.step = #v[-(10 ^ 8 * γ)] ∧ solution.outcome =
      { m := γ * -(10 ^ 8 * γ) + h * (-(10 ^ 8 * γ)) ^ 2 / 2
        interior := decide (10 ^ 8 * |γ| < δ)
        lam := definiteThreshold - h
        hardCase := false
        reached := true } := by
  have seeks : M.SeeksRoot Nat.one_pos δ := (L.seeksRoot concave noticed).2
  have nonzero : γ ≠ 0 := abs_pos.1 (tieThreshold_pos.trans noticed)
  have stays := L.multiplier_eq concave noticed delta_pos weak
  have settles (i : Nat) : M.Settles Nat.one_pos δ (M.firstMultiplier Nat.one_pos) tol i := by
    show |M.multiplier Nat.one_pos δ (i + 1) - M.multiplier Nat.one_pos δ i| < tol
    rw [stays, stays, sub_self, abs_zero]
    exact tol_pos
  have length : M.squaredLength (definiteThreshold - h) 0 = (10 ^ 8 * |γ|) ^ 2 := by
    rw [← L.exact.dot_stepAt, L.stepAt_bound, real_dot, Fin.sum_univ_one, mul_pow, sq_abs]
    show -(10 ^ 8 * γ) * -(10 ^ 8 * γ) = _
    ring
  have inside (i : Nat) : M.EndsInside Nat.one_pos δ tol i ↔ 10 ^ 8 * |γ| < δ := by
    have short : (10 ^ 8 * |γ|) ^ 2 < δ ^ 2 ↔ 10 ^ 8 * |γ| < δ :=
      sq_lt_sq₀ (by positivity) delta_pos.le
    unfold EndsInside
    rw [stays, stays, L.bound nonzero, length, short]
    have above := definiteThreshold_pos
    exact ⟨fun ends => ends.2.2, fun short => ⟨settles i, by linarith, short⟩⟩
  obtain ⟨i, remark, ends, rfl⟩ := route.eq_boundary seeks
  have step : M.stepAt (M.multiplier Nat.one_pos δ i) = #v[-(10 ^ 8 * γ)] := by
    rw [stays, L.stepAt_bound]
  refine ⟨step, ?_⟩
  show Outcome.mk (M.value (M.stepAt (M.multiplier Nat.one_pos δ i))) _ _ _ _ = _
  rw [step, L.value_eq, stays, decide_eq_true (settles i), decide_eq_decide.2 (inside i)]

/-- A root further from the bound than the threshold is found at once, and kept. -/
theorem multiplier_succ_eq (L : M.Line γ h) (nonzero : γ ≠ 0) (delta_pos : 0 < δ)
    (strong : 2 * definiteThreshold * δ ≤ |γ|) (i : Nat) :
    M.multiplier Nat.one_pos δ (i + 1) = |γ| / δ - h := by
  have proposed := L.newton_eq nonzero delta_pos (bound_le_multiplier Nat.one_pos M δ i)
  have root : 2 * definiteThreshold ≤ |γ| / δ := (le_div_iff₀ delta_pos).2 strong
  have high : M.multiplierBound Nat.one_pos + definiteThreshold ≤
      M.newton δ (M.multiplier Nat.one_pos δ i) := by
    rw [proposed, L.bound nonzero]
    linarith
  rw [← proposed]
  exact if_neg (not_lt.2 high)

/-- Such a root takes two iterations, one to find it and one to see that it is found. -/
theorem endsAt_one (L : M.Line γ h) (concave : h < 0) (noticed : tieThreshold < |γ|)
    (delta_pos : 0 < δ) (strong : 2 * definiteThreshold * δ ≤ |γ|) (tol_pos : 0 < tol)
    (fine : tol ≤ definiteThreshold) (some_left : 1 ≤ more) :
    M.Settles Nat.one_pos δ (M.firstMultiplier Nat.one_pos) tol 1 ∧
      M.EndsAt Nat.one_pos δ (M.firstMultiplier Nat.one_pos) tol more 1 := by
  have nonzero : γ ≠ 0 := abs_pos.1 (tieThreshold_pos.trans noticed)
  have finds := L.multiplier_succ_eq nonzero delta_pos strong
  have settles : M.Settles Nat.one_pos δ (M.firstMultiplier Nat.one_pos) tol 1 := by
    show |M.multiplier Nat.one_pos δ (1 + 1) - M.multiplier Nat.one_pos δ (0 + 1)| < tol
    rw [finds, finds, sub_self, abs_zero]
    exact tol_pos
  have unsettled : ¬ M.Settles Nat.one_pos δ (M.firstMultiplier Nat.one_pos) tol 0 := by
    intro small
    change |M.multiplier Nat.one_pos δ (0 + 1) - M.multiplier Nat.one_pos δ 0| < tol at small
    rw [finds, multiplier_zero_of_easy (L.seeksRoot (δ := δ) concave noticed).1,
      L.bound nonzero] at small
    have root : 2 * definiteThreshold ≤ |γ| / δ := (le_div_iff₀ delta_pos).2 strong
    linarith [le_abs_self (|γ| / δ - h - (definiteThreshold - h))]
  refine ⟨settles, some_left, fun j first => ?_, Or.inl settles⟩
  rw [Nat.lt_one_iff.1 first]
  exact unsettled

theorem stepAt_root (L : M.Line γ h) : M.stepAt (|γ| / δ - h) = #v[-(δ / |γ| * γ)] := by
  rw [L.exact.stepAt_of_eigen L.eigen, L.gradient, sub_add_cancel, one_div_div]
  refine vector_ext fun j => ?_
  rw [Fin.fin_one_eq_zero j, get_mul]
  show -(δ / |γ|) * γ = -(δ / |γ| * γ)
  ring

/-- The solution by root finding, which finds the root. -/
theorem solution_root (L : M.Line γ h) (concave : h < 0) (noticed : tieThreshold < |γ|)
    (delta_pos : 0 < δ) (strong : 2 * definiteThreshold * δ ≤ |γ|) (tol_pos : 0 < tol)
    (fine : tol ≤ definiteThreshold) (some_left : 1 ≤ more)
    (route : M.Route Nat.one_pos δ tol more solution) :
    solution.step = #v[-(δ / |γ| * γ)] ∧ solution.outcome =
      { m := γ * -(δ / |γ| * γ) + h * (-(δ / |γ| * γ)) ^ 2 / 2
        interior := false, lam := |γ| / δ - h, hardCase := false, reached := true } := by
  classical
  have nonzero : γ ≠ 0 := abs_pos.1 (tieThreshold_pos.trans noticed)
  have finds := L.multiplier_succ_eq nonzero delta_pos strong
  obtain ⟨i, remark, ends, rfl⟩ := route.eq_boundary (L.seeksRoot concave noticed).2
  obtain ⟨settles, ends'⟩ :=
    L.endsAt_one concave noticed delta_pos strong tol_pos fine some_left
  obtain rfl : i = 1 := ends.unique ends'
  have outside : ¬ M.EndsInside Nat.one_pos δ tol 1 := by
    rintro ⟨-, low, -⟩
    have root : 2 * definiteThreshold ≤ |γ| / δ := (le_div_iff₀ delta_pos).2 strong
    rw [finds, L.bound nonzero] at low
    linarith
  have step : M.stepAt (M.multiplier Nat.one_pos δ (0 + 1)) = #v[-(δ / |γ| * γ)] := by
    rw [finds, L.stepAt_root]
  refine ⟨step, ?_⟩
  show Outcome.mk (M.value (M.stepAt (M.multiplier Nat.one_pos δ (0 + 1)))) _ _ _ _ = _
  rw [step, L.value_eq, finds, decide_eq_true settles, decide_eq_false outside]

/-! ## Convex subproblems -/

theorem definite_zero (L : M.Line γ h) (nonzero : γ ≠ 0) (convex : 0 < h) : M.Definite 0 := by
  intro j
  rw [Fin.fin_one_eq_zero j, lifted, L.eigenvalue nonzero, zero_add]
  exact convex

theorem newtonFits_iff (L : M.Line γ h) (nonzero : γ ≠ 0) (convex : definiteThreshold ≤ h)
    (delta_pos : 0 < δ) : M.NewtonFits Nat.one_pos δ ↔ |γ| ≤ h * δ := by
  have h_pos : 0 < h := definiteThreshold_pos.trans_le convex
  have least : M.least Nat.one_pos = h := L.eigenvalue nonzero
  have length := L.exact.stepLength_of_eigen L.eigen (L.sloped nonzero)
    (L.definite_zero nonzero h_pos)
  rw [zero_add, L.norm_gradient] at length
  unfold NewtonFits
  rw [least, and_iff_right convex, ← stepLength_sq, sq_le_sq₀ (M.stepLength_nonneg 0) delta_pos.le,
    ← length, mul_comm h, mul_le_mul_iff_left₀ h_pos]

theorem newtonStep_eq (L : M.Line γ h) : M.newtonStep = #v[-(γ / h)] := by
  rw [Model.newtonStep_eq, L.exact.stepAt_of_eigen L.eigen, L.gradient]
  refine vector_ext fun j => ?_
  rw [Fin.fin_one_eq_zero j, get_mul]
  show -(1 / (0 + h)) * γ = -(γ / h)
  ring

/-- A positive curvature is answered with the Newton step where it fits. -/
theorem solution_newton (L : M.Line γ h) (nonzero : γ ≠ 0)
    (convex : definiteThreshold ≤ h) (delta_pos : 0 < δ) (fits : |γ| ≤ h * δ)
    (route : M.Route Nat.one_pos δ tol more solution) :
    solution.step = #v[-(γ / h)] ∧ solution.outcome =
      { m := -(γ ^ 2 / (2 * h)), interior := true, lam := 0, hardCase := false,
        reached := true } := by
  have fits : M.NewtonFits Nat.one_pos δ := (L.newtonFits_iff nonzero convex delta_pos).2 fits
  have h_pos : 0 < h := definiteThreshold_pos.trans_le convex
  have value : M.value #v[-(γ / h)] = -(γ ^ 2 / (2 * h)) := by
    rw [L.value_eq]
    field_simp
    ring
  obtain rfl := route.eq_newton fits
  refine ⟨L.newtonStep_eq, ?_⟩
  show Outcome.mk (M.value M.newtonStep) true 0 false true = _
  rw [L.newtonStep_eq, value]

end Line

end Model

/-- A subproblem in one variable is solved, by one of the routes. -/
theorem exists_line {la : LinearAlgebra ℝ} (exact_la : la.Exact) (γ h : ℝ) {δ : ℝ}
    (delta_pos : 0 < δ) (tol : ℝ) {iterations : Int} (some_iteration : 1 ≤ iterations) :
    ∃ (M : Model ℝ 1) (solution : Solution ℝ 1), M.Line γ h ∧
      proposeStep la false (.ofVector #v[γ]) (.ofSquare #v[#v[h]]) δ [1] tol iterations =
        .ok solution.toProposal ∧
      M.Route Nat.one_pos δ tol (iterations.toNat - 1) solution := by
  obtain ⟨proposal, returned⟩ := proposeStep_total exact_la Nat.one_pos #v[γ] #v[#v[h]] delta_pos
    tol some_iteration
  obtain ⟨-, M, solution, -, E, gradient, hessian, route, rfl⟩ :=
    exists_route exact_la Nat.one_pos returned
  exact ⟨M, solution, ⟨E, gradient, hessian⟩, returned, route⟩

open Classical in
/-- Negative curvature and a weak gradient are answered with the step at the bound. -/
theorem proposeStep_oneVariable {la : LinearAlgebra ℝ} (exact_la : la.Exact) {γ h δ tol : ℝ}
    {iterations : Int} (concave : h < 0) (noticed : tieThreshold < |γ|) (delta_pos : 0 < δ)
    (weak : |γ| < 2 * definiteThreshold * δ) (tol_pos : 0 < tol) (some_iteration : 1 ≤ iterations) :
    ∃ proposal, proposeStep la false (.ofVector #v[γ]) (.ofSquare #v[#v[h]]) δ [1] tol iterations =
        .ok proposal ∧
      proposal.step = .ofVector #v[-(10 ^ 8 * γ)] ∧ proposal.outcome =
        { m := γ * -(10 ^ 8 * γ) + h * (-(10 ^ 8 * γ)) ^ 2 / 2
          interior := decide (10 ^ 8 * |γ| < δ)
          lam := definiteThreshold - h
          hardCase := false
          reached := true } := by
  obtain ⟨M, solution, L, returned, route⟩ :=
    exists_line exact_la γ h delta_pos tol some_iteration
  obtain ⟨step, outcome⟩ := L.solution_eq concave noticed delta_pos weak tol_pos route
  exact ⟨_, returned, congrArg Tensor.ofVector step, outcome⟩

/-- Negative curvature and a strong gradient are answered with the step at the root. -/
theorem proposeStep_concave {la : LinearAlgebra ℝ} (exact_la : la.Exact) {γ h δ tol : ℝ}
    {iterations : Int} (concave : h < 0) (noticed : tieThreshold < |γ|) (delta_pos : 0 < δ)
    (strong : 2 * definiteThreshold * δ ≤ |γ|) (tol_pos : 0 < tol)
    (fine : tol ≤ definiteThreshold) (some_iterations : 2 ≤ iterations) :
    ∃ proposal, proposeStep la false (.ofVector #v[γ]) (.ofSquare #v[#v[h]]) δ [1] tol iterations =
        .ok proposal ∧
      proposal.step = .ofVector #v[-(δ / |γ| * γ)] ∧ proposal.outcome =
        { m := γ * -(δ / |γ| * γ) + h * (-(δ / |γ| * γ)) ^ 2 / 2
          interior := false, lam := |γ| / δ - h, hardCase := false, reached := true } := by
  obtain ⟨M, solution, L, returned, route⟩ :=
    exists_line exact_la γ h delta_pos tol (by omega : 1 ≤ iterations)
  obtain ⟨step, outcome⟩ := L.solution_root concave noticed delta_pos strong tol_pos fine
    (by omega) route
  exact ⟨_, returned, congrArg Tensor.ofVector step, outcome⟩

/-- Positive curvature and a gradient that is not too strong are answered with the Newton step. -/
theorem proposeStep_convex {la : LinearAlgebra ℝ} (exact_la : la.Exact) {γ h δ tol : ℝ}
    {iterations : Int} (nonzero : γ ≠ 0) (convex : definiteThreshold ≤ h) (delta_pos : 0 < δ)
    (fits : |γ| ≤ h * δ) (some_iteration : 1 ≤ iterations) :
    ∃ proposal, proposeStep la false (.ofVector #v[γ]) (.ofSquare #v[#v[h]]) δ [1] tol iterations =
        .ok proposal ∧
      proposal.step = .ofVector #v[-(γ / h)] ∧ proposal.outcome =
        { m := -(γ ^ 2 / (2 * h)), interior := true, lam := 0, hardCase := false,
          reached := true } := by
  obtain ⟨M, solution, L, returned, route⟩ :=
    exists_line exact_la γ h delta_pos tol some_iteration
  obtain ⟨step, outcome⟩ := L.solution_newton nonzero convex delta_pos fits route
  exact ⟨_, returned, congrArg Tensor.ofVector step, outcome⟩

end TrustRegion
