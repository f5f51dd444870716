/-
  How much of the best decrease a solution achieves.

  A solution is half optimal if its value is at most half of the least value in the region. Every
  solution that comes to rest is, unless it is doubtful (`halfOptimal_unless_doubtful`): what root
  finding leaves by a Newton step, the Newton step of a convex model and the empty step always are.
  Doubtful are steps that the lower bound on the multiplier holds back or pushes too far, and steps
  along an eigenvector whose curvature hardly exceeds the thresholds. Such a step can miss half
  optimality (`halfway_interior_proposal`); whether it does, a single multiplier decides.
-/
import TrustRegion.Proofs.HalfSteps
import TrustRegion.Proofs.OneVariable
import TrustRegion.Proofs.Factorizations

namespace TrustRegion

variable {n : Nat}

/-- The value `m` is at most half of that of every step in the region. -/
def HalfOptimal (g : Vector ℝ n) (H : SquareMatrix ℝ n) (δ m : ℝ) : Prop :=
  ∀ t : Vector ℝ n, norm t ≤ δ → m ≤ 0.5 * (dot g t + 0.5 * dot t (H.mulVec t))

namespace Model

variable {M : Model ℝ n} {δ m : ℝ} {pos : 0 < n} {solution : Solution ℝ n} {i more : Nat}

/-- Half optimality, with the values of the model. -/
theorem halfOptimal_iff {g : Vector ℝ n} {H : SquareMatrix ℝ n} (gradient : M.gradient = g)
    (hessian : M.hessian = H.symmetricPart) :
    HalfOptimal g H δ m ↔ ∀ t, norm t ≤ δ → 2 * m ≤ M.value t := by
  have half (t : Vector ℝ n) : m ≤ 0.5 * (dot g t + 0.5 * dot t (H.mulVec t)) ↔
      2 * m ≤ M.value t := by
    rw [value_eq_quadraticModel gradient hessian, quadraticModel]
    norm_num
    constructor <;> intro le <;> linarith
  exact forall_congr' fun t => imp_congr_right fun _ => half t

/--
Root finding was held at its bound, with a step that is too short for the region, or too long for a
convex model.
-/
structure HeldAtBound (pos : 0 < n) (M : Model ℝ n) (δ lam : ℝ) (s : Vector ℝ n) : Prop where
  /-- A root was looked for. -/
  seeks : M.SeeksRoot pos δ
  /-- The multiplier did not get away from the bound. -/
  low : lam < M.multiplierBound pos + definiteThreshold
  /-- The length of the step is off. -/
  misses : 2 * dot s s < δ ^ 2 ∨ M.multiplierBound pos < 0 ∧ 9 / 4 * δ ^ 2 < dot s s

/-- Where root finding settles, its step is half optimal unless it was held at the bound. -/
theorem Exact.half_of_settles (E : M.Exact) (seeks : M.SeeksRoot pos δ) (delta_pos : 0 < δ)
    (settles : M.Settles pos δ (M.firstMultiplier pos) 1e-10 i)
    (free : ¬ M.HeldAtBound pos δ (M.multiplier pos δ (i + 1)) (M.stepAt (M.multiplier pos δ i)))
    {t : Vector ℝ n} (inside : norm t ≤ δ) :
    2 * M.value (M.stepAt (M.multiplier pos δ i)) ≤ M.value t := by
  have le := bound_le_multiplier pos M δ i
  change |M.nextMultiplier pos δ (M.multiplier pos δ i) - M.multiplier pos δ i| < 1e-10 at settles
  have threshold := definiteThreshold_eq
  by_cases clamped : M.newton δ (M.multiplier pos δ i) < M.multiplierBound pos + definiteThreshold
  · have next : M.multiplier pos δ (i + 1) =
        0.5 * (M.multiplier pos δ i - M.multiplierBound pos) + M.multiplierBound pos :=
      if_pos clamped
    rw [← multiplier_succ, next, abs_lt] at settles
    have low : M.multiplier pos δ (i + 1) < M.multiplierBound pos + definiteThreshold := by
      rw [next, threshold]
      norm_num at settles ⊢
      linarith
    have fitting : δ ^ 2 ≤ 2 * M.squaredLength (M.multiplier pos δ i) 0 ∧
        (M.multiplierBound pos < 0 →
          M.squaredLength (M.multiplier pos δ i) 0 ≤ 9 / 4 * δ ^ 2) := by
      rw [← E.dot_stepAt]
      constructor
      · exact not_lt.1 fun misses => free ⟨seeks, low, Or.inl misses⟩
      · exact fun negative => not_lt.1 fun misses => free ⟨seeks, low, Or.inr ⟨negative, misses⟩⟩
    exact E.half_of_length seeks.misfit le fitting.1
      (fun negative => fitting.2 (le.trans_lt negative)) inside
  · rw [nextMultiplier, if_neg clamped] at settles
    have near := abs_le.1 (E.stepLength_near seeks.sloped delta_pos le settles)
    refine E.half_of_length seeks.misfit le ?_ (fun _ => ?_) inside
    · rw [← stepLength_sq]
      nlinarith
    · rw [← stepLength_sq]
      nlinarith [M.stepLength_nonneg (M.multiplier pos δ i)]

/-- A step along an eigenvector whose curvature hardly exceeds the thresholds. -/
structure BarelyConcave (pos : 0 < n) (M : Model ℝ n) (δ : ℝ) (k : Nat) : Prop where
  /-- The step was completed along an eigenvector. -/
  completes : M.Completes pos δ k
  /-- The curvature is weak, measured with the thresholds. -/
  weak : -M.least pos * δ < 4 * M.margin pos * δ + (4 * k + 2) * tieThreshold

/-- The solutions that can miss half optimality. -/
def Doubtful (pos : 0 < n) (M : Model ℝ n) (δ lam : ℝ) (s : Vector ℝ n) : Prop :=
  M.HeldAtBound pos δ lam s ∨ ∃ k, M.BarelyConcave pos δ k

/-- A model without slope and without a step to complete never goes below zero. -/
theorem Exact.value_nonneg (E : M.Exact) (incomplete : ∀ k, ¬ M.Completes pos δ k)
    (flat : ∀ j, M.projections j = 0) (t : Vector ℝ n) : 0 ≤ M.value t := by
  rw [E.value_eq]
  refine Finset.sum_nonneg fun j _ => ?_
  have eigenvalue := (least_nonneg_of_flat incomplete flat).trans (E.least_le pos j)
  rw [flat j, zero_mul, zero_add]
  positivity

/-- Solutions that are not doubtful are half optimal. -/
theorem Route.half_le_value (route : M.Route pos δ 1e-10 more solution) (E : M.Exact)
    (delta_pos : 0 < δ) (reached : solution.outcome.reached = true)
    (sure : ¬ M.Doubtful pos δ solution.outcome.lam solution.step) {t : Vector ℝ n}
    (inside : norm t ≤ δ) : 2 * solution.outcome.m ≤ M.value t := by
  cases route with
  | newton fits =>
    have feasible := (fits.definite E).dualFeasible (le_refl 0)
    change 2 * M.value M.newtonStep ≤ M.value t
    rw [newtonStep_eq]
    exact E.half_le_value feasible (E.solves_stepAt feasible.flat) (by rw [zero_mul, zero_mul])
      inside
  | @eigenvector k misfit completes =>
    have concave : 4 * M.margin pos * δ + (4 * k + 2) * tieThreshold ≤ -M.least pos * δ :=
      not_lt.1 fun weak => sure (Or.inr ⟨k, completes, weak⟩)
    exact E.half_of_completes delta_pos completes concave inside
  | stationary misfit incomplete flat =>
    change 2 * (0 : ℝ) ≤ M.value t
    rw [mul_zero]
    exact E.value_nonneg incomplete flat t
  | @boundary i seeks ends remark =>
    have settles : M.Settles pos δ (M.firstMultiplier pos) 1e-10 i := by
      classical exact of_decide_eq_true reached
    exact E.half_of_settles seeks delta_pos settles (fun held => sure (Or.inl held)) inside

end Model

/-! ## The solver -/

section Solver

variable {la : LinearAlgebra ℝ} {checked : Bool} {g : Vector ℝ n} {H : SquareMatrix ℝ n} {δ : ℝ}
  {iterations : Int} {proposal : Proposal ℝ}

/--
A solution that comes to rest and is not doubtful is half optimal. For the others a multiplier
decides: they are half optimal if and only if one bounds the model from below by twice their value.
-/
theorem halfOptimal_unless_doubtful (exact_la : la.Exact) (pos : 0 < n)
    (returned : proposeStep la checked (.ofVector g) (.ofSquare H) δ [n] 1e-10 iterations =
      .ok proposal)
    (reached : proposal.outcome.reached = true) :
    ∃ (M : Model ℝ n) (s : Vector ℝ n), Model.ofDerivatives la g H = .ok M ∧
      proposal.step = .ofVector s ∧
      (¬ M.Doubtful pos δ proposal.outcome.lam s → HalfOptimal g H δ proposal.outcome.m) ∧
      (HalfOptimal g H δ proposal.outcome.m ↔
        ∃ mu, M.DualFeasible mu ∧ 2 * proposal.outcome.m ≤ M.dual δ mu) := by
  obtain ⟨delta_pos, M, solution, modelled, E, gradient, hessian, route, rfl⟩ :=
    exists_route exact_la pos returned
  refine ⟨M, solution.step, modelled, rfl, ?_, ?_⟩
  · intro sure
    rw [Model.halfOptimal_iff gradient hessian]
    intro t inside
    exact route.half_le_value E delta_pos reached sure inside
  · rw [Model.halfOptimal_iff gradient hessian]
    exact E.lowerBound_iff pos delta_pos

/-- A step to the boundary from a concave model. -/
theorem halfOptimal_unless_doubtful_concave : ∃ proposal,
    proposeStep LinearAlgebra.exact false (.ofVector #v[1]) (.ofSquare #v[#v[-1]]) 1 [1] 1e-10
      5 = .ok proposal ∧ proposal.outcome.reached = true ∧ proposal.step = .ofVector #v[-1] ∧
      HalfOptimal #v[1] #v[#v[-1]] 1 proposal.outcome.m := by
  have concave : (-1 : ℝ) < 0 := by norm_num
  have noticed : tieThreshold < |(1 : ℝ)| := by norm_num [tieThreshold_eq]
  have strong : 2 * definiteThreshold * 1 ≤ |(1 : ℝ)| := by norm_num [definiteThreshold_eq]
  obtain ⟨proposal, returned, step, outcome⟩ := proposeStep_concave LinearAlgebra.exact_exact
    concave noticed one_pos strong (by norm_num : (0 : ℝ) < 1e-10)
    (by norm_num [definiteThreshold_eq]) (by norm_num : (2 : Int) ≤ 5)
  have reached : proposal.outcome.reached = true := by rw [outcome]
  obtain ⟨M, s, modelled, -, half, -⟩ :=
    halfOptimal_unless_doubtful LinearAlgebra.exact_exact Nat.one_pos returned reached
  obtain ⟨E, gradient, hessian⟩ :=
    Model.exact_of_ofDerivatives LinearAlgebra.exact_exact.exactSpectra modelled
  have L : M.Line 1 (-1) := ⟨E, gradient, hessian⟩
  refine ⟨proposal, returned, reached, ?_, half ?_⟩
  · rw [step]
    norm_num
  · intro doubtful
    cases doubtful with
    | inl held =>
      -- The multiplier is 2, and the bound hardly above 1.
      have low := held.low
      rw [outcome, L.bound one_ne_zero, definiteThreshold_eq] at low
      norm_num at low
    | inr barely =>
      obtain ⟨k, weak⟩ := barely
      exact (L.seeksRoot concave noticed).2.incomplete k weak.completes

/-- A step of a tenth of the radius where the boundary is fifty times as good. -/
theorem halfway_interior_proposal : ∃ proposal,
    proposeStep LinearAlgebra.exact false (.ofVector #v[1e-9]) (.ofSquare #v[#v[-1]]) 1 [1] 1e-10
      5 = .ok proposal ∧ proposal.outcome.reached = true ∧
      ¬ HalfOptimal #v[1e-9] #v[#v[-1]] 1 proposal.outcome.m := by
  have noticed : tieThreshold < |(1e-9 : ℝ)| := by
    norm_num [tieThreshold_eq]
  have weak : |(1e-9 : ℝ)| < 2 * definiteThreshold * 1 := by
    norm_num [definiteThreshold_eq]
  obtain ⟨proposal, returned, -, outcome⟩ := proposeStep_oneVariable LinearAlgebra.exact_exact
    (by norm_num : (-1 : ℝ) < 0) noticed one_pos weak (by norm_num : (0 : ℝ) < 1e-10)
    (by norm_num : (1 : Int) ≤ 5)
  refine ⟨proposal, returned, by rw [outcome], fun half => ?_⟩
  have inside : norm (#v[-1] : Vector ℝ 1) ≤ 1 := by
    rw [norm_le_iff _ zero_le_one, real_dot, Fin.sum_univ_one]
    show (-1 * -1 : ℝ) ≤ 1 ^ 2
    norm_num
  have better := half #v[-1] inside
  rw [outcome, real_dot, real_dot, Fin.sum_univ_one, Fin.sum_univ_one,
    SquareMatrix.get_mulVec, real_dot, Fin.sum_univ_one] at better
  change (1e-9 * -(10 ^ 8 * 1e-9) + -1 * (-(10 ^ 8 * 1e-9)) ^ 2 / 2 : ℝ) ≤
    0.5 * (1e-9 * -1 + 0.5 * (-1 * (-1 * -1))) at better
  norm_num at better

end Solver

end TrustRegion
