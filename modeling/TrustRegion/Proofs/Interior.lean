/-
  What the interior flag says of the length of a step.

  A step with the flag lies in the region. The completed step never has the flag, the empty step is
  shorter than any radius, and root finding compares the length of its step with the radius before
  it sets the flag (`Route.norm_lt`). The Newton step alone is not compared again: it has the flag
  wherever it fits, and it fits if its length is the radius. So there the flag is wrong, and nowhere
  else (`norm_interior_proposal_lt_iff`); `interior_on_boundary` is such a step.
-/
import TrustRegion.Proofs.Feasibility
import TrustRegion.Proofs.NewtonStep

namespace TrustRegion

open Matrix

variable {n : Nat}

namespace Model

variable {M : Model ℝ n} {δ tol : ℝ} {pos : 0 < n} {more : Nat} {solution : Solution ℝ n}

theorem Exact.convex_of_newtonFits (E : M.Exact) (fits : M.NewtonFits pos δ) : M.Convex :=
  fun j => fits.1.trans (E.least_le pos j)

theorem Exact.norm_newtonStep_eq (E : M.Exact) (convex : M.Convex) :
    norm M.newtonStep = norm (M.hessian.inverseMulVec M.gradient) := by
  rw [E.newtonStep_eq_neg convex]
  exact congrArg Real.sqrt (dot_neg_self _)

/-- Every step with the flag but the Newton step is shorter than the radius. -/
theorem Route.norm_lt (route : M.Route pos δ tol more solution) (E : M.Exact) (delta_pos : 0 < δ)
    (interior : solution.outcome.interior = true) (misfit : ¬ M.NewtonFits pos δ) :
    norm solution.step < δ := by
  classical
  cases route with
  | newton fits => exact absurd fits misfit
  | eigenvector => exact absurd interior Bool.false_ne_true
  | stationary =>
    rw [norm_stationaryStep]
    exact delta_pos
  | @boundary i =>
    have inside : M.EndsInside pos δ tol i := of_decide_eq_true interior
    show norm (M.stepAt (M.multiplier pos δ i)) < δ
    rw [E.norm_stepAt]
    refine lt_of_pow_lt_pow_left₀ 2 delta_pos.le ?_
    rw [stepLength_sq]
    exact inside.2.2

end Model

variable {la : LinearAlgebra ℝ} {checked : Bool} {g : Vector ℝ n} {H : SquareMatrix ℝ n} {δ tol : ℝ}
  {iterations : Int} {proposal : Proposal ℝ}

/--
An interior step is no longer than the radius. It is shorter, unless it is a Newton step whose length
is the radius: no eigenvalue of the symmetric part of the Hessian is below the threshold then.
-/
theorem norm_interior_proposal_lt_iff (exact_la : la.Exact) (pos : 0 < n)
    (returned : proposeStep la checked (.ofVector g) (.ofSquare H) δ [n] tol iterations =
      .ok proposal) (interior : proposal.outcome.interior = true) :
    ∃ s : Vector ℝ n, proposal.step = .ofVector s ∧ norm s ≤ δ ∧
      (norm s < δ ↔ ¬ ((∀ e ∈ spectrum ℝ H.symmetricPart.toMatrix, 1e-8 ≤ e) ∧
        norm (H.symmetricPart.inverseMulVec g) = δ)) := by
  obtain ⟨delta_pos, M, solution, modelled, E, gradient, hessian, route, rfl⟩ :=
    exists_route exact_la pos returned
  refine ⟨solution.step, rfl, ?_⟩
  rw [← gradient, ← hessian, ← convex_iff E]
  by_cases fits : M.NewtonFits pos δ
  · have convex := E.convex_of_newtonFits fits
    have short := E.norm_newtonStep delta_pos fits
    rw [route.eq_newton fits]
    refine ⟨short, ?_⟩
    rw [← E.norm_newtonStep_eq convex, and_iff_right convex]
    exact short.lt_iff_ne
  · have shorter := route.norm_lt E delta_pos interior fits
    exact ⟨shorter.le, iff_of_true shorter fun ⟨convex, length⟩ =>
      fits (E.newtonFits convex length.le)⟩

/-- Root finding ends inside of the region. -/
theorem norm_interior_proposal_lt_iff_weak : ∃ proposal,
    proposeStep LinearAlgebra.exact false (.ofVector #v[1e-9]) (.ofSquare #v[#v[-1]]) 1 [1] 1e-10
      5 = .ok proposal ∧ proposal.outcome.interior = true ∧
    ∃ s : Vector ℝ 1, proposal.step = .ofVector s ∧ norm s ≤ 1 ∧
      (norm s < 1 ↔ ¬ ((∀ e ∈ spectrum ℝ (SquareMatrix.symmetricPart #v[#v[(-1 : ℝ)]]).toMatrix,
        1e-8 ≤ e) ∧
        norm ((SquareMatrix.symmetricPart #v[#v[(-1 : ℝ)]]).inverseMulVec #v[1e-9]) = 1)) := by
  have noticed : tieThreshold < |(1e-9 : ℝ)| := by
    norm_num [tieThreshold_eq]
  have weak : |(1e-9 : ℝ)| < 2 * definiteThreshold * 1 := by
    norm_num [definiteThreshold_eq]
  obtain ⟨proposal, returned, step, outcome⟩ := proposeStep_oneVariable LinearAlgebra.exact_exact
    (by norm_num : (-1 : ℝ) < 0) noticed one_pos weak (by norm_num : (0 : ℝ) < 1e-10)
    (by norm_num : (1 : Int) ≤ 5)
  have interior : proposal.outcome.interior = true := by
    rw [outcome]
    exact decide_eq_true (by norm_num)
  exact ⟨proposal, returned, interior,
    norm_interior_proposal_lt_iff LinearAlgebra.exact_exact Nat.one_pos returned interior⟩

/-- A Newton step that ends on the boundary, and is called interior. -/
theorem interior_on_boundary : ∃ proposal,
    proposeStep LinearAlgebra.exact false (.ofVector #v[-1]) (.ofSquare #v[#v[1]]) 1 [1] 1e-9 50 =
      .ok proposal ∧ proposal.outcome.interior = true ∧
    ∃ s : Vector ℝ 1, proposal.step = .ofVector s ∧ ¬ norm s < 1 := by
  obtain ⟨proposal, returned, step, outcome⟩ := proposeStep_convex LinearAlgebra.exact_exact
    (by norm_num : (-1 : ℝ) ≠ 0)
    (by norm_num [definiteThreshold_eq] : definiteThreshold ≤ (1 : ℝ)) one_pos
    (by norm_num : |(-1 : ℝ)| ≤ 1 * 1) (by norm_num : (1 : Int) ≤ 50)
  refine ⟨proposal, returned, by rw [outcome], _, step, ?_⟩
  rw [norm_singleton]
  norm_num

end TrustRegion
