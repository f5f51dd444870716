/-
  Subproblems that the radius does not constrain.

  Where every eigenvalue of the Hessian counts as positive and the Newton step is no longer than the
  radius, that step is the answer, and it is the unconstrained minimizer: every other step, inside of
  the region or not, has a greater value of the model (`proposeStep_unconstrained`). The step and its
  length are computed from eigenvalues and projections, but no more is asked of the eigenvectors than
  that they are some orthonormal ones; the other factorizations are not asked for at all. A gradient
  of zero has a Newton step of length zero, which is not longer than a radius of zero, and yet has no
  answer there: the radius has to be positive (`zero_radius_refused`).
-/
import TrustRegion.Proofs.NewtonStep
import TrustRegion.Proofs.Factorizations

namespace TrustRegion

open Matrix

variable {n : Nat}

namespace Model

variable {M : Model ℝ n} {δ : ℝ} {pos : 0 < n}

/-- A Newton step that fits is the solution, and nothing else is computed. -/
theorem solve_of_newtonFits (fits : M.NewtonFits pos δ) (la : LinearAlgebra ℝ) (tol : ℝ)
    (iterations : Nat) : M.solve pos la δ (δ ^ 2) tol iterations =
      .ok (M.solution M.newtonStep true 0 false true none) :=
  if_pos (newtonFits_iff.2 fits)

/-- The Newton step gains half of what its slope promises. -/
theorem Exact.value_newtonStep (E : M.Exact) (convex : M.Convex) :
    M.value M.newtonStep = -0.5 * dot M.gradient (M.hessian.inverseMulVec M.gradient) := by
  set x := M.hessian.inverseMulVec M.gradient with x_def
  have solves : M.hessian.toMatrix *ᵥ x.get = M.gradient.get := by
    rw [← SquareMatrix.get_mulVec_eq, x_def,
      SquareMatrix.mulVec_inverseMulVec (E.posDef convex).isUnit]
  rw [E.newtonStep_eq_neg convex, ← x_def, value, dot_mul_left]
  simp only [dot_eq_dotProduct, SquareMatrix.get_mulVec_eq, get_neg_eq, mulVec_neg, solves,
    dotProduct_neg, neg_dotProduct, neg_neg, dotProduct_comm x.get]
  ring

end Model

/-! ## The solver -/

section Solver

variable {la : LinearAlgebra ℝ} {checked : Bool} {g : Vector ℝ n} {H : SquareMatrix ℝ n} {δ tol : ℝ}
  {iterations : Int}

/--
If no eigenvalue of the symmetric part of the Hessian is below the threshold and the Newton step is
no longer than the radius, then the Newton step is proposed, as an interior one without a multiplier,
once the entries have passed the checks, if there are any; no other step has as small a value of the
model.
-/
theorem proposeStep_unconstrained (checked : Bool) (pos : 0 < n) {S : Spectrum ℝ n}
    (found : la.eigh H.symmetricPart = .ok S) (diagonalizes : S.Diagonalizes H.symmetricPart)
    (convex : ∀ e ∈ spectrum ℝ H.symmetricPart.toMatrix, 1e-8 ≤ e) (delta_pos : 0 < δ)
    (short : norm (H.symmetricPart.inverseMulVec g) ≤ δ) (tol : ℝ)
    (some_iteration : 1 ≤ iterations) :
    proposeStep la checked (.ofVector g) (.ofSquare H) δ [n] tol iterations =
      (checkModel checked (.ofVector g) (.ofSquare H)).map (fun _ =>
        { step := .ofVector (-H.symmetricPart.inverseMulVec g)
          outcome :=
            { m := -0.5 * dot g (H.symmetricPart.inverseMulVec g)
              interior := true
              lam := 0
              hardCase := false
              reached := true }
          remark := none }) ∧
    ∀ t, t ≠ -H.symmetricPart.inverseMulVec g →
      -0.5 * dot g (H.symmetricPart.inverseMulVec g) < quadraticModel g H t := by
  set M := Model.ofSpectrum g H.symmetricPart S
  have E : M.Exact := Model.exact_ofSpectrum diagonalizes
  have modelled : Model.ofDerivatives la g H = .ok M := by
    rw [Model.ofDerivatives, found]
    rfl
  have positive : M.Convex := (convex_iff E).2 convex
  have step : M.newtonStep = -H.symmetricPart.inverseMulVec g := E.newtonStep_eq_neg positive
  have value : M.value M.newtonStep = -0.5 * dot g (H.symmetricPart.inverseMulVec g) :=
    E.value_newtonStep positive
  have solved : solveSubproblem pos la g H δ tol iterations.toNat =
      .ok (M.solution M.newtonStep true 0 false true none) :=
    solveSubproblem_eq_ok.2 ⟨_, M, checkedSquare_real δ, modelled,
      M.solve_of_newtonFits (E.newtonFits positive short) la tol _⟩
  constructor
  · rw [proposeStep_ofVector la checked pos, if_neg (not_lt.2 some_iteration),
      if_neg (not_not.2 delta_pos), solved, ← step, ← value]
    rfl
  · intro t other
    rw [← step] at other
    have gradient : M.gradient = g := rfl
    have hessian : M.hessian = H.symmetricPart := rfl
    rw [← value, ← M.value_eq_quadraticModel gradient hessian]
    exact E.value_newtonStep_lt positive other

end Solver

/-- The Hessian of a round bowl with a twist, which the model does not see. -/
noncomputable def twistedBowl : SquareMatrix ℝ 2 := #v[#v[1, 1], #v[-1, 1]]

theorem toMatrix_symmetricPart_twistedBowl : twistedBowl.symmetricPart.toMatrix = 1 := by
  ext i j
  show twistedBowl.symmetricPart i j = _
  rw [SquareMatrix.get_symmetricPart]
  fin_cases i <;> fin_cases j
  · show (0.5 : ℝ) * (1 + 1) = 1
    norm_num
  · show (0.5 : ℝ) * (1 + -1) = 0
    norm_num
  · show (0.5 : ℝ) * (-1 + 1) = 0
    norm_num
  · show (0.5 : ℝ) * (1 + 1) = 1
    norm_num

/-- A Newton step that ends on the boundary, for a Hessian that is not symmetric. -/
theorem proposeStep_unconstrained_twisted : ∃ S : Spectrum ℝ 2,
    LinearAlgebra.exact.eigh twistedBowl.symmetricPart = .ok S ∧
    S.Diagonalizes twistedBowl.symmetricPart ∧
    (∀ e ∈ spectrum ℝ twistedBowl.symmetricPart.toMatrix, 1e-8 ≤ e) ∧
    norm (twistedBowl.symmetricPart.inverseMulVec #v[3, 4]) ≤ 5 ∧
    proposeStep LinearAlgebra.exact false (.ofVector #v[3, 4]) (.ofSquare twistedBowl) 5 [2] 1e-9 1 =
      .ok { step := .ofVector (-#v[3, 4])
            outcome := { m := -0.5 * dot #v[3, 4] #v[3, 4], interior := true, lam := 0
                         hardCase := false, reached := true }
            remark := none } ∧
    ∀ t, t ≠ -#v[3, 4] → -0.5 * dot #v[3, 4] #v[3, 4] < quadraticModel #v[3, 4] twistedBowl t := by
  have newton : twistedBowl.symmetricPart.inverseMulVec #v[3, 4] = #v[3, 4] :=
    SquareMatrix.inverseMulVec_of_toMatrix_eq_one toMatrix_symmetricPart_twistedBowl _
  have convex : ∀ e ∈ spectrum ℝ twistedBowl.symmetricPart.toMatrix, 1e-8 ≤ e := by
    intro e mem
    rw [toMatrix_symmetricPart_twistedBowl, spectrum.one_eq, Set.mem_singleton_iff] at mem
    rw [mem]
    norm_num
  have short : norm (twistedBowl.symmetricPart.inverseMulVec #v[3, 4]) ≤ 5 := by
    rw [newton]
    refine (norm_le_iff _ (by norm_num)).2 ?_
    rw [real_dot, Fin.sum_univ_two]
    show (3 : ℝ) * 3 + 4 * 4 ≤ 5 ^ 2
    norm_num
  obtain ⟨S, found, diagonalizes⟩ := LinearAlgebra.exact_exact.eigh twistedBowl.symmetricPart
    twistedBowl.isSymm_symmetricPart
  have solved := proposeStep_unconstrained false two_pos found diagonalizes convex
    (by norm_num : (0 : ℝ) < 5) short 1e-9 (le_refl 1)
  rw [newton] at solved
  exact ⟨S, found, diagonalizes, convex, short, solved⟩

/-- A Newton step of length zero is no longer than a radius of zero, which is not a radius. -/
theorem zero_radius_refused :
    LinearAlgebra.exact.Exact ∧
    (∀ e ∈ spectrum ℝ (SquareMatrix.symmetricPart #v[#v[(1 : ℝ)]]).toMatrix, 1e-8 ≤ e) ∧
    norm ((SquareMatrix.symmetricPart #v[#v[(1 : ℝ)]]).inverseMulVec #v[0]) ≤ 0 ∧
    proposeStep LinearAlgebra.exact false (.ofVector #v[(0 : ℝ)]) (.ofSquare #v[#v[1]]) 0 [1] 1e-9
      50 = .error .radius := by
  have one : (SquareMatrix.symmetricPart #v[#v[(1 : ℝ)]]).toMatrix = 1 := by
    ext i j
    show (SquareMatrix.symmetricPart #v[#v[(1 : ℝ)]]) i j = _
    rw [SquareMatrix.get_symmetricPart, Fin.fin_one_eq_zero i, Fin.fin_one_eq_zero j, one_apply_eq]
    show (0.5 : ℝ) * (1 + 1) = 1
    norm_num
  refine ⟨LinearAlgebra.exact_exact, fun e mem => ?_, ?_, ?_⟩
  · rw [one, spectrum.one_eq, Set.mem_singleton_iff] at mem
    rw [mem]
    norm_num
  · rw [SquareMatrix.inverseMulVec_of_toMatrix_eq_one one, norm_singleton, abs_zero]
  · rw [proposeStep_ofVector _ _ one_pos, if_neg (by norm_num), if_pos (lt_irrefl 0)]

end TrustRegion
