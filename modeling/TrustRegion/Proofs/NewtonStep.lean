/-
  The Newton step.

  The step of a multiplier is `-(H + λ I)⁻¹ g` wherever that matrix is positive definite. If all
  eigenvalues of the Hessian count as positive, the Newton step is `-H⁻¹ g` (`newtonStep_eq_neg`),
  and every other step has a greater value of the model (`value_newtonStep_lt`). If it is not longer
  than the radius, a subproblem has no other solution (`Route.eq_newton`): each of the other routes
  starts with a test that the Newton step does not fit.
-/
import TrustRegion.Proofs.Duality
import TrustRegion.Proofs.Routes

namespace TrustRegion

open Matrix

variable {n : Nat}

namespace SquareMatrix

/-- The product of the inverse of a matrix and a vector. -/
noncomputable def inverseMulVec (A : SquareMatrix ℝ n) (v : Vector ℝ n) : Vector ℝ n :=
  Vector.ofFn (A.toMatrix⁻¹ *ᵥ v.get)

theorem get_inverseMulVec (A : SquareMatrix ℝ n) (v : Vector ℝ n) :
    (A.inverseMulVec v).get = A.toMatrix⁻¹ *ᵥ v.get :=
  funext (get_vectorOfFn _)

theorem inverseMulVec_add (A : SquareMatrix ℝ n) (u v : Vector ℝ n) :
    A.inverseMulVec (u + v) = A.inverseMulVec u + A.inverseMulVec v := by
  refine vector_ext fun i => ?_
  rw [get_inverseMulVec, get_add_eq, get_add_eq, mulVec_add, get_inverseMulVec, get_inverseMulVec]

theorem mulVec_inverseMulVec {A : SquareMatrix ℝ n} (unit : IsUnit A.toMatrix) (v : Vector ℝ n) :
    A.mulVec (A.inverseMulVec v) = v := by
  have cancel : A.toMatrix * A.toMatrix⁻¹ = 1 :=
    mul_nonsing_inv _ ((isUnit_iff_isUnit_det _).1 unit)
  refine vector_ext fun i => ?_
  rw [get_mulVec_eq, get_inverseMulVec, mulVec_mulVec, cancel, one_mulVec]

theorem inverseMulVec_mulVec {A : SquareMatrix ℝ n} (unit : IsUnit A.toMatrix) (v : Vector ℝ n) :
    A.inverseMulVec (A.mulVec v) = v := by
  have cancel : A.toMatrix⁻¹ * A.toMatrix = 1 :=
    nonsing_inv_mul _ ((isUnit_iff_isUnit_det _).1 unit)
  refine vector_ext fun i => ?_
  rw [get_inverseMulVec, get_mulVec_eq, mulVec_mulVec, cancel, one_mulVec]

theorem inverseMulVec_of_toMatrix_eq_one {A : SquareMatrix ℝ n} (one : A.toMatrix = 1)
    (v : Vector ℝ n) : A.inverseMulVec v = v := by
  refine vector_ext fun i => ?_
  rw [get_inverseMulVec, one, inv_one, one_mulVec]

end SquareMatrix

theorem dot_neg_self (v : Vector ℝ n) : dot (-v) (-v) = dot v v := by
  rw [real_dot, real_dot]
  refine Finset.sum_congr rfl fun i _ => ?_
  rw [get_neg, neg_mul_neg]

namespace Model

variable {M : Model ℝ n} {lam δ tol : ℝ} {pos : 0 < n} {more : Nat} {solution : Solution ℝ n}

/-- All eigenvalues of the Hessian count as positive. -/
def Convex (M : Model ℝ n) : Prop := ∀ j, definiteThreshold ≤ M.spectrum.eigenvalues j

theorem Convex.definite (convex : M.Convex) : M.Definite 0 := by
  intro j
  rw [lifted_zero]
  exact definiteThreshold_pos.trans_le (convex j)

theorem shift_zero (A : SquareMatrix ℝ n) : (A.shift 0).toMatrix = A.toMatrix := by
  rw [SquareMatrix.toMatrix_shift, zero_smul, add_zero]

namespace Exact

theorem posDef (E : M.Exact) (convex : M.Convex) : M.hessian.toMatrix.PosDef := by
  rw [← shift_zero]
  exact E.posDef_shift convex.definite

/-- The step of a multiplier is `-(H + λ I)⁻¹ g`. -/
theorem stepAt_eq_neg (E : M.Exact) (definite : M.Definite lam) :
    M.stepAt lam = -(M.hessian.shift lam).inverseMulVec M.gradient :=
  (E.neg_eq_stepAt definite
    (SquareMatrix.mulVec_inverseMulVec (E.posDef_shift definite).isUnit _)).symm

theorem norm_inverseMulVec_shift (E : M.Exact) (definite : M.Definite lam) :
    norm ((M.hessian.shift lam).inverseMulVec M.gradient) = M.stepLength lam := by
  rw [← E.norm_stepAt, E.stepAt_eq_neg definite]
  show √(dot _ _) = √(dot _ _)
  rw [dot_neg_self]

theorem newtonStep_eq_neg (E : M.Exact) (convex : M.Convex) :
    M.newtonStep = -M.hessian.inverseMulVec M.gradient := by
  rw [newtonStep_eq, E.stepAt_eq_neg convex.definite, SquareMatrix.inverseMulVec, shift_zero]
  rfl

theorem newtonFits (E : M.Exact) (convex : M.Convex)
    (short : norm (M.hessian.inverseMulVec M.gradient) ≤ δ) : M.NewtonFits pos δ := by
  have nonneg : 0 ≤ δ := (norm_nonneg _).trans short
  refine ⟨convex _, ?_⟩
  rwa [← E.dot_stepAt, ← newtonStep_eq, E.newtonStep_eq_neg convex, dot_neg_self,
    ← norm_le_iff _ nonneg]

/-- Every other step has a greater value than the Newton step. -/
theorem value_newtonStep_lt (E : M.Exact) (convex : M.Convex) {t : Vector ℝ n}
    (other : t ≠ M.newtonStep) : M.value M.newtonStep < M.value t := by
  rw [newtonStep_eq] at other ⊢
  exact E.value_stepAt_lt convex.definite (by rw [zero_mul]) other

theorem value_newtonStep_le (E : M.Exact) (convex : M.Convex) (t : Vector ℝ n) :
    M.value M.newtonStep ≤ M.value t := by
  rcases eq_or_ne t M.newtonStep with rfl | other
  · exact le_refl _
  · exact (E.value_newtonStep_lt convex other).le

end Exact

end Model

theorem convex_iff {M : Model ℝ n} (E : M.Exact) :
    M.Convex ↔ ∀ e ∈ spectrum ℝ M.hessian.toMatrix, 1e-8 ≤ e := by
  rw [E.diagonalizes.spectrum_eq, Set.forall_mem_range]
  rfl

end TrustRegion
