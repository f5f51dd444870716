/-
  Differences of quadratic functions.

  The errors of central differences start with the third derivatives. A quadratic function has none:
  first quotients of its values are its derivatives (`Quadratic.value_first`), second and mixed ones
  the entries of its Hessian (`Quadratic.value_second`, `Quadratic.value_mixed`), whatever the width
  of the differences. So the evaluator of a problem with a quadratic objective is exact, whichever
  derivatives its user has supplied (`Problem.Poses.evaluates`).
-/
import TrustRegion.Proofs.Answering
import TrustRegion.Proofs.Quadratic

namespace TrustRegion

open Matrix

variable {n : Nat}

/-! ## Quotients -/

namespace Quadratic

variable (Q : Quadratic n) (x d e : Vector ℝ n)

theorem value_first :
    Q.value (x + e) - Q.value (x - e) = 2 * ((Q.gradient x).get ⬝ᵥ e.get) := by
  have swapped := Q.form_comm x.get e.get
  have turned := dotProduct_comm (Q.curvature.toMatrix *ᵥ x.get) e.get
  simp only [value_eq, gradient_eq, get_add_eq, get_sub_eq, mulVec_add, mulVec_sub, dotProduct_add,
    dotProduct_sub, add_dotProduct, sub_dotProduct, swapped, turned]
  ring

theorem value_second : Q.value (x + e) - 2 * Q.value x + Q.value (x - e) =
    e.get ⬝ᵥ Q.curvature.toMatrix *ᵥ e.get := by
  simp only [value_eq, get_add_eq, get_sub_eq, mulVec_add, mulVec_sub, dotProduct_add,
    dotProduct_sub, add_dotProduct, sub_dotProduct]
  ring

theorem value_mixed : Q.value (x + d + e) - Q.value (x + d - e) - Q.value (x - d + e) +
    Q.value (x - d - e) = 4 * (d.get ⬝ᵥ Q.curvature.toMatrix *ᵥ e.get) := by
  have ahead := Q.value_first (x + d) e
  have behind := Q.value_first (x - d) e
  have swapped := Q.form_comm d.get e.get
  have turned := dotProduct_comm (Q.curvature.toMatrix *ᵥ d.get) e.get
  simp only [gradient_eq, get_add_eq, get_sub_eq, mulVec_add, mulVec_sub, add_dotProduct,
    sub_dotProduct, turned] at ahead behind
  rw [swapped]
  linarith

end Quadratic

namespace Difference

variable {Q : Quadratic n} {x : Vector ℝ n} {eps q : ℝ} {i j : Fin n}

theorem get_displacement (eps : ℝ) (i : Fin n) :
    (displacement eps i).get = Pi.single i eps := by
  funext j
  rw [displacement, get_vectorOfFn, Pi.single_apply]
  by_cases same : i = j
  · rw [if_pos same, if_pos same.symm, one_mul]
  · rw [if_neg same, if_neg (Ne.symm same), zero_mul]

/-- The values of a quadratic function. -/
def valuesOf (Q : Quadratic n) (x : Vector ℝ n) (a : ℝ) : Prop := a = Q.value x

/-- A first quotient is the derivative. -/
theorem IsFirst.eq_gradient (positive : 0 < eps)
    (quotient : IsFirst (valuesOf Q) x (displacement eps i) eps q) : q = Q.gradient x i := by
  obtain ⟨a, b, rfl, rfl, rfl⟩ := quotient
  have two : (2.0 : ℝ) = 2 := by norm_num
  rw [Q.value_first, get_displacement, dotProduct_single, two]
  field_simp

/-- An entry of the Hessian by differences is that of the Hessian. -/
theorem IsEntry.eq_hessian (positive : 0 < eps)
    (entry : IsEntry (valuesOf Q) x eps i j q) : q = Q.curvature i j := by
  have form (i j : Fin n) : Pi.single i eps ⬝ᵥ Q.curvature.toMatrix *ᵥ Pi.single j eps =
      eps ^ 2 * Q.curvature i j := by
    rw [mulVec_single, single_dotProduct, Pi.smul_apply, col_apply]
    show eps * (Q.curvature i j * eps) = eps ^ 2 * Q.curvature i j
    ring
  unfold IsEntry at entry
  split at entry
  · next same =>
    obtain ⟨a, b, c, rfl, rfl, rfl, rfl⟩ := entry
    have two : (2.0 : ℝ) = 2 := by norm_num
    have change : Q.value (x + displacement eps i) - 2 * Q.value x +
        Q.value (x - displacement eps i) = eps ^ 2 * Q.curvature i i := by
      rw [Q.value_second, get_displacement, form]
    rw [two, change, ← same, mul_div_cancel_left₀ _ (by positivity)]
  · obtain ⟨a, b, c, a', rfl, rfl, rfl, rfl, rfl⟩ := entry
    have four : (4.0 : ℝ) = 4 := by norm_num
    have ordered : Q.curvature (min i j) (max i j) = Q.curvature i j := by
      rcases le_total i j with le | le
      · rw [min_eq_left le, max_eq_right le]
      · rw [min_eq_right le, max_eq_left le]
        exact SquareMatrix.get_comm Q.symmetric j i
    rw [Q.value_mixed, get_displacement, get_displacement, form, four, ordered]
    field_simp

end Difference

/-! ## Problems -/

namespace Problem

variable {τ : Type} {p : Problem ℝ τ} {Q : Quadratic n}

/-- The functions of a problem are a quadratic function and, where supplied, its derivatives. -/
structure Poses (p : Problem ℝ τ) (Q : Quadratic n) : Prop where
  /-- The objective. -/
  objective : ∀ x, Returns (p.objective (.ofVector x)) (· = .scalar (Q.value x))
  /-- The gradient, if there is one. -/
  gradient : ∀ gradient, p.gradient = some gradient →
    ∀ x, Returns (gradient (.ofVector x)) (· = .ofVector (Q.gradient x))
  /-- The Hessian, if there is one. -/
  hessian : ∀ hessian, p.hessian = some hessian →
    ∀ x : Vector ℝ n, Returns (hessian (.ofVector x)) (· = .ofSquare Q.curvature)

namespace Poses

theorem values (poses : p.Poses Q) (x : Vector ℝ n) :
    Returns (p.objective (.ofVector x)) fun t => ∃ a, Difference.valuesOf Q x a ∧ t = .scalar a :=
  (poses.objective x).weaken fun _ value => ⟨_, rfl, value⟩

theorem gradient_returns (poses : p.Poses Q) (x : Vector ℝ n) :
    Returns (Difference.gradient p.objective (.ofVector x) gradientStep)
      fun d => d.derivative = .ofVector (Q.gradient x) := by
  refine (Difference.gradient_returns poses.values x gradientStep_pos).weaken ?_
  rintro d ⟨g, derivative, quotients⟩
  have exact_g : g = Q.gradient x :=
    vector_ext fun i => (quotients i).eq_gradient gradientStep_pos
  rw [derivative, exact_g]

theorem hessian_returns (poses : p.Poses Q) (x : Vector ℝ n) :
    Returns (Difference.hessian p.objective (.ofVector x) hessianStep)
      fun d => d.derivative = .ofSquare Q.curvature := by
  refine (Difference.hessian_returns poses.values x hessianStep_pos).weaken ?_
  rintro d ⟨H, derivative, entries⟩
  have exact_H : H = Q.curvature :=
    matrix_ext fun i j => (entries i j).eq_hessian hessianStep_pos
  rw [derivative, exact_H]

/-- The evaluator of the problem is exact, whichever derivatives are missing. -/
theorem evaluates (poses : p.Poses Q) : p.evaluator.Evaluates Q.answers where
  valueAndGradient := fun x ledger => by
    have returns := valueAndGradient_returns (poses.values x)
      (fun gradient supplied => poses.gradient gradient supplied x)
      (fun _ => poses.gradient_returns x)
    obtain ⟨_, ledger', returned, _, _, rfl, rfl, rfl⟩ := returns ledger
    exact ⟨ledger', returned⟩
  hessian := fun x ledger => by
    have returns := hessianAt_returns (fun hessian supplied => poses.hessian hessian supplied x)
      (fun _ => poses.hessian_returns x)
    obtain ⟨_, ledger', returned, rfl⟩ := returns ledger
    exact ⟨ledger', returned⟩

end Poses

end Problem

end TrustRegion
