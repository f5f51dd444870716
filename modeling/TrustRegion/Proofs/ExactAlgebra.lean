/-
  Factorizations without error.

  `LinearAlgebra.Exact` is what the solver relies on: an eigendecomposition of every symmetric
  matrix, a factor `L` with `L Lᵀ = A` of every positive definite one, and the solution of every
  system with an invertible matrix. With it, the step that belongs to a multiplier exists and is
  `-(H + λ I)⁻¹ g` (`regularizedStep_eq`). `LinearAlgebra.ExactSpectra` asks for the
  eigendecomposition alone.
-/
import TrustRegion.Proofs.Secular

namespace TrustRegion

open Matrix

variable {n : Nat}

/-- Factorizations that succeed wherever they can, and without error. -/
structure LinearAlgebra.Exact (la : LinearAlgebra ℝ) : Prop where
  /-- A symmetric matrix gets its ascending eigenvalues and orthonormal eigenvectors. -/
  eigh : ∀ {n : Nat} (A : SquareMatrix ℝ n), A.toMatrix.IsSymm →
    ∃ S, la.eigh A = .ok S ∧ S.Diagonalizes A
  /-- A positive definite matrix gets its factor. -/
  cholesky : ∀ {n : Nat} (A : SquareMatrix ℝ n), A.toMatrix.PosDef →
    ∃ L, la.cholesky A = .ok L ∧ L.toMatrix * L.toMatrixᵀ = A.toMatrix
  /-- A system with an invertible matrix gets its solution. -/
  solve : ∀ {n : Nat} (A : SquareMatrix ℝ n) (b : Vector ℝ n), IsUnit A.toMatrix →
    ∃ x, la.solve A b = .ok x ∧ A.mulVec x = b

/-- Eigendecompositions without error; the other operations may give anything. -/
def LinearAlgebra.ExactSpectra (la : LinearAlgebra ℝ) : Prop :=
  ∀ {n : Nat} (A : SquareMatrix ℝ n) (S : Spectrum ℝ n), A.toMatrix.IsSymm →
    la.eigh A = .ok S → S.Diagonalizes A

theorem LinearAlgebra.Exact.exactSpectra {la : LinearAlgebra ℝ} (exact_la : la.Exact) :
    la.ExactSpectra := by
  intro n A S symm found
  obtain ⟨S', found', D⟩ := exact_la.eigh A symm
  obtain rfl := Except.ok.inj (found'.symm.trans found)
  exact D

namespace Model

variable {M : Model ℝ n} {lam : ℝ}

/-- The step `-(H + λ I)⁻¹ g`, by its coordinates. -/
noncomputable def stepAt (M : Model ℝ n) (lam : ℝ) : Vector ℝ n :=
  M.spectrum.ofCoordinates fun j => -(M.projections j / M.lifted lam j)

theorem Exact.coordinates_stepAt (E : M.Exact) (lam : ℝ) (j : Fin n) :
    M.spectrum.coordinates (M.stepAt lam) j = -(M.projections j / M.lifted lam j) := by
  rw [stepAt, E.diagonalizes.coordinates_ofCoordinates]

theorem Exact.dot_stepAt (E : M.Exact) (lam : ℝ) :
    dot (M.stepAt lam) (M.stepAt lam) = M.squaredLength lam 0 := by
  rw [E.diagonalizes.dot_self_eq, squaredLength_zero]
  refine Finset.sum_congr rfl fun j _ => ?_
  rw [E.coordinates_stepAt, neg_sq, div_pow]

theorem Exact.norm_stepAt (E : M.Exact) (lam : ℝ) : norm (M.stepAt lam) = M.stepLength lam := by
  show √(dot (M.stepAt lam) (M.stepAt lam)) = √(M.squaredLength lam 0)
  rw [E.dot_stepAt]

/-- The shifted Hessian stretches every coordinate by its lifted eigenvalue. -/
theorem Exact.coordinates_shift (E : M.Exact) (lam : ℝ) (v : Vector ℝ n) (j : Fin n) :
    M.spectrum.coordinates ((M.hessian.shift lam).mulVec v) j =
      M.lifted lam j * M.spectrum.coordinates v j := by
  have stretched := (E.diagonalizes.shift lam).coordinates_mulVec v j
  rwa [Spectrum.get_shift_eigenvalues] at stretched

theorem Exact.posDef_shift (E : M.Exact) (definite : M.Definite lam) :
    (M.hessian.shift lam).toMatrix.PosDef := by
  refine (E.diagonalizes.shift lam).posDef fun j => ?_
  rw [Spectrum.get_shift_eigenvalues]
  exact definite j

theorem Exact.posSemidef_shift (E : M.Exact) (nonneg : ∀ j, 0 ≤ M.lifted lam j) :
    (M.hessian.shift lam).toMatrix.PosSemidef := by
  refine (E.diagonalizes.shift lam).posSemidef fun j => ?_
  rw [Spectrum.get_shift_eigenvalues]
  exact nonneg j

/-- The solution of a system with `H + λ I`, by its coordinates. -/
theorem Exact.coordinates_of_shift (E : M.Exact) (definite : M.Definite lam) {v b : Vector ℝ n}
    (solves : (M.hessian.shift lam).mulVec v = b) (j : Fin n) :
    M.spectrum.coordinates v j = M.spectrum.coordinates b j / M.lifted lam j := by
  have lifted_ne : M.lifted lam j ≠ 0 := (definite j).ne'
  rw [← solves, E.coordinates_shift]
  field_simp

/-- The step is minus the solution for the gradient. -/
theorem Exact.neg_eq_stepAt (E : M.Exact) (definite : M.Definite lam) {z : Vector ℝ n}
    (solves : (M.hessian.shift lam).mulVec z = M.gradient) : -z = M.stepAt lam := by
  refine E.diagonalizes.ext (funext fun j => ?_)
  rw [Spectrum.coordinates_neg, Pi.neg_apply, E.coordinates_of_shift definite solves,
    E.projections, E.coordinates_stepAt]

/-- The squared length of `L⁻¹ s`, for any factor `L` of `H + λ I`. -/
theorem Exact.dot_eq_steepness (E : M.Exact) (definite : M.Definite lam) {L : SquareMatrix ℝ n}
    (unit : IsUnit L.toMatrix)
    (product : L.toMatrix * L.toMatrixᵀ = (M.hessian.shift lam).toMatrix) {q : Vector ℝ n}
    (solves : L.mulVec q = M.stepAt lam) : dot q q = M.steepness lam := by
  -- `q` is `Lᵀ w` for the solution `w` of `(H + λ I) w = s`, so its square is `w · s`.
  set w := M.spectrum.ofCoordinates fun j =>
    M.spectrum.coordinates (M.stepAt lam) j / M.lifted lam j
  have solves_w : (M.hessian.shift lam).mulVec w = M.stepAt lam := by
    refine E.diagonalizes.ext (funext fun j => ?_)
    have lifted_ne : M.lifted lam j ≠ 0 := (definite j).ne'
    rw [E.coordinates_shift, E.diagonalizes.coordinates_ofCoordinates]
    field_simp
  have q_get : q.get = L.toMatrixᵀ *ᵥ w.get := by
    have same : L.toMatrix *ᵥ q.get = L.toMatrix *ᵥ (L.toMatrixᵀ *ᵥ w.get) := by
      rw [← SquareMatrix.get_mulVec_eq, solves, ← solves_w, SquareMatrix.get_mulVec_eq,
        mulVec_mulVec, product]
    exact mulVec_injective_of_isUnit unit same
  calc dot q q = q.get ⬝ᵥ q.get := real_dot q q
    _ = w.get ⬝ᵥ L.toMatrix *ᵥ q.get := by
        rw [dotProduct_mulVec, ← mulVec_transpose, ← q_get]
    _ = dot w (M.stepAt lam) := by
        rw [← SquareMatrix.get_mulVec_eq, solves]
        exact (real_dot w _).symm
    _ = M.steepness lam := by
        rw [E.diagonalizes.dot_eq]
        refine Finset.sum_congr rfl fun j _ => ?_
        have lifted_ne : M.lifted lam j ≠ 0 := (definite j).ne'
        rw [E.diagonalizes.coordinates_ofCoordinates, E.coordinates_stepAt]
        field_simp

/-- The factorization and the three solutions of a step succeed, and give `-(H + λ I)⁻¹ g`. -/
theorem regularizedStep_eq {la : LinearAlgebra ℝ} (exact_la : la.Exact) (E : M.Exact)
    (definite : M.Definite lam) :
    ∃ q, M.regularizedStep la lam = .ok (M.stepAt lam, q) ∧ dot q q = M.steepness lam := by
  set A := M.hessian.shift lam
  obtain ⟨L, factored, product⟩ := exact_la.cholesky A (E.posDef_shift definite)
  have unit : IsUnit L.toMatrix := by
    have := (E.posDef_shift definite).isUnit
    rw [← product] at this
    exact isUnit_of_mul_isUnit_left this
  have unit' : IsUnit L.transpose.toMatrix := by
    rw [SquareMatrix.toMatrix_transpose]
    exact (isUnit_transpose L.toMatrix).2 unit
  obtain ⟨y, solved_y, y_eq⟩ := exact_la.solve L M.gradient unit
  obtain ⟨z, solved_z, z_eq⟩ := exact_la.solve L.transpose y unit'
  obtain ⟨q, solved_q, q_eq⟩ := exact_la.solve L (-z) unit
  have step : -z = M.stepAt lam := by
    refine E.neg_eq_stepAt definite (vector_ext fun i => ?_)
    rw [← y_eq, ← z_eq, SquareMatrix.get_mulVec_eq, SquareMatrix.get_mulVec_eq,
      SquareMatrix.get_mulVec_eq, SquareMatrix.toMatrix_transpose, mulVec_mulVec, product]
  rw [step] at q_eq
  refine ⟨q, ?_, E.dot_eq_steepness definite unit product q_eq⟩
  show (la.cholesky A >>= fun L => la.solve L M.gradient >>= fun y =>
    la.solve L.transpose y >>= fun z => la.solve L (-z) >>= fun q => pure (-z, q)) = _
  rw [factored]
  show (la.solve L M.gradient >>= fun y =>
    la.solve L.transpose y >>= fun z => la.solve L (-z) >>= fun q => pure (-z, q)) = _
  rw [solved_y]
  show (la.solve L.transpose y >>= fun z => la.solve L (-z) >>= fun q => pure (-z, q)) = _
  rw [solved_z]
  show (la.solve L (-z) >>= fun q => pure (-z, q)) = _
  rw [solved_q, ← step]
  rfl

end Model

end TrustRegion
