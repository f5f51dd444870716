/-
  Exact factorizations exist.

  `LinearAlgebra.exact` takes its three operations from the spectral theorem, the LDLᵀ
  decomposition and the inverse matrix. So what is proved of the solver from `LinearAlgebra.Exact`
  is proved of something. Nothing is known of the signs of its eigenvectors, or which ones it takes
  for a repeated eigenvalue; `LinearAlgebra.axisAligned` takes the axes where they can be taken, so
  that a diagonal Hessian has a model one can read off (`Model.ofDerivatives_axisAligned`).
-/
import TrustRegion.Proofs.ExactAlgebra

namespace TrustRegion

open Matrix

variable {n : Nat}

namespace SquareMatrix

theorem toMatrix_ofFn (f : Fin n → Fin n → ℝ) : (ofFn f).toMatrix = Matrix.of f := by
  ext i j
  exact get_ofFn f i j

/-- The spectrum of a symmetric matrix, sorted by its eigenvalues. -/
noncomputable def sortedSpectrum (A : SquareMatrix ℝ n) (symm : A.toMatrix.IsHermitian) :
    Spectrum ℝ n :=
  { eigenvalues := Vector.ofFn (symm.eigenvalues ∘ Tuple.sort symm.eigenvalues)
    eigenvectors := ofFn fun i j =>
      symm.eigenvectorUnitary.val i (Tuple.sort symm.eigenvalues j) }

theorem sortedSpectrum_diagonalizes (A : SquareMatrix ℝ n) (symm : A.toMatrix.IsHermitian) :
    (A.sortedSpectrum symm).Diagonalizes A := by
  set U : Matrix (Fin n) (Fin n) ℝ := symm.eigenvectorUnitary.val
  set order := Tuple.sort symm.eigenvalues
  have values : (A.sortedSpectrum symm).eigenvalues.get = symm.eigenvalues ∘ order :=
    funext fun i => get_vectorOfFn _ i
  have vectors : (A.sortedSpectrum symm).eigenvectors.toMatrix = U.submatrix id order :=
    toMatrix_ofFn _
  have unitary : Uᵀ * U = 1 := Unitary.coe_star_mul_self symm.eigenvectorUnitary
  refine ⟨?_, ?_, ?_⟩
  · rw [values]
    exact Tuple.monotone_sort _
  · have product : Uᵀ.submatrix order id * U.submatrix id order = (Uᵀ * U).submatrix order order :=
      submatrix_mul_equiv Uᵀ U order (Equiv.refl (Fin n)) order
    rw [vectors, transpose_submatrix, product, unitary]
    exact submatrix_one_equiv order
  · rw [vectors, values]
    ext i j
    have column : (A.toMatrix *ᵥ symm.eigenvectorBasis (order j)) i =
        symm.eigenvalues (order j) * symm.eigenvectorBasis (order j) i :=
      congrFun (symm.mulVec_eigenvectorBasis (order j)) i
    rw [mul_diagonal, mul_comm]
    exact column

/-- The lower factor of the LDLᵀ decomposition, with the roots of the diagonal taken into it. -/
noncomputable def lowerFactor (A : SquareMatrix ℝ n) (definite : A.toMatrix.PosDef) :
    SquareMatrix ℝ n :=
  ofFn (LDL.lower definite * diagonal fun i => √(LDL.diagEntries definite i))

theorem lowerFactor_mul_transpose (A : SquareMatrix ℝ n) (definite : A.toMatrix.PosDef) :
    (A.lowerFactor definite).toMatrix * (A.lowerFactor definite).toMatrixᵀ = A.toMatrix := by
  have entries_nonneg (i : Fin n) : 0 ≤ LDL.diagEntries definite i := by
    have semidefinite : (LDL.diag definite).PosSemidef := by
      rw [LDL.diag_eq_lowerInv_conj]
      exact definite.posSemidef.mul_mul_conjTranspose_same _
    have entry := semidefinite.diag_nonneg (i := i)
    rwa [LDL.diag, diagonal_apply_eq] at entry
  have roots : diagonal (fun i => √(LDL.diagEntries definite i)) *
      diagonal (fun i => √(LDL.diagEntries definite i)) = LDL.diag definite := by
    rw [diagonal_mul_diagonal, LDL.diag]
    exact congrArg diagonal (funext fun i => Real.mul_self_sqrt (entries_nonneg i))
  have factor : (A.lowerFactor definite).toMatrix =
      LDL.lower definite * diagonal fun i => √(LDL.diagEntries definite i) := toMatrix_ofFn _
  calc (A.lowerFactor definite).toMatrix * (A.lowerFactor definite).toMatrixᵀ
      = LDL.lower definite * (diagonal (fun i => √(LDL.diagEntries definite i)) *
          diagonal (fun i => √(LDL.diagEntries definite i))) * (LDL.lower definite)ᵀ := by
        rw [factor, transpose_mul, diagonal_transpose]
        simp only [Matrix.mul_assoc]
    _ = A.toMatrix := by
        rw [roots, ← conjTranspose_eq_transpose_of_trivial]
        exact LDL.lower_conj_diag definite

end SquareMatrix

namespace LinearAlgebra

open Classical in
/-- The factorizations of real matrices, wherever they exist. -/
noncomputable def exact : LinearAlgebra ℝ where
  eigh := fun A =>
    if symm : A.toMatrix.IsHermitian then .ok (A.sortedSpectrum symm) else .error .noConvergence
  cholesky := fun A =>
    if definite : A.toMatrix.PosDef then .ok (A.lowerFactor definite)
    else .error .notPositiveDefinite
  solve := fun A b =>
    if IsUnit A.toMatrix then .ok (Vector.ofFn (A.toMatrix⁻¹ *ᵥ b.get)) else .error .singularSystem

theorem exact_exact : exact.Exact where
  eigh := fun A symm => by
    have hermitian : A.toMatrix.IsHermitian := by
      rw [IsHermitian, conjTranspose_eq_transpose_of_trivial, symm]
    exact ⟨_, dif_pos hermitian, A.sortedSpectrum_diagonalizes hermitian⟩
  cholesky := fun A definite => ⟨_, dif_pos definite, A.lowerFactor_mul_transpose definite⟩
  solve := fun A b unit => by
    refine ⟨_, if_pos unit, vector_ext fun i => ?_⟩
    have solution : (Vector.ofFn (A.toMatrix⁻¹ *ᵥ b.get)).get = A.toMatrix⁻¹ *ᵥ b.get :=
      funext fun i => get_vectorOfFn _ i
    rw [SquareMatrix.get_mulVec_eq, solution, mulVec_mulVec,
      mul_nonsing_inv _ ((isUnit_iff_isUnit_det _).1 unit), one_mulVec]

open Classical in
/-- The same factorizations, with the axes as eigenvectors wherever they are in the right order. -/
noncomputable def axisAligned : LinearAlgebra ℝ :=
  { exact with
    eigh := fun A =>
      if A.toMatrix.IsDiag ∧ Monotone A.toMatrix.diag then
        .ok { eigenvalues := Vector.ofFn A.toMatrix.diag, eigenvectors := .identity }
      else exact.eigh A }

theorem axisAligned_eigh {A : SquareMatrix ℝ n} {d : Vector ℝ n}
    (diagonal_eq : A.toMatrix = diagonal d.get) (ascending : Monotone d.get) :
    axisAligned.eigh A = .ok { eigenvalues := d, eigenvectors := .identity } := by
  have diag_eq : A.toMatrix.diag = d.get := by
    rw [diagonal_eq, diag_diagonal]
  have entries : Vector.ofFn d.get = d := vector_ext (get_vectorOfFn d.get)
  have aligned : A.toMatrix.IsDiag ∧ Monotone A.toMatrix.diag := by
    rw [diag_eq, diagonal_eq]
    exact ⟨isDiag_diagonal _, ascending⟩
  refine (if_pos aligned).trans ?_
  rw [diag_eq, entries]

theorem axisAligned_exact : axisAligned.Exact where
  eigh := fun {n} A symm => by
    by_cases aligned : A.toMatrix.IsDiag ∧ Monotone A.toMatrix.diag
    · have values : (Vector.ofFn A.toMatrix.diag : Vector ℝ n).get = A.toMatrix.diag :=
        funext (get_vectorOfFn _)
      refine ⟨_, if_pos aligned, ?_, ?_, ?_⟩
      · rw [values]
        exact aligned.2
      · rw [SquareMatrix.toMatrix_identity, transpose_one, Matrix.one_mul]
      · rw [SquareMatrix.toMatrix_identity, values, aligned.1.diagonal_diag, Matrix.mul_one,
          Matrix.one_mul]
    · obtain ⟨S, found, D⟩ := exact_exact.eigh A symm
      exact ⟨S, (if_neg aligned).trans found, D⟩
  cholesky := exact_exact.cholesky
  solve := exact_exact.solve

end LinearAlgebra

/-- Along the axes the model of a diagonal Hessian is read off. -/
theorem Model.ofDerivatives_axisAligned {H : SquareMatrix ℝ n} {d : Vector ℝ n}
    (diagonal_eq : H.toMatrix = diagonal d.get) (ascending : Monotone d.get) (g : Vector ℝ n) :
    ∃ M, ofDerivatives .axisAligned g H = .ok M ∧ M.spectrum.eigenvalues = d ∧
      M.projections = g := by
  have symmetric : H.symmetricPart.toMatrix = diagonal d.get := by
    rw [SquareMatrix.toMatrix_symmetricPart, diagonal_eq, diagonal_transpose, ← two_smul ℝ, smul_smul,
      one_div, inv_mul_cancel₀ two_ne_zero, one_smul]
  have projections : (SquareMatrix.identity.transpose.mulVec g : Vector ℝ n) = g := by
    refine vector_ext fun i => ?_
    rw [SquareMatrix.get_mulVec_eq, SquareMatrix.toMatrix_transpose, SquareMatrix.toMatrix_identity,
      transpose_one, one_mulVec]
  refine ⟨ofSpectrum g H.symmetricPart { eigenvalues := d, eigenvectors := .identity }, ?_, rfl,
    projections⟩
  rw [ofDerivatives, LinearAlgebra.axisAligned_eigh symmetric ascending]
  rfl

end TrustRegion
