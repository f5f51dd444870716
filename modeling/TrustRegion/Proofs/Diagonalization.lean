/-
  Symmetric matrices in the coordinates of their eigenvectors.

  `Spectrum.Diagonalizes` says what an exact eigendecomposition is: ascending eigenvalues, and
  orthonormal eigenvectors that belong to them. In these coordinates the matrix is diagonal, and
  the inner product is what it was before (`dot_eq`), so a step, its length and the value of the
  model at it are sums over the eigenvalues (`Model.value_eq`). The signs of the eigenvalues tell
  whether the matrix is definite (`posSemidef`, `posDef`), and a multiple of the identity moves all
  of them by the same amount (`Diagonalizes.shift`).
-/
import TrustRegion.Proofs.Reals

namespace TrustRegion

open Matrix

variable {n : Nat}

theorem dot_eq_dotProduct (u v : Vector ℝ n) : dot u v = u.get ⬝ᵥ v.get := real_dot u v

namespace SquareMatrix

/-- The matrix as a function of its two indices. -/
def toMatrix (A : SquareMatrix ℝ n) : Matrix (Fin n) (Fin n) ℝ := Matrix.of fun i j => A i j

theorem get_mulVec_eq (A : SquareMatrix ℝ n) (v : Vector ℝ n) :
    (A.mulVec v).get = A.toMatrix *ᵥ v.get := by
  funext i
  rw [get_mulVec, real_dot]
  rfl

theorem toMatrix_transpose (A : SquareMatrix ℝ n) : A.transpose.toMatrix = A.toMatrixᵀ := by
  ext i j
  exact get_transpose A i j

theorem toMatrix_identity : (identity : SquareMatrix ℝ n).toMatrix = 1 := by
  ext i j
  exact get_identity i j

theorem toMatrix_shift (A : SquareMatrix ℝ n) (c : ℝ) :
    (A.shift c).toMatrix = A.toMatrix + c • 1 := by
  ext i j
  exact get_shift A c i j

theorem toMatrix_symmetricPart (A : SquareMatrix ℝ n) :
    A.symmetricPart.toMatrix = (1 / 2 : ℝ) • (A.toMatrix + A.toMatrixᵀ) := by
  ext i j
  have entry : A.symmetricPart.toMatrix i j = 0.5 * (A i j + A j i) := get_symmetricPart A i j
  rw [entry, Matrix.smul_apply, Matrix.add_apply, transpose_apply, smul_eq_mul]
  show 0.5 * (A i j + A j i) = 1 / 2 * (A i j + A j i)
  norm_num

theorem isSymm_symmetricPart (A : SquareMatrix ℝ n) : A.symmetricPart.toMatrix.IsSymm := by
  rw [toMatrix_symmetricPart, IsSymm, transpose_smul, transpose_add, transpose_transpose, add_comm]

/-- A quadratic form sees the symmetric part of its matrix only. -/
theorem dot_mulVec_symmetricPart (A : SquareMatrix ℝ n) (v : Vector ℝ n) :
    dot v (A.symmetricPart.mulVec v) = dot v (A.mulVec v) := by
  have form (B : SquareMatrix ℝ n) : dot v (B.mulVec v) = v.get ⬝ᵥ B.toMatrix *ᵥ v.get := by
    rw [dot_eq_dotProduct, get_mulVec_eq]
  have turned : v.get ⬝ᵥ A.toMatrixᵀ *ᵥ v.get = v.get ⬝ᵥ A.toMatrix *ᵥ v.get := by
    rw [mulVec_transpose, dotProduct_comm, dotProduct_mulVec]
  rw [form, form, toMatrix_symmetricPart, smul_mulVec, add_mulVec, dotProduct_smul,
    dotProduct_add, turned, smul_eq_mul]
  ring

end SquareMatrix

namespace Spectrum

/-- The coordinates of a vector with respect to the eigenvectors. -/
def coordinates (S : Spectrum ℝ n) (v : Vector ℝ n) : Fin n → ℝ :=
  S.eigenvectors.toMatrixᵀ *ᵥ v.get

/-- The vector with given coordinates. -/
noncomputable def ofCoordinates (S : Spectrum ℝ n) (c : Fin n → ℝ) : Vector ℝ n :=
  Vector.ofFn (S.eigenvectors.toMatrix *ᵥ c)

/-- Ascending eigenvalues of a matrix with orthonormal eigenvectors that belong to them. -/
structure Diagonalizes (S : Spectrum ℝ n) (A : SquareMatrix ℝ n) : Prop where
  /-- The eigenvalues ascend. -/
  ascending : Monotone S.eigenvalues.get
  /-- The eigenvectors are orthonormal. -/
  orthonormal : S.eigenvectors.toMatrixᵀ * S.eigenvectors.toMatrix = 1
  /-- The matrix stretches every eigenvector by its eigenvalue. -/
  stretches : A.toMatrix * S.eigenvectors.toMatrix =
    S.eigenvectors.toMatrix * diagonal S.eigenvalues.get

theorem coordinates_add (S : Spectrum ℝ n) (u v : Vector ℝ n) :
    S.coordinates (u + v) = S.coordinates u + S.coordinates v := by
  have sum : (u + v).get = u.get + v.get := funext fun i => get_add u v i
  rw [coordinates, sum, mulVec_add]
  rfl

theorem coordinates_neg (S : Spectrum ℝ n) (v : Vector ℝ n) :
    S.coordinates (-v) = -S.coordinates v := by
  have negated : (-v).get = -v.get := funext fun i => get_neg v i
  rw [coordinates, negated, mulVec_neg]
  rfl

theorem coordinates_mul (S : Spectrum ℝ n) (c : ℝ) (v : Vector ℝ n) :
    S.coordinates (c * v) = c • S.coordinates v := by
  have scaled : (c * v).get = c • v.get := funext fun i => get_mul c v i
  rw [coordinates, scaled, mulVec_smul]
  rfl

namespace Diagonalizes

variable {S : Spectrum ℝ n} {A : SquareMatrix ℝ n}

theorem complete (D : S.Diagonalizes A) :
    S.eigenvectors.toMatrix * S.eigenvectors.toMatrixᵀ = 1 :=
  mul_eq_one_comm.1 D.orthonormal

/-- The matrix, put together from its eigenvalues and eigenvectors. -/
theorem toMatrix_eq (D : S.Diagonalizes A) : A.toMatrix =
    S.eigenvectors.toMatrix * diagonal S.eigenvalues.get * S.eigenvectors.toMatrixᵀ := by
  rw [← D.stretches, Matrix.mul_assoc, D.complete, Matrix.mul_one]

/-- Vectors with the same coordinates are equal. -/
theorem ext (D : S.Diagonalizes A) {u v : Vector ℝ n}
    (same : S.coordinates u = S.coordinates v) : u = v := by
  have back (w : Vector ℝ n) : S.eigenvectors.toMatrix *ᵥ S.coordinates w = w.get := by
    rw [coordinates, mulVec_mulVec, D.complete, one_mulVec]
  refine vector_ext fun i => ?_
  rw [← back u, ← back v, same]

theorem coordinates_ofCoordinates (D : S.Diagonalizes A) (c : Fin n → ℝ) :
    S.coordinates (S.ofCoordinates c) = c := by
  have entries : (S.ofCoordinates c).get = S.eigenvectors.toMatrix *ᵥ c :=
    funext fun i => get_vectorOfFn _ i
  rw [coordinates, entries, mulVec_mulVec, D.orthonormal, one_mulVec]

/-- Inner products are the same in both coordinates. -/
theorem dot_eq (D : S.Diagonalizes A) (u v : Vector ℝ n) :
    dot u v = ∑ j, S.coordinates u j * S.coordinates v j := by
  calc dot u v = u.get ⬝ᵥ (S.eigenvectors.toMatrix * S.eigenvectors.toMatrixᵀ) *ᵥ v.get := by
        rw [dot_eq_dotProduct, D.complete, one_mulVec]
    _ = S.coordinates u ⬝ᵥ S.coordinates v := by
        rw [← mulVec_mulVec, dotProduct_mulVec, ← mulVec_transpose]
        rfl

theorem dot_self_eq (D : S.Diagonalizes A) (v : Vector ℝ n) :
    dot v v = ∑ j, S.coordinates v j ^ 2 := by
  rw [D.dot_eq]
  exact Finset.sum_congr rfl fun j _ => (sq _).symm

/-- The matrix acts on coordinates one by one. -/
theorem coordinates_mulVec (D : S.Diagonalizes A) (v : Vector ℝ n) (j : Fin n) :
    S.coordinates (A.mulVec v) j = S.eigenvalues j * S.coordinates v j := by
  have act : S.eigenvectors.toMatrixᵀ * A.toMatrix =
      diagonal S.eigenvalues.get * S.eigenvectors.toMatrixᵀ := by
    rw [D.toMatrix_eq, ← Matrix.mul_assoc, ← Matrix.mul_assoc, D.orthonormal, Matrix.one_mul]
  rw [coordinates, SquareMatrix.get_mulVec_eq, mulVec_mulVec, act, ← mulVec_mulVec,
    mulVec_diagonal]
  rfl

/-- The eigenvalues of a decomposition are those of the matrix. -/
theorem spectrum_eq (D : S.Diagonalizes A) :
    spectrum ℝ A.toMatrix = Set.range S.eigenvalues.get := by
  let U : (Matrix (Fin n) (Fin n) ℝ)ˣ :=
    ⟨S.eigenvectors.toMatrix, S.eigenvectors.toMatrixᵀ, D.complete, D.orthonormal⟩
  have conjugate : A.toMatrix = U.val * diagonal S.eigenvalues.get * U⁻¹.val := D.toMatrix_eq
  rw [conjugate, spectrum.units_conjugate, spectrum_diagonal]

theorem mem_spectrum (D : S.Diagonalizes A) (j : Fin n) :
    S.eigenvalues j ∈ spectrum ℝ A.toMatrix := by
  rw [D.spectrum_eq]
  exact Set.mem_range_self j

theorem posSemidef (D : S.Diagonalizes A) (nonneg : ∀ j, 0 ≤ S.eigenvalues j) :
    A.toMatrix.PosSemidef := by
  have stretch : (diagonal S.eigenvalues.get).PosSemidef := .diagonal nonneg
  rw [D.toMatrix_eq, ← conjTranspose_eq_transpose_of_trivial]
  exact stretch.mul_mul_conjTranspose_same _

theorem posDef (D : S.Diagonalizes A) (positive : ∀ j, 0 < S.eigenvalues j) :
    A.toMatrix.PosDef := by
  have stretch : (diagonal S.eigenvalues.get).PosDef := .diagonal positive
  have unit : IsUnit S.eigenvectors.toMatrix := IsUnit.of_mul_eq_one _ D.complete
  rw [D.toMatrix_eq, ← conjTranspose_eq_transpose_of_trivial]
  exact stretch.mul_mul_conjTranspose_same (vecMul_injective_of_isUnit unit)

end Diagonalizes

/-! ## Multiples of the identity -/

/-- The decomposition after a multiple of the identity is added. -/
noncomputable def shift (S : Spectrum ℝ n) (c : ℝ) : Spectrum ℝ n :=
  { S with eigenvalues := Vector.ofFn fun j => c + S.eigenvalues j }

theorem get_shift_eigenvalues (S : Spectrum ℝ n) (c : ℝ) (j : Fin n) :
    (S.shift c).eigenvalues j = c + S.eigenvalues j :=
  get_vectorOfFn _ j

/-- Adding a multiple of the identity adds it to every eigenvalue. -/
theorem Diagonalizes.shift {S : Spectrum ℝ n} {A : SquareMatrix ℝ n} (D : S.Diagonalizes A)
    (c : ℝ) : (S.shift c).Diagonalizes (A.shift c) where
  ascending := fun i j le => by
    have ascends : S.eigenvalues i ≤ S.eigenvalues j := D.ascending le
    show (S.shift c).eigenvalues i ≤ (S.shift c).eigenvalues j
    rw [get_shift_eigenvalues, get_shift_eigenvalues]
    linarith
  orthonormal := D.orthonormal
  stretches := by
    have lifted : diagonal (S.shift c).eigenvalues.get = diagonal S.eigenvalues.get + c • 1 := by
      rw [← diagonal_one, ← diagonal_smul, diagonal_add, diagonal_eq_diagonal_iff]
      intro j
      rw [Pi.smul_apply, smul_eq_mul, mul_one, add_comm]
      exact S.get_shift_eigenvalues c j
    show (A.shift c).toMatrix * S.eigenvectors.toMatrix = S.eigenvectors.toMatrix * _
    rw [lifted, SquareMatrix.toMatrix_shift, Matrix.add_mul, D.stretches, Matrix.mul_add,
      Matrix.smul_mul, Matrix.mul_smul, Matrix.one_mul, Matrix.mul_one]

theorem Diagonalizes.spectrum_shift {S : Spectrum ℝ n} {A : SquareMatrix ℝ n}
    (D : S.Diagonalizes A) (c : ℝ) :
    spectrum ℝ (A.shift c).toMatrix = Set.range fun j => c + S.eigenvalues j := by
  rw [(D.shift c).spectrum_eq]
  exact congrArg Set.range (funext (S.get_shift_eigenvalues c))

end Spectrum

/-- The value `g·s + ½ s·(H s)` of the quadratic model of a gradient and any square matrix. -/
noncomputable def quadraticModel (g : Vector ℝ n) (H : SquareMatrix ℝ n) (s : Vector ℝ n) : ℝ :=
  dot g s + 0.5 * dot s (H.mulVec s)

namespace Model

/-- A model whose spectrum and projections are exact. -/
structure Exact (M : Model ℝ n) : Prop where
  /-- The spectrum is that of the Hessian. -/
  diagonalizes : M.spectrum.Diagonalizes M.hessian
  /-- The projections are the coordinates of the gradient. -/
  projections : M.spectrum.coordinates M.gradient = M.projections.get

theorem exact_ofSpectrum {g : Vector ℝ n} {A : SquareMatrix ℝ n} {S : Spectrum ℝ n}
    (D : S.Diagonalizes A) : (ofSpectrum g A S).Exact where
  diagonalizes := D
  projections := by
    show S.coordinates g = (S.eigenvectors.transpose.mulVec g).get
    rw [SquareMatrix.get_mulVec_eq, SquareMatrix.toMatrix_transpose]
    rfl

variable {M : Model ℝ n}

/-- The squared length of the gradient is the sum of the squared projections. -/
theorem Exact.dot_gradient (E : M.Exact) :
    dot M.gradient M.gradient = ∑ j, M.projections j ^ 2 := by
  rw [E.diagonalizes.dot_self_eq, E.projections]

theorem Exact.gradient_ne_zero (E : M.Exact) (nonzero : ∃ i, M.gradient i ≠ 0) :
    ∃ j, M.projections j ≠ 0 := by
  by_contra all
  push Not at all
  obtain ⟨i, entry⟩ := nonzero
  have zero : dot M.gradient M.gradient = 0 := by
    rw [E.dot_gradient]
    exact Finset.sum_eq_zero fun j _ => by rw [all j]; ring
  rw [real_dot, Finset.sum_eq_zero_iff_of_nonneg fun k _ => mul_self_nonneg _] at zero
  exact entry (mul_self_eq_zero.1 (zero i (Finset.mem_univ i)))

/-- A model with the symmetric part of a matrix has the values of the matrix itself. -/
theorem value_eq_quadraticModel {g : Vector ℝ n} {H : SquareMatrix ℝ n} (gradient : M.gradient = g)
    (hessian : M.hessian = H.symmetricPart) (s : Vector ℝ n) :
    M.value s = quadraticModel g H s := by
  rw [value, quadraticModel, gradient, hessian, dot_mul_left,
    SquareMatrix.dot_mulVec_symmetricPart]

theorem value_zero (M : Model ℝ n) : M.value (Vector.ofFn fun _ => 0) = 0 := by
  have origin : (Vector.ofFn fun _ => (0 : ℝ) : Vector ℝ n).get = 0 := funext (get_vectorOfFn _)
  rw [value, dot_mul_left, dot_eq_dotProduct, dot_eq_dotProduct, origin, dotProduct_zero,
    zero_dotProduct, mul_zero, add_zero]

/-- The value of the model, coordinate by coordinate. -/
theorem Exact.value_eq (E : M.Exact) (s : Vector ℝ n) :
    M.value s = ∑ j, (M.projections j * M.spectrum.coordinates s j +
      M.spectrum.eigenvalues j * M.spectrum.coordinates s j ^ 2 / 2) := by
  have half : (0.5 : ℝ) = 1 / 2 := by norm_num
  unfold value
  rw [E.diagonalizes.dot_eq, E.diagonalizes.dot_eq, E.projections, ← Finset.sum_add_distrib]
  refine Finset.sum_congr rfl fun j _ => ?_
  rw [Spectrum.coordinates_mul, E.diagonalizes.coordinates_mulVec, Pi.smul_apply, smul_eq_mul, half]
  ring

end Model

end TrustRegion
