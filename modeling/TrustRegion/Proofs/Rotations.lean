/-
  Other eigenvectors for the same eigenvalues.

  Within the space of every eigenvalue the eigenvectors can be reflected at will. The reflections
  here move the projections of a gradient to any others that have the same sum of squares over every
  eigenvalue (`Exact.exists_rebased`), and every model obtained like that is the model of some exact
  factorizations (`Exact.exists_ofDerivatives`). So those sums are all that is determined.
-/
import TrustRegion.Proofs.Eigenbases
import TrustRegion.Proofs.Factorizations

namespace TrustRegion

open Matrix

variable {n : Nat}

/-! ## Reflections within classes -/

/-- The sum of the numbers of one class, where `a` gives the class of each. -/
noncomputable def classSum (a c : Fin n → ℝ) (e : ℝ) : ℝ := ∑ k, if a k = e then c k else 0

/-- In every class the projection onto the part of a vector in that class. -/
noncomputable def classProjection (a v : Fin n → ℝ) : Matrix (Fin n) (Fin n) ℝ :=
  of fun i j => if a i = a j then v i * v j / classSum a (v ^ 2) (a i) else 0

/-- In every class the reflection that turns the part of a vector in that class round. -/
noncomputable def classReflection (a v : Fin n → ℝ) : Matrix (Fin n) (Fin n) ℝ :=
  1 - (classProjection a v + classProjection a v)

variable {a v c q : Fin n → ℝ}

theorem classProjection_apply (i j : Fin n) : classProjection a v i j =
    if a i = a j then v i * v j / classSum a (v ^ 2) (a i) else 0 := rfl

theorem classProjection_transpose : (classProjection a v)ᵀ = classProjection a v := by
  ext i j
  rw [transpose_apply, classProjection_apply, classProjection_apply]
  by_cases same : a i = a j
  · rw [if_pos same, if_pos same.symm, same, mul_comm]
  · rw [if_neg same, if_neg (Ne.symm same)]

theorem classProjection_mulVec (c : Fin n → ℝ) (i : Fin n) : (classProjection a v *ᵥ c) i =
    v i / classSum a (v ^ 2) (a i) * classSum a (v * c) (a i) := by
  have expand : classSum a (v * c) (a i) = ∑ k, if a k = a i then (v * c) k else 0 := rfl
  show ∑ k, classProjection a v i k * c k = _
  rw [expand, Finset.mul_sum]
  refine Finset.sum_congr rfl fun k _ => ?_
  rw [classProjection_apply]
  by_cases same : a i = a k
  · rw [if_pos same, if_pos same.symm, Pi.mul_apply]
    ring
  · rw [if_neg same, if_neg (Ne.symm same), zero_mul, mul_zero]

theorem classProjection_mul_self :
    classProjection a v * classProjection a v = classProjection a v := by
  ext i j
  have column : (classProjection a v * classProjection a v) i j =
      (classProjection a v *ᵥ fun k => classProjection a v k j) i := rfl
  rw [column, classProjection_mulVec, classProjection_apply]
  by_cases same : a i = a j
  · have weights : classSum a (v * fun k => classProjection a v k j) (a i) =
        classSum a (v ^ 2) (a i) * (v j / classSum a (v ^ 2) (a i)) := by
      rw [classSum, classSum, Finset.sum_mul]
      refine Finset.sum_congr rfl fun k _ => ?_
      by_cases near : a k = a i
      · rw [if_pos near, if_pos near, Pi.mul_apply, Pi.pow_apply, classProjection_apply,
          if_pos (near.trans same), near, classSum]
        ring
      · rw [if_neg near, if_neg near, zero_mul]
    rw [weights, if_pos same]
    rcases eq_or_ne (classSum a (v ^ 2) (a i)) 0 with zero | nonzero
    · rw [zero, div_zero, div_zero, div_zero, zero_mul]
    · field_simp
  · have weights : classSum a (v * fun k => classProjection a v k j) (a i) = 0 := by
      refine Finset.sum_eq_zero fun k _ => ?_
      by_cases near : a k = a i
      · rw [if_pos near, Pi.mul_apply, classProjection_apply, if_neg (near ▸ same), mul_zero]
      · rw [if_neg near]
    rw [weights, if_neg same, mul_zero]

theorem classReflection_mul_self : classReflection a v * classReflection a v = 1 := by
  unfold classReflection
  simp only [sub_mul, mul_sub, add_mul, mul_add, one_mul, mul_one, classProjection_mul_self]
  abel

theorem classReflection_transpose : (classReflection a v)ᵀ = classReflection a v := by
  rw [classReflection, transpose_sub, transpose_one, transpose_add, classProjection_transpose]

/-- A reflection does not mix the classes. -/
theorem diagonal_mul_classReflection :
    diagonal a * classReflection a v = classReflection a v * diagonal a := by
  have commutes : diagonal a * classProjection a v = classProjection a v * diagonal a := by
    ext i j
    rw [diagonal_mul, mul_diagonal, classProjection_apply]
    split
    · next same => rw [same, mul_comm]
    · rw [mul_zero, zero_mul]
  rw [classReflection, mul_sub, sub_mul, mul_add, add_mul, commutes, mul_one, one_mul]

theorem sq_le_classSum (a v : Fin n → ℝ) (i : Fin n) : v i ^ 2 ≤ classSum a (v ^ 2) (a i) := by
  have term : (if a i = a i then (v ^ 2) i else 0) = v i ^ 2 := if_pos rfl
  rw [← term]
  refine Finset.single_le_sum (f := fun k => if a k = a i then (v ^ 2) k else 0) (fun k _ => ?_)
    (Finset.mem_univ i)
  split
  · exact sq_nonneg (v k)
  · exact le_refl 0

/-- Two vectors whose parts have the same lengths are reflected to each other. -/
theorem classReflection_mulVec
    (same : ∀ i, classSum a (q ^ 2) (a i) = classSum a (c ^ 2) (a i)) :
    classReflection a (q - c) *ᵥ q = c := by
  have half (i : Fin n) : classSum a ((q - c) ^ 2) (a i) = 2 * classSum a ((q - c) * q) (a i) := by
    have expand : classSum a ((q - c) ^ 2) (a i) = 2 * classSum a ((q - c) * q) (a i) +
        (classSum a (c ^ 2) (a i) - classSum a (q ^ 2) (a i)) := by
      unfold classSum
      rw [Finset.mul_sum, ← Finset.sum_sub_distrib, ← Finset.sum_add_distrib]
      refine Finset.sum_congr rfl fun k _ => ?_
      by_cases near : a k = a i
      · simp only [if_pos near, Pi.pow_apply, Pi.sub_apply, Pi.mul_apply]
        ring
      · simp only [if_neg near]
        ring
    rw [expand, same, sub_self, add_zero]
  have projected (i : Fin n) : (classProjection a (q - c) *ᵥ q) i = (q - c) i / 2 := by
    rw [classProjection_mulVec]
    rcases eq_or_ne (classSum a ((q - c) ^ 2) (a i)) 0 with zero | nonzero
    · have vanishes : (q - c) i = 0 := by
        have bound := sq_le_classSum a (q - c) i
        rw [zero] at bound
        exact pow_eq_zero_iff two_ne_zero |>.1 (le_antisymm bound (sq_nonneg _))
      rw [vanishes, zero_div, zero_mul, zero_div]
    · have inner : classSum a ((q - c) * q) (a i) ≠ 0 := by
        rw [half] at nonzero
        exact right_ne_zero_of_mul nonzero
      rw [half]
      field_simp
  ext i
  rw [classReflection, sub_mulVec, one_mulVec, add_mulVec, Pi.sub_apply, Pi.add_apply, projected,
    Pi.sub_apply]
  ring

namespace Model

variable {M M' : Model ℝ n}

/-- The squared length of the part of the gradient that belongs to an eigenvalue. -/
noncomputable def share (M : Model ℝ n) (e : ℝ) : ℝ :=
  classSum M.spectrum.eigenvalues.get (M.projections.get ^ 2) e

theorem Rebased.share_eq (R : M.Rebased M') (e : ℝ) : M.share e = M'.share e := by
  have weighted := R.sum_weighted fun e' => if e' = e then 1 else 0
  simpa only [share, classSum, Pi.pow_apply, ite_mul, one_mul, zero_mul] using weighted

/-- The projections can be anything that has the same shares. -/
theorem Exact.exists_rebased (E : M.Exact)
    (same : ∀ j, M.share (M.spectrum.eigenvalues j) =
      classSum M.spectrum.eigenvalues.get (c ^ 2) (M.spectrum.eigenvalues j)) :
    ∃ M', M.Rebased M' ∧ M'.projections.get = c := by
  set a := M.spectrum.eigenvalues.get
  set Q := classReflection a (M.projections.get - c)
  set V := M.spectrum.eigenvectors.toMatrix
  let S : Spectrum ℝ n := ⟨M.spectrum.eigenvalues, .ofFn (V * Q)⟩
  have vectors : S.eigenvectors.toMatrix = V * Q := SquareMatrix.toMatrix_ofFn _
  have D : S.Diagonalizes M.hessian := by
    refine ⟨E.diagonalizes.ascending, ?_, ?_⟩
    · rw [vectors, transpose_mul, classReflection_transpose, Matrix.mul_assoc, ← Matrix.mul_assoc Vᵀ,
        E.diagonalizes.orthonormal, Matrix.one_mul, classReflection_mul_self]
    · rw [vectors, ← Matrix.mul_assoc, E.diagonalizes.stretches, Matrix.mul_assoc, Matrix.mul_assoc,
        diagonal_mul_classReflection]
  have exact_model := exact_ofSpectrum (g := M.gradient) D
  refine ⟨ofSpectrum M.gradient M.hessian S, ⟨E, exact_model, rfl, rfl⟩, ?_⟩
  have projections : Vᵀ *ᵥ M.gradient.get = M.projections.get := E.projections
  calc (ofSpectrum M.gradient M.hessian S).projections.get
      = (V * Q)ᵀ *ᵥ M.gradient.get := by
        rw [← exact_model.projections, ← vectors]
        rfl
    _ = c := by
        rw [transpose_mul, ← mulVec_mulVec, projections, classReflection_transpose]
        exact classReflection_mulVec same

/-- An exact model is that of its gradient, Hessian and spectrum. -/
theorem Exact.eq_ofSpectrum (E : M.Exact) : M = ofSpectrum M.gradient M.hessian M.spectrum := by
  have projections : M.projections = M.spectrum.eigenvectors.transpose.mulVec M.gradient := by
    refine vector_ext fun i => ?_
    rw [← E.projections, SquareMatrix.get_mulVec_eq, SquareMatrix.toMatrix_transpose]
    rfl
  obtain ⟨gradient, hessian, spectrum, entries⟩ := M
  exact congrArg (Model.mk gradient hessian spectrum) projections

end Model

namespace LinearAlgebra

open Classical in
/-- The factorizations of real matrices, with a given spectrum for one of them. -/
noncomputable def choosing (A : SquareMatrix ℝ n) (S : Spectrum ℝ n) : LinearAlgebra ℝ :=
  { exact with
    eigh := fun {k} B =>
      if chosen : ∃ same : n = k, same ▸ A = B then .ok (chosen.choose ▸ S) else exact.eigh B }

theorem choosing_eigh (A : SquareMatrix ℝ n) (S : Spectrum ℝ n) :
    (choosing A S).eigh A = .ok S :=
  dif_pos ⟨rfl, rfl⟩

theorem choosing_exact {A : SquareMatrix ℝ n} {S : Spectrum ℝ n} (D : S.Diagonalizes A) :
    (choosing A S).Exact where
  eigh := fun {k} B symm => by
    by_cases chosen : ∃ same : n = k, same ▸ A = B
    · obtain ⟨rfl, rfl⟩ := chosen
      exact ⟨S, choosing_eigh A S, D⟩
    · obtain ⟨T, found, diagonalizes⟩ := exact_exact.eigh B symm
      exact ⟨T, (dif_neg chosen).trans found, diagonalizes⟩
  cholesky := exact_exact.cholesky
  solve := exact_exact.solve

end LinearAlgebra

/-- Every exact model is the one that some exact factorizations give. -/
theorem Model.Exact.exists_ofDerivatives {M : Model ℝ n} (E : M.Exact) {H : SquareMatrix ℝ n}
    (hessian : M.hessian = H.symmetricPart) :
    ∃ la : LinearAlgebra ℝ, la.Exact ∧ ofDerivatives la M.gradient H = .ok M := by
  refine ⟨.choosing M.hessian M.spectrum, LinearAlgebra.choosing_exact E.diagonalizes, ?_⟩
  rw [ofDerivatives, ← hessian, LinearAlgebra.choosing_eigh]
  exact congrArg Except.ok E.eq_ofSpectrum.symm

end TrustRegion
