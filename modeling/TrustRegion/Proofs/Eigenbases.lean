/-
  Two decompositions of one Hessian.

  The eigenvalues of a symmetric matrix are determined, in ascending order (`eigenvalues_unique`), but
  not its eigenvectors: within the space of a repeated eigenvalue any orthonormal basis will do. What
  a sum over the eigenvalues weighs by the eigenvalue alone does not depend on the basis
  (`sum_weighted_coordinates`). That covers the step of a multiplier, its length and everything that
  root finding computes, but not the projections themselves, which the test for the hard case
  compares one by one. So two runs that agree on its verdict agree on their report, and on the step
  unless it is completed along an eigenvector (`Rebased.agrees`).
-/
import TrustRegion.Proofs.NewtonStep

namespace TrustRegion

open Matrix

variable {n : Nat}

namespace Spectrum

variable {S S' : Spectrum ℝ n} {A : SquareMatrix ℝ n}

/-- The eigenvectors of one decomposition in the coordinates of another. -/
def change (S S' : Spectrum ℝ n) : Matrix (Fin n) (Fin n) ℝ :=
  S.eigenvectors.toMatrixᵀ * S'.eigenvectors.toMatrix

theorem Diagonalizes.transpose_change_mul (D : S.Diagonalizes A) (D' : S'.Diagonalizes A) :
    (change S S')ᵀ * change S S' = 1 := by
  rw [change, transpose_mul, transpose_transpose, Matrix.mul_assoc, ← Matrix.mul_assoc _ _ᵀ,
    D.complete, Matrix.one_mul, D'.orthonormal]

theorem Diagonalizes.coordinates_eq_change (D' : S'.Diagonalizes A) (v : Vector ℝ n) :
    S.coordinates v = change S S' *ᵥ S'.coordinates v := by
  rw [coordinates, coordinates, change, mulVec_mulVec, Matrix.mul_assoc, D'.complete, Matrix.mul_one]

/-- Only eigenvectors of one eigenvalue mix. -/
theorem Diagonalizes.diagonal_mul_change (D : S.Diagonalizes A) (D' : S'.Diagonalizes A) :
    diagonal S.eigenvalues.get * change S S' = change S S' * diagonal S'.eigenvalues.get := by
  calc diagonal S.eigenvalues.get * change S S'
      = S.eigenvectors.toMatrixᵀ * A.toMatrix * S'.eigenvectors.toMatrix := by
        rw [D.toMatrix_eq, change, ← Matrix.mul_assoc, ← Matrix.mul_assoc, ← Matrix.mul_assoc,
          D.orthonormal, Matrix.one_mul]
    _ = change S S' * diagonal S'.eigenvalues.get := by
        rw [Matrix.mul_assoc, D'.stretches, change, Matrix.mul_assoc]

theorem Diagonalizes.diagonal_comp_mul_change (D : S.Diagonalizes A) (D' : S'.Diagonalizes A)
    (weight : ℝ → ℝ) : diagonal (weight ∘ S.eigenvalues.get) * change S S' =
      change S S' * diagonal (weight ∘ S'.eigenvalues.get) := by
  ext i j
  have mixes := congrFun (congrFun (D.diagonal_mul_change D') i) j
  rw [diagonal_mul, mul_diagonal] at mixes ⊢
  rcases eq_or_ne (change S S' i j) 0 with zero | nonzero
  · rw [zero, mul_zero, zero_mul]
  · have same : S.eigenvalues.get i = S'.eigenvalues.get j := by
      rw [mul_comm] at mixes
      exact mul_left_cancel₀ nonzero mixes
    rw [Function.comp_apply, Function.comp_apply, same, mul_comm]

/-- What is weighed by the eigenvalue alone does not depend on the eigenvectors. -/
theorem Diagonalizes.sum_weighted_coordinates (D : S.Diagonalizes A) (D' : S'.Diagonalizes A)
    (weight : ℝ → ℝ) (v : Vector ℝ n) :
    ∑ j, weight (S.eigenvalues j) * S.coordinates v j ^ 2 =
      ∑ j, weight (S'.eigenvalues j) * S'.coordinates v j ^ 2 := by
  have form (T : Spectrum ℝ n) : ∑ j, weight (T.eigenvalues j) * T.coordinates v j ^ 2 =
      T.coordinates v ⬝ᵥ diagonal (weight ∘ T.eigenvalues.get) *ᵥ T.coordinates v := by
    refine Finset.sum_congr rfl fun j _ => ?_
    rw [mulVec_diagonal, Function.comp_apply]
    ring
  rw [form, form, D'.coordinates_eq_change, mulVec_mulVec, D.diagonal_comp_mul_change D',
    ← mulVec_mulVec, dotProduct_mulVec, ← mulVec_transpose, mulVec_mulVec,
    D.transpose_change_mul D', one_mulVec]

/-- The ascending eigenvalues are determined by the matrix. -/
theorem Diagonalizes.eigenvalues_unique (D : S.Diagonalizes A) (D' : S'.Diagonalizes A) :
    S.eigenvalues = S'.eigenvalues := by
  have roots {T : Spectrum ℝ n} (E : T.Diagonalizes A) :
      A.toMatrix.charpoly.roots = List.ofFn T.eigenvalues.get := by
    have product : ∏ i, (Polynomial.X - Polynomial.C (T.eigenvalues.get i)) =
        ((Finset.univ.val.map T.eigenvalues.get).map fun a => Polynomial.X - Polynomial.C a).prod := by
      rw [Multiset.map_map]
      rfl
    rw [E.toMatrix_eq, charpoly_mul_comm, ← Matrix.mul_assoc, E.orthonormal, Matrix.one_mul,
      charpoly_diagonal, product, Polynomial.roots_multiset_prod_X_sub_C, Fin.univ_val_map]
  have perm : (List.ofFn S.eigenvalues.get).Perm (List.ofFn S'.eigenvalues.get) := by
    rw [← Multiset.coe_eq_coe, ← roots D, roots D']
  have entries := List.ofFn_injective
    (perm.eq_of_sortedLE D.ascending.sortedLE_ofFn D'.ascending.sortedLE_ofFn)
  exact vector_ext (congrFun entries)

end Spectrum

/--
Two proposals with the same report on the multiplier, the region and the way they were found. Unless
they are completed along an eigenvector, they are the same step, with the same value of the model.
-/
structure Proposal.Agrees (p p' : Proposal ℝ) : Prop where
  /-- Both are completed along an eigenvector, or neither is. -/
  hardCase : p.outcome.hardCase = p'.outcome.hardCase
  /-- Both are called interior, or neither is. -/
  interior : p.outcome.interior = p'.outcome.interior
  /-- Both have come to rest, or neither has. -/
  reached : p.outcome.reached = p'.outcome.reached
  /-- The multipliers are the same. -/
  lam : p.outcome.lam = p'.outcome.lam
  /-- The steps are the same. -/
  step : p.outcome.hardCase = false → p.step = p'.step
  /-- So are their values. -/
  m : p.outcome.hardCase = false → p.outcome.m = p'.outcome.m

namespace Model

variable {M M' : Model ℝ n} {pos : 0 < n} {lam δ tol : ℝ} {k more i : Nat}
  {solution solution' : Solution ℝ n}

/-- Two exact models of one gradient and one Hessian: only the eigenvectors may differ. -/
structure Rebased (M M' : Model ℝ n) : Prop where
  /-- The first is exact. -/
  exact : M.Exact
  /-- So is the second. -/
  exact' : M'.Exact
  /-- They have the same gradient. -/
  gradient : M.gradient = M'.gradient
  /-- They have the same Hessian. -/
  hessian : M.hessian = M'.hessian

namespace Rebased

variable (R : M.Rebased M')
include R

theorem symm : M'.Rebased M := ⟨R.exact', R.exact, R.gradient.symm, R.hessian.symm⟩

theorem diagonalizes : M'.spectrum.Diagonalizes M.hessian := R.hessian ▸ R.exact'.diagonalizes

/-! ## What does not depend on the eigenvectors -/

theorem eigenvalues : M.spectrum.eigenvalues = M'.spectrum.eigenvalues :=
  R.exact.diagonalizes.eigenvalues_unique R.diagonalizes

theorem sum_weighted (weight : ℝ → ℝ) :
    ∑ j, weight (M.spectrum.eigenvalues j) * M.projections j ^ 2 =
      ∑ j, weight (M'.spectrum.eigenvalues j) * M'.projections j ^ 2 := by
  have coordinates := R.exact.diagonalizes.sum_weighted_coordinates R.diagonalizes weight M.gradient
  have projections : M'.spectrum.coordinates M.gradient = M'.projections.get := by
    rw [R.gradient, R.exact'.projections]
  rwa [R.exact.projections, projections] at coordinates

theorem least_eq : M.least pos = M'.least pos := congrArg (first pos) R.eigenvalues

theorem greatest_eq : M.greatest pos = M'.greatest pos := congrArg (last pos) R.eigenvalues

theorem tied_iff (e : ℝ) : M.Tied pos e ↔ M'.Tied pos e := by
  unfold Tied
  rw [R.least_eq]

theorem multiplierBound_eq : M.multiplierBound pos = M'.multiplierBound pos := by
  unfold multiplierBound
  rw [R.least_eq, R.greatest_eq]

theorem squaredLength_eq (lam : ℝ) : M.squaredLength lam 0 = M'.squaredLength lam 0 := by
  have weighted := R.sum_weighted fun e => ((lam + e) ^ 2)⁻¹
  rw [squaredLength_zero, squaredLength_zero]
  simpa only [div_eq_inv_mul, lifted] using weighted

theorem steepness_eq (lam : ℝ) : M.steepness lam = M'.steepness lam := by
  have weighted := R.sum_weighted fun e => ((lam + e) ^ 3)⁻¹
  unfold steepness
  simpa only [div_eq_inv_mul, lifted] using weighted

theorem newton_eq (δ lam : ℝ) : M.newton δ lam = M'.newton δ lam := by
  unfold newton stepLength
  rw [R.squaredLength_eq, R.steepness_eq]

theorem multiplierFrom_eq (δ start : ℝ) (i : Nat) :
    M.multiplierFrom pos δ start i = M'.multiplierFrom pos δ start i := by
  induction i with
  | zero => rfl
  | succ i ih =>
    show M.nextMultiplier pos δ _ = M'.nextMultiplier pos δ _
    unfold nextMultiplier
    rw [ih, R.newton_eq, R.multiplierBound_eq]

theorem stepAt_eq (definite : M.Definite lam) : M.stepAt lam = M'.stepAt lam := by
  have definite' : M'.Definite lam := fun j => by
    have lifted := definite j
    unfold Model.lifted at lifted ⊢
    rwa [R.eigenvalues] at lifted
  rw [R.exact.stepAt_eq_neg definite, R.exact'.stepAt_eq_neg definite', R.hessian, R.gradient]

theorem value_eq (s : Vector ℝ n) : M.value s = M'.value s := by
  unfold value
  rw [R.gradient, R.hessian]

/-! ## The tests -/

theorem newtonFits_iff : M.NewtonFits pos δ ↔ M'.NewtonFits pos δ := by
  unfold NewtonFits
  rw [R.least_eq, R.squaredLength_eq]

theorem flat_iff : (∀ j, M.projections j = 0) ↔ ∀ j, M'.projections j = 0 := by
  have flat {M M' : Model ℝ n} (R : M.Rebased M') (flat : ∀ j, M.projections j = 0) (j : Fin n) :
      M'.projections j = 0 := by
    have squares := R.sum_weighted fun _ => 1
    simp only [one_mul] at squares
    rw [Finset.sum_eq_zero fun j _ => by rw [flat j, zero_pow two_ne_zero]] at squares
    have zero := (Finset.sum_eq_zero_iff_of_nonneg fun j _ => sq_nonneg _).1 squares.symm
    exact pow_eq_zero_iff two_ne_zero |>.1 (zero j (Finset.mem_univ j))
  exact ⟨flat R, flat R.symm⟩

section Verdict

variable (verdict : (M.hardCase pos).1 = (M'.hardCase pos).1)
include verdict

/-- With the same verdict the hard case has the same multiplicity. -/
theorem hardCase_iff : M.hardCase pos = (true, k) ↔ M'.hardCase pos = (true, k) := by
  have counted {M M' : Model ℝ n} (R : M.Rebased M')
      (verdict : (M.hardCase pos).1 = (M'.hardCase pos).1) (h : M.hardCase pos = (true, k)) :
      M'.hardCase pos = (true, k) := by
    rw [h] at verdict
    have h' : M'.hardCase pos = (true, (M'.hardCase pos).2) := Prod.ext verdict.symm rfl
    have block (j : Fin n) : j.val < k ↔ j.val < (M'.hardCase pos).2 := by
      rw [R.exact.lt_iff_tied h, R.exact'.lt_iff_tied h', R.eigenvalues, R.tied_iff]
    have le := (hardCase_eq_true h).2.2.1
    have le' := (hardCase_eq_true h').2.2.1
    obtain same : k = (M'.hardCase pos).2 := by
      rcases lt_trichotomy k (M'.hardCase pos).2 with lt | same | lt
      · exact absurd ((block ⟨k, lt.trans_le le'⟩).2 lt) (lt_irrefl k)
      · exact same
      · exact absurd ((block ⟨_, lt.trans_le le⟩).1 lt) (lt_irrefl _)
    rw [same]
    exact h'
  exact ⟨counted R verdict, counted R.symm verdict.symm⟩

/-- What is left of the step in the hard case has the same length. -/
theorem squaredLength_rest (h : M.hardCase pos = (true, k)) (lam : ℝ) :
    M.squaredLength lam k = M'.squaredLength lam k := by
  classical
  have rest {M : Model ℝ n} (E : M.Exact) (h : M.hardCase pos = (true, k)) :
      M.squaredLength lam k = ∑ j, (if M.Tied pos (M.spectrum.eigenvalues j) then 0
        else ((lam + M.spectrum.eigenvalues j) ^ 2)⁻¹) * M.projections j ^ 2 := by
    rw [Model.squaredLength_eq]
    refine Finset.sum_congr rfl fun j _ => ?_
    by_cases tied : M.Tied pos (M.spectrum.eigenvalues j)
    · rw [if_neg (Nat.not_le.2 ((E.lt_iff_tied h j).2 tied)), if_pos tied, zero_mul]
    · rw [if_pos (Nat.not_lt.1 fun lt => tied ((E.lt_iff_tied h j).1 lt)), if_neg tied,
        div_eq_inv_mul]
      rfl
  rw [rest R.exact h, rest R.exact' ((R.hardCase_iff verdict).1 h)]
  simp only [← R.tied_iff]
  exact R.sum_weighted fun e => if M.Tied pos e then 0 else ((lam + e) ^ 2)⁻¹

theorem completes_iff : M.Completes pos δ k ↔ M'.Completes pos δ k := by
  unfold Completes
  rw [← R.hardCase_iff verdict]
  refine and_congr_right fun h => ?_
  rw [R.squaredLength_rest verdict h, R.multiplierBound_eq]

theorem seeksRoot_iff : M.SeeksRoot pos δ ↔ M'.SeeksRoot pos δ := by
  have seeks {M M' : Model ℝ n} (R : M.Rebased M')
      (verdict : (M.hardCase pos).1 = (M'.hardCase pos).1) (seeks : M.SeeksRoot pos δ) :
      M'.SeeksRoot pos δ := by
    refine ⟨fun fits => seeks.misfit (R.newtonFits_iff.2 fits),
      fun k completes => seeks.incomplete k ((R.completes_iff verdict).2 completes), ?_⟩
    by_contra flat
    unfold Sloped at flat
    push Not at flat
    exact seeks.sloped.not_flat (R.flat_iff.2 flat)
  exact ⟨seeks R verdict, seeks R.symm verdict.symm⟩

theorem firstMultiplier_eq : M.firstMultiplier pos = M'.firstMultiplier pos := by
  unfold firstMultiplier
  rw [verdict, R.multiplierBound_eq, R.greatest_eq]

theorem multiplier_eq (δ : ℝ) (i : Nat) : M.multiplier pos δ i = M'.multiplier pos δ i := by
  unfold multiplier
  rw [R.multiplierFrom_eq, R.firstMultiplier_eq verdict]

theorem settles_iff : M.Settles pos δ (M.firstMultiplier pos) tol i ↔
    M'.Settles pos δ (M'.firstMultiplier pos) tol i := by
  unfold Settles
  rw [R.multiplierFrom_eq, R.multiplierFrom_eq, R.firstMultiplier_eq verdict]

theorem endsAt (ends : M.EndsAt pos δ (M.firstMultiplier pos) tol more i) :
    M'.EndsAt pos δ (M'.firstMultiplier pos) tol more i where
  le := ends.le
  before := fun j lt settles => ends.before j lt ((R.settles_iff verdict).2 settles)
  last := ends.last.imp_left (R.settles_iff verdict).1

theorem endsInside_iff : M.EndsInside pos δ tol i ↔ M'.EndsInside pos δ tol i := by
  unfold EndsInside
  rw [R.settles_iff verdict, R.multiplier_eq verdict, R.multiplier_eq verdict, R.multiplierBound_eq,
    R.squaredLength_eq]

end Verdict

/-- Solutions that are not completed agree if they have the same step and the same report. -/
theorem solution_agrees {s s' : Vector ℝ n} {interior interior' reached reached' : Bool}
    {lam lam' : ℝ} {remark remark' : Option (Remark ℝ)} (step : s = s')
    (inside : interior = interior') (multiplier : lam = lam') (rest : reached = reached') :
    (M.solution s interior lam false reached remark).toProposal.Agrees
      (M'.solution s' interior' lam' false reached' remark').toProposal := by
  subst step inside multiplier rest
  -- The models differ, so the fields are compared and not the solutions.
  exact {
    hardCase := (rfl : false = false)
    interior := (rfl : interior = interior)
    reached := (rfl : reached = reached)
    lam := (rfl : lam = lam)
    step := fun _ => (rfl : Tensor.ofVector s = Tensor.ofVector s)
    m := fun _ => R.value_eq s }

/-- With the same verdict the same is reported, and the same step found unless it is completed. -/
theorem agrees (verdict : (M.hardCase pos).1 = (M'.hardCase pos).1)
    (route : M.Route pos δ tol more solution) (route' : M'.Route pos δ tol more solution') :
    solution.toProposal.Agrees solution'.toProposal := by
  cases route with
  | newton fits =>
    rw [route'.eq_newton (R.newtonFits_iff.1 fits)]
    refine R.solution_agrees ?_ rfl rfl rfl
    rw [newtonStep_eq, newtonStep_eq, R.stepAt_eq (NewtonFits.definite R.exact fits)]
  | eigenvector misfit completes =>
    rw [route'.eq_eigenvector (fun fits => misfit (R.newtonFits_iff.2 fits))
      ((R.completes_iff verdict).1 completes)]
    exact {
      hardCase := (rfl : true = true)
      interior := (rfl : false = false)
      reached := (rfl : true = true)
      lam := R.multiplierBound_eq
      step := nofun
      m := nofun }
  | stationary misfit incomplete flat =>
    rw [route'.eq_stationary (fun fits => misfit (R.newtonFits_iff.2 fits))
      (fun k completes => incomplete k ((R.completes_iff verdict).2 completes)) (R.flat_iff.1 flat)]
    exact ⟨rfl, rfl, rfl, rfl, fun _ => rfl, fun _ => rfl⟩
  | @boundary i seeks ends remark =>
    obtain ⟨i', remark', ends', rfl⟩ := route'.eq_boundary ((R.seeksRoot_iff verdict).1 seeks)
    obtain rfl : i = i' := (R.endsAt verdict ends).unique ends'
    refine R.solution_agrees ?_ (decide_eq_decide.2 (R.endsInside_iff verdict))
      (R.multiplier_eq verdict δ (i + 1)) (decide_eq_decide.2 (R.settles_iff verdict))
    rw [R.stepAt_eq (R.exact.definite_multiplier pos δ i), R.multiplier_eq verdict]

end Rebased

end Model

end TrustRegion
