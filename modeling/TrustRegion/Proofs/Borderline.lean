/-
  When the test for the hard case depends on the eigenvectors.

  The test compares every tied projection with its threshold on its own, and only their squared
  sums over each eigenvalue are determined by the gradient and the Hessian. A gradient is borderline
  if in no tied eigenspace its part is too long to be spread out below the threshold, and in some one
  it is long enough to exceed the threshold when it lies along a single eigenvector. Then, and only
  then, do the eigenvectors decide (`Rebased.verdict_eq`, `Exact.exists_hard`, `Exact.exists_easy`).
  Any two runs on a gradient that is not borderline agree (`proposals_agree`); `borderline_proposals`
  is a pair of runs that do not.
-/
import TrustRegion.Proofs.Rotations
import TrustRegion.Proofs.Completion

namespace TrustRegion

open Matrix

variable {n : Nat}

namespace Model

variable {M M' : Model ℝ n} {pos : 0 < n} {δ tol : ℝ} {more : Nat} {solution : Solution ℝ n}

/-- How often an eigenvalue occurs. -/
noncomputable def multiplicity (M : Model ℝ n) (e : ℝ) : Nat :=
  (Finset.univ.filter fun j => M.spectrum.eigenvalues j = e).card

/-- Whether the gradient is negligible along every tied eigenvector depends on their choice. -/
structure Borderline (pos : 0 < n) (M : Model ℝ n) : Prop where
  /-- The smallest eigenvalue is negative. -/
  negative : M.least pos < 0
  /-- No tied eigenspace has more of the gradient than fits below the threshold. -/
  fits : ∀ j, M.Tied pos (M.spectrum.eigenvalues j) → M.share (M.spectrum.eigenvalues j) ≤
    M.multiplicity (M.spectrum.eigenvalues j) * tieThreshold ^ 2
  /-- Some tied eigenspace has more of it than fits along one eigenvector. -/
  exceeds : ∃ j, M.Tied pos (M.spectrum.eigenvalues j) ∧
    tieThreshold ^ 2 < M.share (M.spectrum.eigenvalues j)

theorem sq_le_share (M : Model ℝ n) (j : Fin n) :
    M.projections j ^ 2 ≤ M.share (M.spectrum.eigenvalues j) :=
  sq_le_classSum M.spectrum.eigenvalues.get M.projections.get j

theorem share_nonneg (M : Model ℝ n) (j : Fin n) : 0 ≤ M.share (M.spectrum.eigenvalues j) :=
  (sq_nonneg _).trans (M.sq_le_share j)

theorem multiplicity_pos (M : Model ℝ n) (j : Fin n) :
    0 < M.multiplicity (M.spectrum.eigenvalues j) :=
  Finset.card_pos.2 ⟨j, Finset.mem_filter.2 ⟨Finset.mem_univ j, rfl⟩⟩

/-- The sum over an eigenvalue of what is the same for all its eigenvectors. -/
theorem classSum_eigenvalues (M : Model ℝ n) (f : ℝ → ℝ) (e : ℝ) :
    classSum M.spectrum.eigenvalues.get (f ∘ M.spectrum.eigenvalues.get) e =
      M.multiplicity e * f e := by
  unfold classSum multiplicity
  rw [← nsmul_eq_mul, ← Finset.sum_const, Finset.sum_filter]
  refine Finset.sum_congr rfl fun k _ => ?_
  by_cases same : M.spectrum.eigenvalues.get k = e
  · rw [if_pos same, if_pos same, Function.comp_apply, same]
  · rw [if_neg same, if_neg same]

/-- Projections below the threshold make up no more than its square for each of them. -/
theorem share_le {e : ℝ}
    (small : ∀ j, M.spectrum.eigenvalues j = e → |M.projections j| ≤ tieThreshold) :
    M.share e ≤ M.multiplicity e * tieThreshold ^ 2 := by
  rw [← M.classSum_eigenvalues fun _ => tieThreshold ^ 2]
  unfold share classSum
  refine Finset.sum_le_sum fun k _ => ?_
  by_cases same : M.spectrum.eigenvalues.get k = e
  · rw [if_pos same, if_pos same]
    exact sq_le_sq' (neg_le_of_abs_le (small k same)) (le_of_abs_le (small k same))
  · rw [if_neg same, if_neg same]

/-! ## Different verdicts -/

namespace Rebased

variable (R : M.Rebased M')
include R

theorem multiplicity_eq (e : ℝ) : M.multiplicity e = M'.multiplicity e := by
  unfold multiplicity
  rw [R.eigenvalues]

theorem borderline_iff : M.Borderline pos ↔ M'.Borderline pos := by
  have carried {M M' : Model ℝ n} (R : M.Rebased M') (b : M.Borderline pos) :
      M'.Borderline pos := by
    have negative := b.negative
    have fits := b.fits
    have exceeds := b.exceeds
    simp only [R.least_eq, R.tied_iff, R.eigenvalues, R.share_eq, R.multiplicity_eq]
      at negative fits exceeds
    exact ⟨negative, fits, exceeds⟩
  exact ⟨carried R, carried R.symm⟩

/-- Two verdicts on one gradient show that it is borderline. -/
theorem borderline (hard : (M.hardCase pos).1 = true) (easy : (M'.hardCase pos).1 = false) :
    M.Borderline pos := by
  obtain ⟨negative, small⟩ := R.exact.hardCase_iff.1 hard
  refine ⟨negative, fun j tied => share_le fun k same => small k (same ▸ tied), ?_⟩
  by_contra short
  push Not at short
  have hard' : (M'.hardCase pos).1 = true := by
    refine R.exact'.hardCase_iff.2 ⟨R.least_eq ▸ negative, fun j tied => ?_⟩
    have bound := short j (by rwa [R.tied_iff, R.eigenvalues])
    rw [R.share_eq, R.eigenvalues] at bound
    exact abs_le_of_sq_le_sq ((M'.sq_le_share j).trans bound) tieThreshold_pos.le
  rw [easy] at hard'
  cases hard'

/-- Unless the gradient is borderline, the verdict is the same for all eigenvectors. -/
theorem verdict_eq (clear : ¬ M.Borderline pos) : (M.hardCase pos).1 = (M'.hardCase pos).1 := by
  cases verdict : (M.hardCase pos).1 <;> cases verdict' : (M'.hardCase pos).1
  · rfl
  · exact absurd (R.borderline_iff.2 (R.symm.borderline verdict' verdict)) clear
  · exact absurd (R.borderline verdict verdict') clear
  · rfl

end Rebased

/-! ## Both verdicts -/

/-- The projections when the gradient is spread out evenly within every eigenspace. -/
noncomputable def spread (M : Model ℝ n) (e : ℝ) : ℝ := √(M.share e / M.multiplicity e)

/-- The projections when the part of the gradient in one eigenspace lies along eigenvector `l`. -/
noncomputable def gathered (M : Model ℝ n) (l k : Fin n) : ℝ :=
  if k = l then √(M.share (M.spectrum.eigenvalues l))
  else if M.spectrum.eigenvalues k = M.spectrum.eigenvalues l then 0
  else M.projections k

theorem gathered_self (M : Model ℝ n) (l : Fin n) :
    M.gathered l l = √(M.share (M.spectrum.eigenvalues l)) := if_pos rfl

theorem gathered_apart {l k : Fin n}
    (apart : M.spectrum.eigenvalues k ≠ M.spectrum.eigenvalues l) :
    M.gathered l k = M.projections k := by
  have other : k ≠ l := fun equal => apart (congrArg _ equal)
  exact (if_neg other).trans (if_neg apart)

theorem share_eq_spread (M : Model ℝ n) (j : Fin n) : M.share (M.spectrum.eigenvalues j) =
    classSum M.spectrum.eigenvalues.get ((M.spread ∘ M.spectrum.eigenvalues.get) ^ 2)
      (M.spectrum.eigenvalues j) := by
  have count : (M.multiplicity (M.spectrum.eigenvalues j) : ℝ) ≠ 0 :=
    Nat.cast_ne_zero.2 (M.multiplicity_pos j).ne'
  have squares : (M.spread ∘ M.spectrum.eigenvalues.get) ^ 2 =
      (M.spread ^ 2) ∘ M.spectrum.eigenvalues.get := rfl
  rw [squares, M.classSum_eigenvalues, Pi.pow_apply, spread,
    Real.sq_sqrt (div_nonneg (M.share_nonneg j) (Nat.cast_nonneg _)), mul_div_cancel₀ _ count]

theorem share_eq_gathered (M : Model ℝ n) (l j : Fin n) : M.share (M.spectrum.eigenvalues j) =
    classSum M.spectrum.eigenvalues.get (M.gathered l ^ 2) (M.spectrum.eigenvalues j) := by
  by_cases near : M.spectrum.eigenvalues j = M.spectrum.eigenvalues l
  · -- All of the part lies along `l`.
    have single (k : Fin n) : (if M.spectrum.eigenvalues k = M.spectrum.eigenvalues l then
        (M.gathered l ^ 2) k else 0) =
        if k = l then M.share (M.spectrum.eigenvalues l) else 0 := by
      rw [Pi.pow_apply]
      by_cases here : k = l
      · rw [here, if_pos rfl, if_pos rfl, gathered_self, Real.sq_sqrt (M.share_nonneg l)]
      · rw [if_neg here]
        split
        · next beside =>
          rw [gathered, if_neg here, if_pos beside, zero_pow two_ne_zero]
        · rfl
    rw [near, classSum, Finset.sum_congr rfl fun k _ => single k, Finset.sum_ite_eq' Finset.univ l,
      if_pos (Finset.mem_univ l)]
  · unfold share classSum
    refine Finset.sum_congr rfl fun k _ => ?_
    by_cases here : M.spectrum.eigenvalues k = M.spectrum.eigenvalues j
    · rw [if_pos here, if_pos here, Pi.pow_apply, Pi.pow_apply, gathered_apart (here ▸ near)]
    · rw [if_neg here, if_neg here]

/-- Spread out over its eigenspaces, a borderline gradient is negligible. -/
theorem Exact.exists_hard (E : M.Exact) (b : M.Borderline pos) :
    ∃ M', M.Rebased M' ∧ (M'.hardCase pos).1 = true := by
  obtain ⟨M', R, projections⟩ := E.exists_rebased M.share_eq_spread
  refine ⟨M', R, R.exact'.hardCase_iff.2 ⟨R.least_eq ▸ b.negative, fun j tied => ?_⟩⟩
  rw [← R.eigenvalues, ← R.tied_iff] at tied
  rw [projections, Function.comp_apply, spread, abs_of_nonneg (Real.sqrt_nonneg _)]
  refine Real.sqrt_le_iff.2 ⟨tieThreshold_pos.le, ?_⟩
  rw [div_le_iff₀ (Nat.cast_pos.2 (M.multiplicity_pos j)), mul_comm]
  exact b.fits j tied

/-- Along a single eigenvector of some eigenvalue, a borderline gradient is not negligible. -/
theorem Exact.exists_easy (E : M.Exact) (b : M.Borderline pos) :
    ∃ M', M.Rebased M' ∧ (M'.hardCase pos).1 = false := by
  obtain ⟨l, tied, exceeds⟩ := b.exceeds
  obtain ⟨M', R, projections⟩ := E.exists_rebased (M.share_eq_gathered l)
  refine ⟨M', R, Bool.eq_false_iff.2 fun hard => ?_⟩
  have small := (R.exact'.hardCase_iff.1 hard).2 l (by rwa [← R.tied_iff, ← R.eigenvalues])
  rw [projections, gathered_self, abs_of_nonneg (Real.sqrt_nonneg _), Real.sqrt_le_iff] at small
  exact absurd exceeds (not_lt.2 small.2)

/-- The solution is not completed if the verdict is against it. -/
theorem Route.hardCase_eq_false (route : M.Route pos δ tol more solution)
    (easy : (M.hardCase pos).1 = false) : solution.outcome.hardCase = false := by
  cases route with
  | newton => rfl
  | eigenvector misfit completes =>
    rw [completes.hard] at easy
    cases easy
  | stationary => rfl
  | boundary => rfl

end Model

/-! ## Two runs -/

section Solver

variable {la la' : LinearAlgebra ℝ} {checked : Bool} {g : Vector ℝ n} {H : SquareMatrix ℝ n} {δ : ℝ}
  {iterations : Int}

/--
Two runs with different exact factorizations both return. Unless the gradient is borderline they
report the same multiplier, the same about the region, the same way the step was found and whether
it came to rest; and unless it is completed along an eigenvector, the step is the same too. That is
so whenever both have come to the same verdict on the hard case. If the gradient is not borderline,
all exact factorizations come to the same verdict; if it is, there are some for either verdict.
-/
theorem proposals_agree (exact_la : la.Exact) (exact_la' : la'.Exact) (pos : 0 < n)
    (delta_pos : 0 < δ) (tol : ℝ) (some_iteration : 1 ≤ iterations)
    (admitted : checkModel checked (.ofVector g) (.ofSquare H) = .ok ()) :
    ∃ (M M' : Model ℝ n) (p p' : Proposal ℝ),
      Model.ofDerivatives la g H = .ok M ∧ Model.ofDerivatives la' g H = .ok M' ∧
      proposeStep la checked (.ofVector g) (.ofSquare H) δ [n] tol iterations = .ok p ∧
      proposeStep la' checked (.ofVector g) (.ofSquare H) δ [n] tol iterations = .ok p' ∧
      (¬ M.Borderline pos → p.Agrees p') ∧
      ((M.hardCase pos).1 = (M'.hardCase pos).1 → p.Agrees p') ∧
      (¬ M.Borderline pos → ∀ la₁ : LinearAlgebra ℝ, la₁.Exact →
        ∀ M₁, Model.ofDerivatives la₁ g H = .ok M₁ → (M₁.hardCase pos).1 = (M.hardCase pos).1) ∧
      (M.Borderline pos → ∃ la₁ la₂ : LinearAlgebra ℝ, la₁.Exact ∧ la₂.Exact ∧
        ∃ M₁ M₂, Model.ofDerivatives la₁ g H = .ok M₁ ∧ Model.ofDerivatives la₂ g H = .ok M₂ ∧
          (M₁.hardCase pos).1 = true ∧ (M₂.hardCase pos).1 = false) := by
  obtain ⟨-, p, -, -, -, -, returned⟩ :=
    proposeStep_route exact_la pos delta_pos tol some_iteration admitted
  obtain ⟨-, p', -, -, -, -, returned'⟩ :=
    proposeStep_route exact_la' pos delta_pos tol some_iteration admitted
  obtain ⟨-, M, solution, modelled, E, gradient, hessian, route, found⟩ :=
    exists_route exact_la pos returned
  obtain ⟨-, M', solution', modelled', -, -, -, route', found'⟩ :=
    exists_route exact_la' pos returned'
  have rebased {la₁ : LinearAlgebra ℝ} (exact₁ : la₁.Exact) {M₁ : Model ℝ n}
      (modelled₁ : Model.ofDerivatives la₁ g H = .ok M₁) : M.Rebased M₁ := by
    obtain ⟨E₁, gradient₁, hessian₁⟩ :=
      Model.exact_of_ofDerivatives exact₁.exactSpectra modelled₁
    exact ⟨E, E₁, gradient.trans gradient₁.symm, hessian.trans hessian₁.symm⟩
  have R : M.Rebased M' := rebased exact_la' modelled'
  have agree (verdict : (M.hardCase pos).1 = (M'.hardCase pos).1) :
      p.toProposal.Agrees p'.toProposal := by
    rw [found, found']
    exact R.agrees verdict route route'
  refine ⟨M, M', _, _, modelled, modelled', returned, returned',
    fun clear => agree (R.verdict_eq clear), agree, ?_, fun b => ?_⟩
  · intro clear la₁ exact₁ M₁ modelled₁
    exact ((rebased exact₁ modelled₁).verdict_eq clear).symm
  · obtain ⟨M₁, R₁, hard⟩ := E.exists_hard b
    obtain ⟨M₂, R₂, easy⟩ := E.exists_easy b
    obtain ⟨la₁, exact₁, modelled₁⟩ :=
      R₁.exact'.exists_ofDerivatives (R₁.hessian.symm.trans hessian)
    obtain ⟨la₂, exact₂, modelled₂⟩ :=
      R₂.exact'.exists_ofDerivatives (R₂.hessian.symm.trans hessian)
    rw [← R₁.gradient, gradient] at modelled₁
    rw [← R₂.gradient, gradient] at modelled₂
    exact ⟨la₁, la₂, exact₁, exact₂, M₁, M₂, modelled₁, modelled₂, hard, easy⟩

end Solver

/-! ## A dome -/

/-- The Hessian that curves down by one in every direction of the plane. -/
noncomputable def dome : SquareMatrix ℝ 2 := .ofFn fun i j => if i = j then -1 else 0

/-- Along the axes the projections are the entries of the gradient. -/
theorem ofDerivatives_dome (g : Vector ℝ 2) : ∃ M, Model.ofDerivatives .axisAligned g dome = .ok M ∧
    M.Exact ∧ M.gradient = g ∧ M.hessian = dome.symmetricPart ∧
    M.spectrum.eigenvalues = #v[-1, -1] ∧ M.projections = g := by
  have diagonal_eq : dome.toMatrix = diagonal (#v[-1, -1] : Vector ℝ 2).get := by
    ext i j
    fin_cases i <;> fin_cases j <;> rfl
  have ascending : Monotone (#v[-1, -1] : Vector ℝ 2).get := by
    refine Fin.monotone_iff_le_succ.2 fun i => ?_
    fin_cases i
    exact le_refl (-1 : ℝ)
  obtain ⟨M, modelled, values, projections⟩ :=
    Model.ofDerivatives_axisAligned diagonal_eq ascending g
  obtain ⟨E, gradient, hessian⟩ :=
    Model.exact_of_ofDerivatives LinearAlgebra.axisAligned_exact.exactSpectra modelled
  exact ⟨M, modelled, E, gradient, hessian, values, projections⟩

section Dome

variable {M : Model ℝ 2} (values : M.spectrum.eigenvalues = #v[-1, -1])
include values

theorem eigenvalues_dome (j : Fin 2) : M.spectrum.eigenvalues j = -1 := by
  rw [values]
  fin_cases j <;> rfl

theorem borderline_dome_iff : M.Borderline two_pos ↔
    M.projections 0 ^ 2 + M.projections 1 ^ 2 ≤ 2 * tieThreshold ^ 2 ∧
      tieThreshold ^ 2 < M.projections 0 ^ 2 + M.projections 1 ^ 2 := by
  have eigenvalue := eigenvalues_dome values
  have least : M.least two_pos = -1 := eigenvalue 0
  have tied : M.Tied two_pos (-1) := by
    rw [Model.Tied, least, sub_self, abs_zero]
    exact tieThreshold_pos.le
  have share : M.share (-1) = M.projections 0 ^ 2 + M.projections 1 ^ 2 := by
    have all (k : Fin 2) : (if M.spectrum.eigenvalues k = -1 then (M.projections.get ^ 2) k else 0) =
        M.projections k ^ 2 := if_pos (eigenvalue k)
    rw [Model.share, classSum, Finset.sum_congr rfl fun k _ => all k, Fin.sum_univ_two]
  have count : M.multiplicity (-1) = 2 := by
    rw [Model.multiplicity, Finset.filter_true_of_mem fun k _ => eigenvalue k]
    rfl
  constructor
  · intro b
    have fits := b.fits 0
    obtain ⟨j, -, exceeds⟩ := b.exceeds
    rw [eigenvalue, share, count] at fits
    rw [eigenvalue, share] at exceeds
    exact ⟨fits tied, exceeds⟩
  · rintro ⟨fits, exceeds⟩
    refine ⟨by rw [least]; norm_num, fun j _ => ?_, 0, ?_, ?_⟩
    · rw [eigenvalue, share, count]
      exact fits
    · rw [eigenvalue]
      exact tied
    · rw [eigenvalue, share]
      exact exceeds

end Dome

/-- A strong gradient is treated alike along the axes and along its own direction. -/
theorem proposals_agree_dome : ∃ (la : LinearAlgebra ℝ) (M M' : Model ℝ 2) (p p' : Proposal ℝ),
    LinearAlgebra.axisAligned.Exact ∧ la.Exact ∧
    Model.ofDerivatives .axisAligned #v[3, 4] dome = .ok M ∧
    Model.ofDerivatives la #v[3, 4] dome = .ok M' ∧ M.projections 1 = 4 ∧ M'.projections 1 = 0 ∧
    proposeStep .axisAligned false (.ofVector #v[3, 4]) (.ofSquare dome) 1 [2] 1e-10 5 = .ok p ∧
    proposeStep la false (.ofVector #v[3, 4]) (.ofSquare dome) 1 [2] 1e-10 5 = .ok p' ∧
    p.Agrees p' ∧ (M'.hardCase two_pos).1 = (M.hardCase two_pos).1 := by
  obtain ⟨M, modelled, E, gradient, hessian, values, projections⟩ := ofDerivatives_dome #v[3, 4]
  obtain ⟨M', R, gathered⟩ := E.exists_rebased (M.share_eq_gathered 0)
  obtain ⟨la, exact_la, modelled'⟩ := R.exact'.exists_ofDerivatives (R.hessian.symm.trans hessian)
  rw [← R.gradient, gradient] at modelled'
  have admitted : checkModel false (.ofVector #v[3, 4]) (.ofSquare dome) = .ok () :=
    if_neg Bool.false_ne_true
  obtain ⟨N, N', p, p', found, -, returned, returned', agree, -, verdict, -⟩ :=
    proposals_agree LinearAlgebra.axisAligned_exact exact_la two_pos one_pos 1e-10
      (by norm_num : (1 : Int) ≤ 5) admitted
  obtain rfl : M = N := Except.ok.inj (modelled.symm.trans found)
  have zeroth : M.projections 0 = 3 := by
    rw [projections]
    rfl
  have first : M.projections 1 = 4 := by
    rw [projections]
    rfl
  have clear : ¬ M.Borderline two_pos := by
    rw [borderline_dome_iff values, zeroth, first, tieThreshold_eq]
    norm_num
  have turned : M'.projections 1 = 0 := by
    have same : M.spectrum.eigenvalues 1 = M.spectrum.eigenvalues 0 := by
      rw [eigenvalues_dome values, eigenvalues_dome values]
    rw [gathered, Model.gathered, if_neg (by decide), if_pos same]
  exact ⟨la, M, M', p, p', LinearAlgebra.axisAligned_exact, exact_la, modelled, modelled', first,
    turned, returned, returned', agree clear, verdict clear la exact_la M' modelled'⟩

/-- A weak gradient is the hard case along the axes, and not along its own direction. -/
theorem borderline_proposals : ∃ (la : LinearAlgebra ℝ) (p p' : Proposal ℝ),
    LinearAlgebra.axisAligned.Exact ∧ la.Exact ∧
    proposeStep .axisAligned false (.ofVector #v[9e-11, 9e-11]) (.ofSquare dome) 1 [2] 1e-10 5 =
      .ok p ∧
    proposeStep la false (.ofVector #v[9e-11, 9e-11]) (.ofSquare dome) 1 [2] 1e-10 5 = .ok p' ∧
    p.outcome.hardCase = true ∧ p'.outcome.hardCase = false := by
  obtain ⟨M, modelled, E, gradient, hessian, values, projections⟩ :=
    ofDerivatives_dome #v[9e-11, 9e-11]
  have entry (j : Fin 2) : M.projections j = 9e-11 := by
    rw [projections]
    fin_cases j <;> rfl
  have eigenvalue := eigenvalues_dome values
  have least : M.least two_pos = -1 := eigenvalue 0
  have completes : M.Completes two_pos 1 2 := by
    refine completes_of_negligible (by rw [least]; norm_num) (fun j => ?_) 1
    rw [HardCase.Negligible, least, eigenvalue, entry, sub_self, abs_zero, tieThreshold_eq]
    norm_num [abs_of_pos]
  obtain ⟨p, returned, hard, -⟩ := exists_completed_proposal LinearAlgebra.axisAligned_exact modelled
    one_pos completes 1e-10 (by norm_num : (1 : Int) ≤ 5)
  have borderline : M.Borderline two_pos := by
    rw [borderline_dome_iff values, entry, entry, tieThreshold_eq]
    norm_num
  obtain ⟨M', R, easy⟩ := E.exists_easy borderline
  obtain ⟨la, exact_la, modelled'⟩ := R.exact'.exists_ofDerivatives (R.hessian.symm.trans hessian)
  rw [← R.gradient, gradient] at modelled'
  obtain ⟨p', returned'⟩ := proposeStep_total exact_la two_pos #v[9e-11, 9e-11] dome one_pos 1e-10
    (by norm_num : (1 : Int) ≤ 5)
  obtain ⟨-, N, solution, found, -, -, -, route, rfl⟩ := exists_route exact_la two_pos returned'
  obtain rfl : M' = N := Except.ok.inj (modelled'.symm.trans found)
  exact ⟨la, p, _, LinearAlgebra.axisAligned_exact, exact_la, returned, returned', hard,
    route.hardCase_eq_false easy⟩

end TrustRegion
