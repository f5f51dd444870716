/-
  The multiplier regularizes the Hessian.

  Whatever is returned, the Hessian with the reported multiple of the identity added has no negative
  eigenvalue. A multiplier of zero is reported in two places: for a Newton step, which asks for
  eigenvalues that count as positive, and where the gradient is zero. By the time the gradient is
  looked at, a negative eigenvalue would have led to a step along its eigenvector, so there is none
  (`least_nonneg_of_flat`). All other multipliers lie at the bound or above it: the step along an
  eigenvector takes the bound itself, and root finding starts there or higher and never falls below
  it (`Finds.bound_le`). Apart from the eigenvalues, which have to be exact, this asks nothing of the
  factorizations, and nothing of the tolerance.
-/
import TrustRegion.Proofs.Factorizations
import TrustRegion.Proofs.OneVariable

namespace TrustRegion

namespace Model

variable {n : Nat} {M : Model ℝ n} {la : LinearAlgebra ℝ} {δ tol : ℝ} {pos : 0 < n}
  {iterations : Nat} {solution : Solution ℝ n}

theorem bound_le_of_boundarySolution {bound start : ℝ} (le : bound ≤ start)
    (returned : M.boundarySolution la δ (δ ^ 2) bound start tol iterations = .ok solution) :
    bound ≤ solution.outcome.lam := by
  unfold boundarySolution at returned
  obtain ⟨root, found, ended⟩ := exists_of_bind_eq_ok returned
  obtain rfl := Except.ok.inj ended
  exact (findRoot_eq_ok.1 found).bound_le le

/-- What is returned reports either zero, where that is enough, or a multiplier from the bound on. -/
theorem Exit.lam_cases (exit : M.Exit pos la δ tol iterations (.ok solution)) :
    solution.outcome.lam = 0 ∧ 0 ≤ M.least pos ∧ solution.outcome.hardCase = false ∧
        ¬ M.SeeksRoot pos δ ∨
      M.multiplierBound pos ≤ solution.outcome.lam := by
  generalize returned : Except.ok solution = result at exit
  cases exit with
  | newton fits =>
    obtain rfl := Except.ok.inj returned
    exact .inl ⟨rfl, definiteThreshold_pos.le.trans fits.1, rfl, fun seeks => seeks.misfit fits⟩
  | eigenvector misfit completes =>
    obtain rfl := Except.ok.inj returned
    exact .inr (le_refl _)
  | stationary misfit incomplete flat =>
    obtain rfl := Except.ok.inj returned
    exact .inl ⟨rfl, least_nonneg_of_flat incomplete flat, rfl,
      fun seeks => seeks.sloped.not_flat flat⟩
  | boundary seeks =>
    exact .inr (bound_le_of_boundarySolution (bound_le_firstMultiplier pos M) returned.symm)

theorem Exit.lifted_nonneg (exit : M.Exit pos la δ tol iterations (.ok solution)) (E : M.Exact)
    (j : Fin n) : 0 ≤ M.lifted solution.outcome.lam j := by
  rcases exit.lam_cases with ⟨zero, least, -, -⟩ | le
  · rw [zero]
    linarith [E.add_least_le_lifted pos 0 j]
  · exact (E.definite le j).le

/-- A step along an eigenvector and a step of root finding report a multiplier from the bound on. -/
theorem Exit.bound_le (exit : M.Exit pos la δ tol iterations (.ok solution))
    (raised : solution.outcome.hardCase = true ∨ M.SeeksRoot pos δ) :
    M.multiplierBound pos ≤ solution.outcome.lam := by
  rcases exit.lam_cases with ⟨-, -, easy, none_sought⟩ | le
  · rcases raised with hard | seeks
    · rw [easy] at hard
      cases hard
    · exact absurd seeks none_sought
  · exact le

end Model

/-! ## The solver -/

section Solver

variable {n : Nat} {la : LinearAlgebra ℝ} {checked : Bool} {g : Vector ℝ n} {H : SquareMatrix ℝ n}
  {δ tol : ℝ} {iterations : Int} {proposal : Proposal ℝ}

/--
The symmetric part of the Hessian plus the reported multiple of the identity has no negative
eigenvalue. In the hard case and wherever a root is looked for, found or not, the multiplier does
not lie below the bound, and every eigenvalue is at least the margin.
-/
theorem multiplier_regularizes (spectra : la.ExactSpectra) (pos : 0 < n)
    (returned : proposeStep la checked (.ofVector g) (.ofSquare H) δ [n] tol iterations =
      .ok proposal) :
    (H.symmetricPart.shift proposal.outcome.lam).toMatrix.PosSemidef ∧
    ∃ M : Model ℝ n, Model.ofDerivatives la g H = .ok M ∧
      (proposal.outcome.hardCase = true ∨ M.SeeksRoot pos δ →
        M.multiplierBound pos ≤ proposal.outcome.lam ∧
        ∀ e ∈ spectrum ℝ (H.symmetricPart.shift proposal.outcome.lam).toMatrix,
          M.margin pos ≤ e) := by
  obtain ⟨M, solution, modelled, E, hessian, exit, rfl⟩ := exists_exit spectra pos returned
  rw [← hessian]
  refine ⟨E.posSemidef_shift (exit.lifted_nonneg E), M, modelled, fun raised => ?_⟩
  have le : M.multiplierBound pos ≤ solution.outcome.lam := exit.bound_le raised
  refine ⟨le, fun e mem => ?_⟩
  rw [E.diagonalizes.spectrum_shift] at mem
  obtain ⟨j, rfl⟩ := mem
  exact E.margin_le_lifted le j

/-- A tolerance of zero is never met, so root finding uses up its iterations. -/
theorem multiplier_regularizes_exhausted : ∃ proposal : Proposal ℝ,
    LinearAlgebra.exact.ExactSpectra ∧
    proposeStep LinearAlgebra.exact false (.ofVector #v[1]) (.ofSquare #v[#v[-1]]) 1 [1] 0 3 =
      .ok proposal ∧
    proposal.outcome.reached = false ∧
    ((SquareMatrix.symmetricPart #v[#v[-1]]).shift proposal.outcome.lam).toMatrix.PosSemidef ∧
    ∃ M : Model ℝ 1, Model.ofDerivatives LinearAlgebra.exact #v[1] #v[#v[-1]] = .ok M ∧
      M.SeeksRoot Nat.one_pos 1 ∧ M.multiplierBound Nat.one_pos ≤ proposal.outcome.lam ∧
      ∀ e ∈ spectrum ℝ ((SquareMatrix.symmetricPart #v[#v[-1]]).shift
        proposal.outcome.lam).toMatrix, M.margin Nat.one_pos ≤ e := by
  classical
  have spectra : LinearAlgebra.exact.ExactSpectra := LinearAlgebra.exact_exact.exactSpectra
  have noticed : (tieThreshold : ℝ) < |1| := by norm_num [tieThreshold_eq]
  obtain ⟨M, solution, L, returned, route⟩ := exists_line LinearAlgebra.exact_exact 1 (-1) one_pos
    0 (by norm_num : (1 : Int) ≤ 3)
  have seeks : M.SeeksRoot Nat.one_pos 1 := (L.seeksRoot neg_one_lt_zero noticed).2
  obtain ⟨i, remark, -, rfl⟩ := route.eq_boundary seeks
  have exhausted : ¬ M.Settles Nat.one_pos 1 (M.firstMultiplier Nat.one_pos) 0 i :=
    (abs_nonneg _).not_gt
  obtain ⟨regular, M', modelled, raised⟩ := multiplier_regularizes spectra Nat.one_pos returned
  obtain ⟨E', gradient, hessian⟩ := Model.exact_of_ofDerivatives spectra modelled
  have L' : M'.Line 1 (-1) := ⟨E', gradient, hessian⟩
  have seeks' : M'.SeeksRoot Nat.one_pos 1 := (L'.seeksRoot neg_one_lt_zero noticed).2
  exact ⟨_, spectra, returned, decide_eq_false exhausted, regular, M', modelled, seeks',
    raised (Or.inr seeks')⟩

end Solver

end TrustRegion
