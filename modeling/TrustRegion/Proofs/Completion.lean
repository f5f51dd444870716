/-
  Steps completed along an eigenvector.

  In the hard case the step goes to the boundary along the first eigenvector, whichever way that
  one points. What the curvature and the other components gain is `Model.completedGain`; the slope
  along the eigenvector, which need only be negligible and not zero, is gained or lost by the
  direction (`completed_step_value`). So the step can go uphill, by less than the threshold for
  projections times the radius, and it does where the curvature is weak enough
  (`completed_step_uphill`). Up to the two thresholds it is as good as any step in the region
  (`completed_step_near_optimal`).
-/
import TrustRegion.Proofs.CompletedStep
import TrustRegion.Proofs.Factorizations

namespace TrustRegion

open Matrix

variable {n : Nat}

namespace Model

variable {M : Model ℝ n} {lam δ tol : ℝ} {pos : 0 < n} {k more : Nat} {solution : Solution ℝ n}

/-! ## The route -/

/-- Where the step can be completed, it is. -/
theorem Route.hardCase_of_completes (route : M.Route pos δ tol more solution)
    (completes : M.Completes pos δ k) : solution.outcome.hardCase = true := by
  cases route with
  | newton fits => exact absurd fits (not_newtonFits_of_hard completes.hard)
  | eigenvector misfit completes => rfl
  | stationary misfit incomplete flat => exact absurd completes (incomplete k)
  | boundary seeks ends remark => exact absurd completes (seeks.incomplete k)

end Model

/-! ## The solver -/

section Solver

variable {la : LinearAlgebra ℝ} {checked : Bool} {g : Vector ℝ n} {H : SquareMatrix ℝ n} {δ tol : ℝ}
  {iterations : Int} {proposal : Proposal ℝ}

/-- A step that can be completed is proposed as the hard case. -/
theorem exists_completed_proposal (exact_la : la.Exact) {pos : 0 < n} {M : Model ℝ n} {k : Nat}
    (modelled : Model.ofDerivatives la g H = .ok M) (delta_pos : 0 < δ)
    (completes : M.Completes pos δ k) (tol : ℝ) (some_iteration : 1 ≤ iterations) :
    ∃ proposal, proposeStep la false (.ofVector g) (.ofSquare H) δ [n] tol iterations =
        .ok proposal ∧ proposal.outcome.hardCase = true ∧
      proposal.outcome.m =
        M.projections ⟨0, pos⟩ * M.reach pos δ k - M.completedGain pos δ k / 2 := by
  obtain ⟨proposal, returned⟩ := proposeStep_total exact_la pos g H delta_pos tol some_iteration
  obtain ⟨-, M', solution, modelled', E, -, -, route, rfl⟩ := exists_route exact_la pos returned
  obtain rfl : M = M' := Except.ok.inj (modelled.symm.trans modelled')
  have hard := route.hardCase_of_completes completes
  obtain ⟨k', completes', step⟩ := route.exists_completes hard
  obtain rfl : k = k' := (Prod.mk.inj (completes.1.symm.trans completes'.1)).2
  refine ⟨_, returned, hard, ?_⟩
  rw [← E.value_completed delta_pos completes, ← step]
  exact route.m_eq

/-- Where all eigenvalues are tied and all projections negligible, the step can be completed. -/
theorem completes_of_negligible {M : Model ℝ n} {pos : 0 < n} (concave : M.least pos < 0)
    (negligible : ∀ j, HardCase.Negligible (M.least pos) (M.spectrum.eigenvalues j, M.projections j))
    (δ : ℝ) : M.Completes pos δ n := by
  refine ⟨Model.hardCase_of_block concave le_rfl (fun j _ => negligible j) fun j last => ?_, ?_⟩
  · exact absurd last j.isLt.ne
  · rw [Model.squaredLength_of_le le_rfl]
    positivity

/-- In one variable a negative curvature and a negligible slope are the hard case. -/
theorem completes_oneVariable {M : Model ℝ 1} (concave : M.least Nat.one_pos < 0)
    (negligible : |M.projections 0| ≤ tieThreshold) (δ : ℝ) : M.Completes Nat.one_pos δ 1 := by
  refine completes_of_negligible concave (fun j => ?_) δ
  have same : M.least Nat.one_pos - M.spectrum.eigenvalues 0 = 0 := sub_self _
  rw [Fin.fin_one_eq_zero j, HardCase.Negligible, same, abs_zero]
  exact ⟨tieThreshold_pos.le, negligible⟩

/-- The first two of three eigenvalues are tied, and the gradient belongs to the third. -/
theorem completes_repeated {M : Model ℝ 3} (values : M.spectrum.eigenvalues = #v[-1, -1, 2])
    (projections : M.projections = #v[0, 0, 1]) : M.Completes three_pos 1 2 := by
  have least : M.least three_pos = -1 := by
    rw [Model.least, values]
    rfl
  have third : M.spectrum.eigenvalues 2 = 2 := by
    rw [values]
    rfl
  refine ⟨Model.hardCase_of_block ?_ (by decide) (fun j tied => ?_) fun j last => ?_, ?_⟩
  · rw [least]
    norm_num
  · have entries : M.spectrum.eigenvalues j = -1 ∧ M.projections j = 0 := by
      rw [values, projections]
      fin_cases j
      · exact ⟨rfl, rfl⟩
      · exact ⟨rfl, rfl⟩
      · exact absurd tied (by decide)
    rw [least, entries.1, entries.2, HardCase.Negligible, sub_self, abs_zero]
    exact ⟨tieThreshold_pos.le, tieThreshold_pos.le⟩
  · obtain rfl : j = 2 := Fin.ext last
    rw [least, third, tieThreshold_eq]
    norm_num
  · have lifted : 1 ≤ M.lifted (M.multiplierBound three_pos) 2 := by
      rw [Model.lifted, Model.multiplierBound_eq, least, third]
      linarith [Model.margin_pos three_pos M]
    have slope : M.projections 2 = 1 := by
      rw [projections]
      rfl
    have length : M.squaredLength (M.multiplierBound three_pos) 2 =
        1 / M.lifted (M.multiplierBound three_pos) 2 ^ 2 := by
      rw [Model.squaredLength_eq, Fin.sum_univ_three, if_neg (by decide), if_neg (by decide),
        if_pos (by decide), zero_add, zero_add, slope, one_pow]
    rw [length, one_pow]
    exact div_le_one_of_le₀ (one_le_pow₀ lifted) (by positivity)

theorem exists_repeated_proposal : ∃ proposal,
    proposeStep LinearAlgebra.axisAligned false (.ofVector #v[0, 0, 1])
      (.ofSquare #v[#v[-1, 0, 0], #v[0, -1, 0], #v[0, 0, 2]]) 1 [3] 1e-10 5 = .ok proposal ∧
    proposal.outcome.hardCase = true := by
  have diagonal_eq : SquareMatrix.toMatrix #v[#v[-1, 0, 0], #v[0, -1, 0], #v[0, 0, 2]] =
      diagonal (#v[-1, -1, 2] : Vector ℝ 3).get := by
    ext i j
    fin_cases i <;> fin_cases j <;> rfl
  have ascending : Monotone (#v[-1, -1, 2] : Vector ℝ 3).get := by
    refine Fin.monotone_iff_le_succ.2 fun i => ?_
    fin_cases i
    · exact le_refl (-1 : ℝ)
    · show (-1 : ℝ) ≤ 2
      norm_num
  obtain ⟨M, modelled, values, projections⟩ :=
    Model.ofDerivatives_axisAligned diagonal_eq ascending #v[0, 0, 1]
  obtain ⟨proposal, returned, hard, -⟩ := exists_completed_proposal
    LinearAlgebra.axisAligned_exact modelled one_pos (completes_repeated values projections) 1e-10
    (by norm_num : (1 : Int) ≤ 5)
  exact ⟨proposal, returned, hard⟩

/--
The value of the model in the hard case. It is not positive if the curvature along the first
eigenvector outweighs the slope, and never exceeds the threshold for projections times the radius.
-/
theorem completed_step_value (exact_la : la.Exact) (pos : 0 < n)
    (returned : proposeStep la checked (.ofVector g) (.ofSquare H) δ [n] tol iterations =
      .ok proposal)
    (hard : proposal.outcome.hardCase = true) :
    ∃ (M : Model ℝ n) (k : Nat), Model.ofDerivatives la g H = .ok M ∧ M.Completes pos δ k ∧
      proposal.outcome.m =
        M.projections ⟨0, pos⟩ * M.reach pos δ k - M.completedGain pos δ k / 2 ∧
      (proposal.outcome.m ≤ 0 ↔
        2 * (M.projections ⟨0, pos⟩ * M.reach pos δ k) ≤ M.completedGain pos δ k) ∧
      (2 * M.projections ⟨0, pos⟩ ≤ -M.least pos * δ → proposal.outcome.m ≤ 0) ∧
      (2 * tieThreshold ≤ -M.least pos * δ → proposal.outcome.m ≤ 0) ∧
      proposal.outcome.m < tieThreshold * δ := by
  obtain ⟨delta_pos, M, solution, modelled, E, -, -, route, rfl⟩ :=
    exists_route exact_la pos returned
  obtain ⟨k, completes, step⟩ := route.exists_completes hard
  have value : solution.outcome.m =
      M.value (M.eigenvectorStep pos (M.multiplierBound pos) (M.reach pos δ k) k) := by
    rw [← step]
    exact route.m_eq
  have split : solution.outcome.m =
      M.projections ⟨0, pos⟩ * M.reach pos δ k - M.completedGain pos δ k / 2 := by
    rw [value, E.value_completed delta_pos completes]
  have slope : M.projections ⟨0, pos⟩ ≤ tieThreshold := by
    obtain ⟨-, k_pos, -, negligible⟩ := Model.hardCase_eq_true completes.1
    exact (le_abs_self _).trans (negligible _ k_pos)
  have downhill (weak : 2 * M.projections ⟨0, pos⟩ ≤ -M.least pos * δ) :
      solution.outcome.m ≤ 0 := by
    rw [value]
    exact E.value_completed_nonpos delta_pos completes weak
  refine ⟨M, k, modelled, completes, split, ?_, downhill, fun strong => downhill (by linarith), ?_⟩
  · change solution.outcome.m ≤ 0 ↔ _
    rw [split]
    constructor <;> intro h <;> linarith
  · change solution.outcome.m < _
    rw [value]
    exact E.value_completed_lt delta_pos completes

theorem completed_step_value_repeated : ∃ proposal,
    proposeStep LinearAlgebra.axisAligned false (.ofVector #v[0, 0, 1])
      (.ofSquare #v[#v[-1, 0, 0], #v[0, -1, 0], #v[0, 0, 2]]) 1 [3] 1e-10 5 = .ok proposal ∧
    proposal.outcome.hardCase = true ∧
    ∃ (M : Model ℝ 3) (k : Nat),
      Model.ofDerivatives LinearAlgebra.axisAligned #v[0, 0, 1]
        #v[#v[-1, 0, 0], #v[0, -1, 0], #v[0, 0, 2]] = .ok M ∧ M.Completes three_pos 1 k ∧
      proposal.outcome.m = M.projections ⟨0, three_pos⟩ * M.reach three_pos 1 k -
        M.completedGain three_pos 1 k / 2 ∧
      (proposal.outcome.m ≤ 0 ↔
        2 * (M.projections ⟨0, three_pos⟩ * M.reach three_pos 1 k) ≤
          M.completedGain three_pos 1 k) ∧
      (2 * M.projections ⟨0, three_pos⟩ ≤ -M.least three_pos * 1 →
        proposal.outcome.m ≤ 0) ∧
      (2 * tieThreshold ≤ -M.least three_pos * 1 → proposal.outcome.m ≤ 0) ∧
      proposal.outcome.m < tieThreshold * 1 := by
  obtain ⟨proposal, returned, hard⟩ := exists_repeated_proposal
  exact ⟨proposal, returned, hard,
    completed_step_value LinearAlgebra.axisAligned_exact three_pos returned hard⟩

/-- A weak curvature, and a slope that is negligible but not zero: the completed step goes uphill. -/
theorem completed_step_uphill : LinearAlgebra.axisAligned.Exact ∧ ∃ proposal,
    proposeStep LinearAlgebra.axisAligned false (.ofVector #v[5e-11]) (.ofSquare #v[#v[-1e-11]]) 1 [1]
      1e-10 5 = .ok proposal ∧ proposal.outcome.hardCase = true ∧ ¬ proposal.outcome.m ≤ 0 := by
  have diagonal_eq : SquareMatrix.toMatrix #v[#v[-1e-11]] =
      diagonal (#v[-1e-11] : Vector ℝ 1).get := by
    ext i j
    rw [Fin.fin_one_eq_zero i, Fin.fin_one_eq_zero j, diagonal_apply_eq]
    rfl
  obtain ⟨M, modelled, values, projections⟩ := Model.ofDerivatives_axisAligned diagonal_eq
    (Subsingleton.monotone _) #v[5e-11]
  have least : M.least Nat.one_pos = -1e-11 := by
    rw [Model.least, values]
    rfl
  have slope : M.projections 0 = 5e-11 := by
    rw [projections]
    rfl
  have completes : M.Completes Nat.one_pos 1 1 := by
    refine completes_oneVariable ?_ ?_ 1
    · rw [least]
      norm_num
    · rw [slope, tieThreshold_eq]
      norm_num
  obtain ⟨proposal, returned, hard, value⟩ := exists_completed_proposal
    LinearAlgebra.axisAligned_exact modelled one_pos completes 1e-10 (by norm_num : (1 : Int) ≤ 5)
  refine ⟨LinearAlgebra.axisAligned_exact, proposal, returned, hard, ?_⟩
  change proposal.outcome.m = M.projections 0 * _ - _ at value
  rw [value, Model.reach, Model.completedGain, slope, least, Model.squaredLength_of_le le_rfl,
    Model.restForm_of_le le_rfl]
  norm_num

/--
In the hard case the step ends on the boundary, and no step in the region has a value of the model
that is smaller by more than the thresholds account for.
-/
theorem completed_step_near_optimal (exact_la : la.Exact) (pos : 0 < n)
    (returned : proposeStep la checked (.ofVector g) (.ofSquare H) δ [n] tol iterations =
      .ok proposal)
    (hard : proposal.outcome.hardCase = true) :
    ∃ (M : Model ℝ n) (k : Nat) (s : Vector ℝ n), Model.ofDerivatives la g H = .ok M ∧
      M.hardCase pos = (true, k) ∧ proposal.step = .ofVector s ∧
      proposal.outcome.m = quadraticModel g H s ∧ norm s = δ ∧
      ∀ t, norm t ≤ δ → proposal.outcome.m ≤
        quadraticModel g H t + 2 * δ * (δ * M.margin pos + k * tieThreshold) := by
  obtain ⟨delta_pos, M, solution, modelled, E, gradient, hessian, route, rfl⟩ :=
    exists_route exact_la pos returned
  obtain ⟨k, completes, step⟩ := route.exists_completes hard
  have model : solution.outcome.m = M.value solution.step := route.m_eq
  refine ⟨M, k, solution.step, modelled, completes.1, rfl, ?_, ?_, fun t inside => ?_⟩
  · rw [← Model.value_eq_quadraticModel gradient hessian]
    exact model
  · rw [step]
    exact E.norm_completedStep delta_pos completes
  · have gap := E.completed_sub_le delta_pos completes inside
    rw [← step, ← model, Model.value_eq_quadraticModel gradient hessian] at gap
    change solution.outcome.m ≤ _
    linarith

theorem completed_step_near_optimal_repeated : ∃ proposal,
    proposeStep LinearAlgebra.axisAligned false (.ofVector #v[0, 0, 1])
      (.ofSquare #v[#v[-1, 0, 0], #v[0, -1, 0], #v[0, 0, 2]]) 1 [3] 1e-10 5 = .ok proposal ∧
    proposal.outcome.hardCase = true ∧
    ∃ (M : Model ℝ 3) (k : Nat) (s : Vector ℝ 3),
      Model.ofDerivatives LinearAlgebra.axisAligned #v[0, 0, 1]
        #v[#v[-1, 0, 0], #v[0, -1, 0], #v[0, 0, 2]] = .ok M ∧
      M.hardCase three_pos = (true, k) ∧ proposal.step = .ofVector s ∧
      proposal.outcome.m =
        quadraticModel #v[0, 0, 1] #v[#v[-1, 0, 0], #v[0, -1, 0], #v[0, 0, 2]] s ∧
      norm s = 1 ∧
      ∀ t, norm t ≤ 1 → proposal.outcome.m ≤
        quadraticModel #v[0, 0, 1] #v[#v[-1, 0, 0], #v[0, -1, 0], #v[0, 0, 2]] t +
          2 * 1 * (1 * M.margin three_pos + k * tieThreshold) := by
  obtain ⟨proposal, returned, hard⟩ := exists_repeated_proposal
  exact ⟨proposal, returned, hard,
    completed_step_near_optimal LinearAlgebra.axisAligned_exact three_pos returned hard⟩

end Solver

end TrustRegion
