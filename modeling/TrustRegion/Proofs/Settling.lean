/-
  Root finding settles.

  No single measure falls along a run. As long as every proposal is turned down for being too low,
  the distance to the bound is halved, and the multipliers converge to the bound. The first proposal
  that is taken lies clearly above the bound and has a step at least as long as the radius; from it
  on the multipliers ascend, and no gradient has a long step at arbitrarily large multipliers, so
  they converge as well. Either way two consecutive multipliers come as close as the tolerance asks
  (`Exact.exists_settles`), whether or not there is a root above the bound. A run that has settled is
  not changed by more iterations (`proposeStep_more_iterations`), so from some number on all limits
  lead to the same solution (`root_finding_settles`).
-/
import TrustRegion.Proofs.Ascent

namespace TrustRegion

open Filter Topology

/-- The terms of a sequence that converges come close to each other. -/
theorem exists_small_change {u : Nat → ℝ} {limit tol : ℝ} (converges : Tendsto u atTop (𝓝 limit))
    (tol_pos : 0 < tol) : ∃ i, |u (i + 1) - u i| < tol := by
  have shifted : Tendsto (fun i => u (i + 1)) atTop (𝓝 limit) :=
    (tendsto_add_atTop_iff_nat 1).2 converges
  have change : Tendsto (fun i => u (i + 1) - u i) atTop (𝓝 0) := by
    simpa using shifted.sub converges
  obtain ⟨i, small⟩ := (Metric.tendsto_nhds.1 change tol tol_pos).exists
  rw [Real.dist_0_eq_abs] at small
  exact ⟨i, small⟩

namespace Model

variable {n : Nat} {M : Model ℝ n} {lam start δ tol : ℝ} {pos : 0 < n} {more : Nat}
  {solution : Solution ℝ n}

theorem multiplierFrom_add (pos : 0 < n) (M : Model ℝ n) (δ start : ℝ) (i j : Nat) :
    M.multiplierFrom pos δ start (i + j) =
      M.multiplierFrom pos δ (M.multiplierFrom pos δ start i) j := by
  induction j with
  | zero => rfl
  | succ j ih => exact congrArg (M.nextMultiplier pos δ) ih

/-- A run that goes on from a later multiplier settles there. -/
theorem Settles.add {i j : Nat} (settles : M.Settles pos δ (M.multiplierFrom pos δ start i) tol j) :
    M.Settles pos δ start tol (i + j) := by
  unfold Settles at settles ⊢
  rw [← multiplierFrom_add, ← multiplierFrom_add] at settles
  exact settles

/-! ## Runs that take a proposal -/

/-- A proposal that is taken has a step at least as long as the radius. -/
theorem Exact.ascending_next (E : M.Exact) (sloped : M.Sloped) (delta_pos : 0 < δ)
    (le : M.multiplierBound pos ≤ lam)
    (high : M.multiplierBound pos + definiteThreshold ≤ M.newton δ lam) :
    M.Ascending pos δ (M.nextMultiplier pos δ lam) := by
  have taken : M.nextMultiplier pos δ lam = M.newton δ lam := if_neg (not_lt.2 high)
  have above : M.multiplierBound pos ≤ M.newton δ lam := by linarith [definiteThreshold_pos]
  rw [taken]
  exact ⟨le_stepLength_newton sloped delta_pos (E.definite le) (E.definite above), Or.inr high⟩

/-- Far above the eigenvalues no step is as long as the radius. -/
theorem Ascending.le_far (ascending : M.Ascending pos δ lam) (E : M.Exact) (delta_pos : 0 < δ) :
    lam ≤ norm M.gradient / δ - M.least pos := by
  have lifted_pos : 0 < lam + M.least pos := E.definite ascending.bound_le ⟨0, pos⟩
  have length := E.mul_stepLength_le lifted_pos (E.add_least_le_lifted pos lam)
  have long := mul_le_mul_of_nonneg_left ascending.long lifted_pos.le
  rw [le_sub_iff_add_le, le_div_iff₀ delta_pos]
  exact long.trans length

theorem Ascending.exists_settles (ascending : M.Ascending pos δ start) (E : M.Exact)
    (sloped : M.Sloped) (delta_pos : 0 < δ) (tol_pos : 0 < tol) :
    ∃ i, M.Settles pos δ start tol i := by
  have bounded : BddAbove (Set.range (M.multiplierFrom pos δ start)) := by
    refine ⟨norm M.gradient / δ - M.least pos, ?_⟩
    rintro _ ⟨i, rfl⟩
    exact (ascending.multiplierFrom E sloped delta_pos i).le_far E delta_pos
  exact exists_small_change (tendsto_atTop_ciSup (ascending.monotone E sloped delta_pos) bounded)
    tol_pos

/-! ## Runs that take none -/

/-- Where every proposal is turned down, the distance to the bound is halved each time. -/
theorem multiplierFrom_of_low
    (low : ∀ i, M.newton δ (M.multiplierFrom pos δ start i) <
      M.multiplierBound pos + definiteThreshold) (i : Nat) :
    M.multiplierFrom pos δ start i =
      M.multiplierBound pos + (1 / 2) ^ i * (start - M.multiplierBound pos) := by
  induction i with
  | zero =>
    rw [pow_zero, one_mul, add_sub_cancel]
    rfl
  | succ i ih =>
    have halved : M.multiplierFrom pos δ start (i + 1) =
        0.5 * (M.multiplierFrom pos δ start i - M.multiplierBound pos) + M.multiplierBound pos :=
      if_pos (low i)
    rw [halved, ih, pow_succ]
    norm_num
    ring

theorem exists_settles_of_low (tol_pos : 0 < tol)
    (low : ∀ i, M.newton δ (M.multiplierFrom pos δ start i) <
      M.multiplierBound pos + definiteThreshold) :
    ∃ i, M.Settles pos δ start tol i := by
  have powers : Tendsto (fun i : Nat => ((1 : ℝ) / 2) ^ i) atTop (𝓝 0) :=
    tendsto_pow_atTop_nhds_zero_of_lt_one (by norm_num) (by norm_num)
  have converges : Tendsto (M.multiplierFrom pos δ start) atTop (𝓝 (M.multiplierBound pos)) := by
    rw [funext (multiplierFrom_of_low low)]
    simpa using (powers.mul_const (start - M.multiplierBound pos)).const_add
      (M.multiplierBound pos)
  exact exists_small_change converges tol_pos

/-! ## All runs -/

/-- From the bound on, root finding settles. -/
theorem Exact.exists_settles (E : M.Exact) (sloped : M.Sloped) (delta_pos : 0 < δ)
    (tol_pos : 0 < tol) (le : M.multiplierBound pos ≤ start) :
    ∃ i, M.Settles pos δ start tol i := by
  by_cases high : ∃ i, M.multiplierBound pos + definiteThreshold ≤
      M.newton δ (M.multiplierFrom pos δ start i)
  · obtain ⟨i, high⟩ := high
    have ascending : M.Ascending pos δ (M.multiplierFrom pos δ start (i + 1)) :=
      E.ascending_next sloped delta_pos (bound_le_multiplierFrom le i) high
    obtain ⟨j, settles⟩ := ascending.exists_settles E sloped delta_pos tol_pos
    exact ⟨i + 1 + j, settles.add⟩
  · push Not at high
    exact exists_settles_of_low tol_pos high

/-- A run with enough iterations to settle ends settled. -/
theorem EndsAt.settles_of_le {i j : Nat} (ends : M.EndsAt pos δ start tol more i)
    (settles : M.Settles pos δ start tol j) (le : j ≤ more) : M.Settles pos δ start tol i := by
  rcases ends.last with settled | spent
  · exact settled
  · have not_before : ¬ j < i := fun lt => ends.before j lt settles
    have same : j = i := by omega
    exact same ▸ settles

theorem Route.reached_of_settles {j : Nat} (route : M.Route pos δ tol more solution)
    (settles : M.Settles pos δ (M.firstMultiplier pos) tol j) (le : j ≤ more) :
    solution.outcome.reached = true := by
  cases route with
  | newton => rfl
  | eigenvector => rfl
  | stationary => rfl
  | boundary seeks ends remark =>
    classical exact decide_eq_true (ends.settles_of_le settles le)

/-- Some number of iterations is enough for a solution. -/
theorem Exact.exists_enough (E : M.Exact) (pos : 0 < n) (delta_pos : 0 < δ) (tol_pos : 0 < tol) :
    ∃ enough, ∀ solution, M.Route pos δ tol enough solution → solution.outcome.reached = true := by
  by_cases sloped : M.Sloped
  · obtain ⟨i, settles⟩ :=
      E.exists_settles sloped delta_pos tol_pos (bound_le_firstMultiplier pos M)
    exact ⟨i, fun solution route => route.reached_of_settles settles (le_refl i)⟩
  · refine ⟨0, fun solution route => ?_⟩
    cases route with
    | newton => rfl
    | eigenvector => rfl
    | stationary => rfl
    | boundary seeks => exact absurd seeks.sloped sloped

end Model

/-! ## More iterations -/

section MoreIterations

variable {α : Type} [Scalar α] {n : Nat} {pos : 0 < n} {la : LinearAlgebra α} {M : Model α n}
  {delta deltaSquared bound start tolerance : α} {few many : Nat} {solution : Solution α n}

theorem Model.boundarySolution_more_iterations
    (returned : M.boundarySolution la delta deltaSquared bound start tolerance few = .ok solution)
    (reached : solution.outcome.reached = true) (le : few ≤ many) :
    M.boundarySolution la delta deltaSquared bound start tolerance many = .ok solution := by
  unfold boundarySolution at returned ⊢
  obtain ⟨⟨s, lam, settled⟩, found, ended⟩ := exists_of_bind_eq_ok returned
  obtain rfl := Except.ok.inj ended
  obtain rfl : settled = true := reached
  have found' : M.findRoot la delta bound tolerance (many - 1) start = .ok ⟨s, lam, true⟩ :=
    findRoot_eq_ok.2 ((findRoot_eq_ok.1 found).more_iterations rfl (by omega))
  rw [found']
  rfl

theorem Model.solve_more_iterations
    (returned : M.solve pos la delta deltaSquared tolerance few = .ok solution)
    (reached : solution.outcome.reached = true) (le : few ≤ many) :
    M.solve pos la delta deltaSquared tolerance many = .ok solution := by
  unfold solve at returned ⊢
  split at returned
  · next fits => rwa [if_pos fits]
  · next misfit =>
    rw [if_neg misfit]
    dsimp only at returned ⊢
    split at returned
    · next completes => rwa [if_pos completes]
    · next incomplete =>
      rw [if_neg incomplete]
      split at returned
      · next flat => rwa [if_pos flat]
      · next sloped =>
        rw [if_neg sloped]
        exact boundarySolution_more_iterations returned reached le

/-- What is proposed as reached is proposed with any greater limit of iterations. -/
theorem proposeStep_more_iterations {checked : Bool} {g : Vector α n} {H : SquareMatrix α n}
    {few many : Int} {proposal : Proposal α} (pos : 0 < n)
    (returned : proposeStep la checked (.ofVector g) (.ofSquare H) delta [n] tolerance few =
      .ok proposal)
    (reached : proposal.outcome.reached = true) (le : few ≤ many) :
    proposeStep la checked (.ofVector g) (.ofSquare H) delta [n] tolerance many = .ok proposal := by
  obtain ⟨some_iteration, delta_pos, checks, solution, solved, rfl⟩ :=
    (proposeStep_eq_ok pos).1 returned
  refine (proposeStep_eq_ok pos).2 ⟨some_iteration.trans le, delta_pos, checks, solution, ?_, rfl⟩
  obtain ⟨deltaSquared, M, squared, modelled, solved⟩ := solveSubproblem_eq_ok.1 solved
  have enough : few.toNat ≤ many.toNat := Int.toNat_le_toNat le
  exact solveSubproblem_eq_ok.2
    ⟨deltaSquared, M, squared, modelled, Model.solve_more_iterations solved reached enough⟩

end MoreIterations

/-! ## The solver -/

section Solver

variable {n : Nat} {la : LinearAlgebra ℝ} {checked : Bool} {g : Vector ℝ n} {H : SquareMatrix ℝ n}
  {δ tol : ℝ}

/-- From some number of iterations on, every limit leads to the same proposal, and it is reached. -/
theorem root_finding_settles (exact_la : la.Exact) (pos : 0 < n) (delta_pos : 0 < δ)
    (tol_pos : 0 < tol) (admitted : checkModel checked (.ofVector g) (.ofSquare H) = .ok ()) :
    ∃ (enough : Nat) (proposal : Proposal ℝ), proposal.outcome.reached = true ∧
      ∀ iterations : Int, enough ≤ iterations →
        proposeStep la checked (.ofVector g) (.ofSquare H) δ [n] tol iterations = .ok proposal := by
  obtain ⟨M, modelled, E, -, -⟩ := Model.ofDerivatives_eq exact_la g H
  obtain ⟨enough, reaches⟩ := E.exists_enough pos delta_pos tol_pos
  have some_iteration : (1 : Int) ≤ (enough + 1 : Nat) := by omega
  obtain ⟨-, solution, -, -, -, -, returned⟩ :=
    proposeStep_route exact_la pos delta_pos tol some_iteration admitted
  obtain ⟨-, M', solution', modelled', -, -, -, route, same⟩ := exists_route exact_la pos returned
  obtain rfl : M = M' := Except.ok.inj (modelled.symm.trans modelled')
  have reached : solution.toProposal.outcome.reached = true := by
    rw [same]
    exact reaches solution' route
  exact ⟨enough + 1, solution.toProposal, reached, fun iterations le =>
    proposeStep_more_iterations pos returned reached le⟩

/-- An indefinite Hessian and a gradient that meets both its eigenvectors. -/
theorem root_finding_settles_saddle : (0 : ℝ) < 1 ∧ (0 : ℝ) < 1e-10 ∧
    checkModel false (.ofVector (#v[1, 1] : Vector ℝ 2)) (.ofSquare #v[#v[-1, 0], #v[0, 1]]) =
      .ok () ∧
    ∃ (enough : Nat) (proposal : Proposal ℝ), proposal.outcome.reached = true ∧
      ∀ iterations : Int, enough ≤ iterations →
        proposeStep LinearAlgebra.exact false (.ofVector #v[1, 1])
          (.ofSquare #v[#v[-1, 0], #v[0, 1]]) 1 [2] 1e-10 iterations = .ok proposal := by
  have tol_pos : (0 : ℝ) < 1e-10 := by norm_num
  have admitted : checkModel false (.ofVector (#v[1, 1] : Vector ℝ 2))
      (.ofSquare #v[#v[-1, 0], #v[0, 1]]) = .ok () := if_neg Bool.false_ne_true
  exact ⟨one_pos, tol_pos, admitted,
    root_finding_settles LinearAlgebra.exact_exact Nat.two_pos one_pos tol_pos admitted⟩

end Solver

end TrustRegion
