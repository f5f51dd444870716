/-
  The ways out of a subproblem.

  `Exit` lists the tests of a subproblem and what is returned after each, whatever the factorizations
  do. `Route` lists the solutions a subproblem can have, with everything they report. With exact
  factorizations the solver always returns, and by one of these routes (`solve_route`);
  `exists_exit` and `exists_route` say the same of the solver as it is called, with arrays whose
  shapes are right.
  What holds of every solution is proved route by route from here.
-/
import TrustRegion.Proofs.TiedBlock

namespace TrustRegion

variable {n : Nat}

namespace Model

variable {M : Model ℝ n} {δ tol : ℝ} {pos : 0 < n} {k more : Nat}

/-- The Hessian is positive definite and its Newton step fits into the region. -/
def NewtonFits (pos : 0 < n) (M : Model ℝ n) (δ : ℝ) : Prop :=
  definiteThreshold ≤ M.least pos ∧ M.squaredLength 0 0 ≤ δ ^ 2

/-- The hard case with `k` tied eigenvalues, and a step that can be completed to the boundary. -/
def Completes (pos : 0 < n) (M : Model ℝ n) (δ : ℝ) (k : Nat) : Prop :=
  M.hardCase pos = (true, k) ∧ M.squaredLength (M.multiplierBound pos) k ≤ δ ^ 2

/-- Neither of the two shortcuts is taken and there is a slope: a root is looked for. -/
structure SeeksRoot (pos : 0 < n) (M : Model ℝ n) (δ : ℝ) : Prop where
  /-- The Newton step is not taken. -/
  misfit : ¬ M.NewtonFits pos δ
  /-- The step is not completed along an eigenvector. -/
  incomplete : ∀ k, ¬ M.Completes pos δ k
  /-- The gradient is not zero. -/
  sloped : M.Sloped

/-- How far along the first eigenvector a step must go to reach the boundary. -/
noncomputable def reach (pos : 0 < n) (M : Model ℝ n) (δ : ℝ) (k : Nat) : ℝ :=
  √(δ ^ 2 - M.squaredLength (M.multiplierBound pos) k)

/-- A step reported as interior: root finding has settled at the bound, inside the region. -/
def EndsInside (pos : 0 < n) (M : Model ℝ n) (δ tol : ℝ) (i : Nat) : Prop :=
  M.Settles pos δ (M.firstMultiplier pos) tol i ∧
    M.multiplier pos δ (i + 1) < M.multiplierBound pos + definiteThreshold ∧
    M.squaredLength (M.multiplier pos δ i) 0 < δ ^ 2

open Classical in
/-- The solutions that a subproblem can have, with at most `more + 1` iterations of root finding. -/
inductive Route (pos : 0 < n) (M : Model ℝ n) (δ tol : ℝ) (more : Nat) : Solution ℝ n → Prop
  /-- The Newton step. -/
  | newton (fits : M.NewtonFits pos δ) :
    Route pos M δ tol more (M.solution M.newtonStep true 0 false true none)
  /-- The step that is completed along the first eigenvector. -/
  | eigenvector {k : Nat} (misfit : ¬ M.NewtonFits pos δ) (completes : M.Completes pos δ k) :
    Route pos M δ tol more
      (M.solution (M.eigenvectorStep pos (M.multiplierBound pos) (M.reach pos δ k) k) false
        (M.multiplierBound pos) true true
        (some (.hardCase (M.multiplierBound pos) k (M.reach pos δ k))))
  /-- No step at all, where the gradient is zero. -/
  | stationary (misfit : ¬ M.NewtonFits pos δ) (incomplete : ∀ k, ¬ M.Completes pos δ k)
      (flat : ∀ j, M.projections j = 0) :
    Route pos M δ tol more stationarySolution
  /-- The step of the multiplier at which root finding ends. -/
  | boundary {i : Nat} (seeks : M.SeeksRoot pos δ)
      (ends : M.EndsAt pos δ (M.firstMultiplier pos) tol more i) (remark : Option (Remark ℝ)) :
    Route pos M δ tol more
      (M.solution (M.stepAt (M.multiplier pos δ i)) (decide (M.EndsInside pos δ tol i))
        (M.multiplier pos δ (i + 1)) false
        (decide (M.Settles pos δ (M.firstMultiplier pos) tol i)) remark)

variable {solution : Solution ℝ n}

/-- Every way out of a subproblem reports the value of the model at its step. -/
theorem Route.m_eq (route : M.Route pos δ tol more solution) :
    solution.outcome.m = M.value solution.step := by
  cases route with
  | newton => rfl
  | eigenvector => rfl
  | stationary => exact M.value_zero.symm
  | boundary => rfl

/-- Where the Newton step fits, it is the solution. -/
theorem Route.eq_newton (route : M.Route pos δ tol more solution) (fits : M.NewtonFits pos δ) :
    solution = M.solution M.newtonStep true 0 false true none := by
  cases route with
  | newton => rfl
  | eigenvector misfit => exact absurd fits misfit
  | stationary misfit => exact absurd fits misfit
  | boundary seeks => exact absurd fits seeks.misfit

/-- Where a step is completed, it is the solution. -/
theorem Route.eq_eigenvector (route : M.Route pos δ tol more solution)
    (misfit : ¬ M.NewtonFits pos δ) (completes : M.Completes pos δ k) :
    solution = M.solution (M.eigenvectorStep pos (M.multiplierBound pos) (M.reach pos δ k) k) false
      (M.multiplierBound pos) true true
      (some (.hardCase (M.multiplierBound pos) k (M.reach pos δ k))) := by
  cases route with
  | newton fits => exact absurd fits misfit
  | eigenvector _ completes' =>
    obtain rfl := (Prod.mk.inj (completes.1.symm.trans completes'.1)).2
    rfl
  | stationary _ incomplete => exact absurd completes (incomplete _)
  | boundary seeks => exact absurd completes (seeks.incomplete _)

/-- The solution in the hard case is the completed step. -/
theorem Route.exists_completes (route : M.Route pos δ tol more solution)
    (hard : solution.outcome.hardCase = true) : ∃ k, M.Completes pos δ k ∧
      solution.step = M.eigenvectorStep pos (M.multiplierBound pos) (M.reach pos δ k) k := by
  cases route with
  | newton fits => cases hard
  | @eigenvector k misfit completes => exact ⟨k, completes, rfl⟩
  | stationary misfit incomplete flat => cases hard
  | boundary seeks ends remark => cases hard

/-- Where neither shortcut is taken and there is no slope, the empty step is the solution. -/
theorem Route.eq_stationary (route : M.Route pos δ tol more solution)
    (misfit : ¬ M.NewtonFits pos δ) (incomplete : ∀ k, ¬ M.Completes pos δ k)
    (flat : ∀ j, M.projections j = 0) : solution = stationarySolution := by
  cases route with
  | newton fits => exact absurd fits misfit
  | eigenvector _ completes => exact absurd completes (incomplete _)
  | stationary => rfl
  | boundary seeks => exact absurd flat seeks.sloped.not_flat

open Classical in
/-- Where a root is looked for, the solution is the one at which root finding ends. -/
theorem Route.eq_boundary (route : M.Route pos δ tol more solution) (seeks : M.SeeksRoot pos δ) :
    ∃ (i : Nat) (remark : Option (Remark ℝ)),
      M.EndsAt pos δ (M.firstMultiplier pos) tol more i ∧
      solution = M.solution (M.stepAt (M.multiplier pos δ i)) (decide (M.EndsInside pos δ tol i))
        (M.multiplier pos δ (i + 1)) false
        (decide (M.Settles pos δ (M.firstMultiplier pos) tol i)) remark := by
  cases route with
  | newton fits => exact absurd fits seeks.misfit
  | eigenvector misfit completes => exact absurd completes (seeks.incomplete _)
  | stationary misfit incomplete flat => exact absurd flat seeks.sloped.not_flat
  | boundary _ ends remark => exact ⟨_, remark, ends, rfl⟩

/-- A step that is neither interior nor completed comes from root finding. -/
theorem Route.seeksRoot (route : M.Route pos δ tol more solution)
    (outside : solution.outcome.interior = false) (easy : solution.outcome.hardCase = false) :
    M.SeeksRoot pos δ := by
  cases route with
  | newton fits => cases outside
  | eigenvector misfit completes => cases easy
  | stationary misfit incomplete flat => cases outside
  | boundary seeks ends remark => exact seeks

/-! ## The tests of the solver -/

theorem newtonFits_iff : M.newtonFits pos (δ ^ 2) = true ↔ M.NewtonFits pos δ := by
  unfold newtonFits NewtonFits
  rw [Bool.and_eq_true, decide_eq_true_iff, decide_eq_true_iff]

theorem all_isZero_iff (v : Vector ℝ n) : v.all Scalar.isZero = true ↔ ∀ i, v.get i = 0 := by
  rw [Vector.all_eq_true]
  constructor
  · intro all i
    have zero := all i.val i.isLt
    rw [Scalar.real_isZero, decide_eq_true_iff] at zero
    exact zero
  · intro all i inside
    rw [Scalar.real_isZero, decide_eq_true_iff]
    exact all ⟨i, inside⟩

theorem Exact.flat (E : M.Exact) (zero : ∀ i, M.gradient i = 0) (j : Fin n) :
    M.projections j = 0 := by
  have square : ∑ j, M.projections j ^ 2 = 0 := by
    rw [← E.dot_gradient, real_dot]
    exact Finset.sum_eq_zero fun i _ => by rw [zero i, mul_zero]
  rw [Finset.sum_eq_zero_iff_of_nonneg fun i _ => sq_nonneg _] at square
  exact pow_eq_zero_iff two_ne_zero |>.1 (square j (Finset.mem_univ j))

/-- Without a slope and without a step to complete, no eigenvalue is negative. -/
theorem least_nonneg_of_flat (incomplete : ∀ k, ¬ M.Completes pos δ k)
    (flat : ∀ j, M.projections j = 0) : 0 ≤ M.least pos := by
  by_contra negative
  have hard := hardCase_of_flat (not_le.1 negative) flat
  refine incomplete (M.hardCase pos).2 ⟨Prod.ext hard rfl, ?_⟩
  rw [squaredLength_eq, Finset.sum_eq_zero fun j _ => by rw [flat j]; simp]
  positivity

/-! ## The solver -/

/-- Root finding returns the solution of its route. -/
theorem boundarySolution_route {la : LinearAlgebra ℝ} (exact_la : la.Exact) (E : M.Exact)
    (delta_pos : 0 < δ) (seeks : M.SeeksRoot pos δ) (iterations : Nat) :
    ∃ solution, M.boundarySolution la δ (δ ^ 2) (M.multiplierBound pos) (M.firstMultiplier pos) tol
        iterations = .ok solution ∧ M.Route pos δ tol (iterations - 1) solution := by
  classical
  obtain ⟨i, ends, found⟩ := findRoot_eq exact_la E seeks.sloped delta_pos tol (iterations - 1)
    (bound_le_firstMultiplier pos M)
  have inside : decide (M.EndsInside pos δ tol i) =
      (decide (M.Settles pos δ (M.firstMultiplier pos) tol i) &&
        decide (M.multiplier pos δ (i + 1) < M.multiplierBound pos + definiteThreshold) &&
        decide (dot (M.stepAt (M.multiplier pos δ i)) (M.stepAt (M.multiplier pos δ i)) < δ ^ 2)) := by
    rw [E.dot_stepAt, ← Bool.decide_and, ← Bool.decide_and]
    exact decide_eq_decide.2 and_assoc.symm
  unfold boundarySolution
  rw [found]
  refine ⟨_, rfl, ?_⟩
  have route := Route.boundary seeks ends
    (if decide (M.Settles pos δ (M.firstMultiplier pos) tol i) = true then none else
      some (Remark.rootFindingStopped iterations (M.multiplier pos δ (i + 1))
        (norm (M.stepAt (M.multiplier pos δ i))) δ))
  rw [inside] at route
  exact route

/-- The ways out of a subproblem: the tests that lead to each, and what is returned there. -/
inductive Exit (pos : 0 < n) (la : LinearAlgebra ℝ) (M : Model ℝ n) (δ tol : ℝ) (iterations : Nat) :
    Except (Fault ℝ) (Solution ℝ n) → Prop
  /-- The Newton step. -/
  | newton (fits : M.NewtonFits pos δ) :
    Exit pos la M δ tol iterations (.ok (M.solution M.newtonStep true 0 false true none))
  /-- The step that is completed along the first eigenvector. -/
  | eigenvector {k : Nat} (misfit : ¬ M.NewtonFits pos δ) (completes : M.Completes pos δ k) :
    Exit pos la M δ tol iterations
      (.ok (M.solution (M.eigenvectorStep pos (M.multiplierBound pos) (M.reach pos δ k) k) false
        (M.multiplierBound pos) true true
        (some (.hardCase (M.multiplierBound pos) k (M.reach pos δ k)))))
  /-- No step at all, where the gradient is zero. -/
  | stationary (misfit : ¬ M.NewtonFits pos δ) (incomplete : ∀ k, ¬ M.Completes pos δ k)
      (flat : ∀ j, M.projections j = 0) :
    Exit pos la M δ tol iterations (.ok stationarySolution)
  /-- Root finding, whatever it returns. -/
  | boundary (seeks : M.SeeksRoot pos δ) :
    Exit pos la M δ tol iterations
      (M.boundarySolution la δ (δ ^ 2) (M.multiplierBound pos) (M.firstMultiplier pos) tol
        iterations)

/-- A model with an exact spectrum leaves by one of the ways, whatever the factorizations do. -/
theorem Exact.solve_exit (E : M.Exact) (pos : 0 < n) (la : LinearAlgebra ℝ) (δ tol : ℝ)
    (iterations : Nat) : M.Exit pos la δ tol iterations (M.solve pos la δ (δ ^ 2) tol iterations) := by
  unfold solve
  by_cases fits : M.NewtonFits pos δ
  · rw [if_pos (newtonFits_iff.2 fits)]
    exact .newton fits
  · rw [if_neg (fun h => fits (newtonFits_iff.1 h))]
    rcases detected : M.hardCase pos with ⟨hard, k⟩
    dsimp only
    split
    · next taken =>
      rw [Bool.and_eq_true, Bool.not_eq_true', decide_eq_false_iff_not, not_lt] at taken
      refine .eigenvector fits ⟨?_, taken.2⟩
      rw [detected, taken.1]
    · next missed =>
      have incomplete : ∀ l, ¬ M.Completes pos δ l := by
        intro l completes
        rw [Completes, detected, Prod.mk.injEq] at completes
        obtain ⟨⟨rfl, rfl⟩, short⟩ := completes
        refine missed ?_
        rw [Bool.and_eq_true, Bool.not_eq_true', decide_eq_false_iff_not]
        exact ⟨rfl, not_lt.2 short⟩
      by_cases flat : M.gradient.all Scalar.isZero = true
      · rw [if_pos flat]
        exact .stationary fits incomplete (E.flat ((all_isZero_iff _).1 flat))
      · rw [if_neg flat]
        have sloped : M.Sloped := by
          refine E.gradient_ne_zero ?_
          rw [all_isZero_iff] at flat
          push Not at flat
          exact flat
        have start : (if hard = true then
            M.multiplierBound pos + 0.01 * Scalar.max (M.greatest pos - M.multiplierBound pos) 0
            else M.multiplierBound pos) = M.firstMultiplier pos := by
          rw [firstMultiplier, detected]
        rw [start]
        exact .boundary ⟨fits, incomplete, sloped⟩

/-- With exact factorizations a subproblem is solved, by one of the routes. -/
theorem solve_route {la : LinearAlgebra ℝ} (exact_la : la.Exact) (E : M.Exact)
    (delta_pos : 0 < δ) (pos : 0 < n) (tol : ℝ) (iterations : Nat) :
    ∃ solution, M.solve pos la δ (δ ^ 2) tol iterations = .ok solution ∧
      M.Route pos δ tol (iterations - 1) solution := by
  have exit := E.solve_exit pos la δ tol iterations
  generalize M.solve pos la δ (δ ^ 2) tol iterations = result at exit ⊢
  cases exit with
  | newton fits => exact ⟨_, rfl, .newton fits⟩
  | eigenvector misfit completes => exact ⟨_, rfl, .eigenvector misfit completes⟩
  | stationary misfit incomplete flat => exact ⟨_, rfl, .stationary misfit incomplete flat⟩
  | boundary seeks => exact boundarySolution_route exact_la E delta_pos seeks iterations

/-- With exact eigendecompositions a model is exact, whatever the factorizations do. -/
theorem exact_of_ofDerivatives {la : LinearAlgebra ℝ} (spectra : la.ExactSpectra) {g : Vector ℝ n}
    {H : SquareMatrix ℝ n} (modelled : ofDerivatives la g H = .ok M) :
    M.Exact ∧ M.gradient = g ∧ M.hessian = H.symmetricPart := by
  unfold ofDerivatives at modelled
  cases found : la.eigh H.symmetricPart with
  | error fault =>
    rw [found] at modelled
    cases modelled
  | ok S =>
    rw [found] at modelled
    obtain rfl := Except.ok.inj modelled
    exact ⟨exact_ofSpectrum (spectra _ S H.isSymm_symmetricPart found), rfl, rfl⟩

theorem ofDerivatives_eq {la : LinearAlgebra ℝ} (exact_la : la.Exact) (g : Vector ℝ n)
    (H : SquareMatrix ℝ n) : ∃ M, ofDerivatives la g H = .ok M ∧ M.Exact ∧ M.gradient = g ∧
      M.hessian = H.symmetricPart := by
  obtain ⟨S, found, -⟩ := exact_la.eigh H.symmetricPart H.isSymm_symmetricPart
  have modelled : ofDerivatives la g H = .ok (ofSpectrum g H.symmetricPart S) := by
    rw [ofDerivatives, found]
    rfl
  exact ⟨_, modelled, exact_of_ofDerivatives exact_la.exactSpectra modelled⟩

end Model

/-! ## The solver as it is called -/

/-- With arrays of the right shapes only the limits and the entries are left to check. -/
theorem proposeStep_ofVector {α : Type} [Scalar α] (la : LinearAlgebra α) (checked : Bool)
    (pos : 0 < n) (g : Vector α n) (H : SquareMatrix α n) (delta tol : α) (iterations : Int) :
    proposeStep la checked (.ofVector g) (.ofSquare H) delta [n] tol iterations =
      if iterations < 1 then .error .iterationLimit
      else if ¬ 0 < delta then .error .radius
      else checkModel checked (.ofVector g) (.ofSquare H) >>= fun _ =>
        (solveSubproblem pos la g H delta tol iterations.toNat).map Solution.toProposal := by
  obtain ⟨entries, rfl⟩ := g
  have vector : (Tensor.ofVector (⟨entries, rfl⟩ : Vector α entries.size)).toVector? entries.size =
      some ⟨entries, rfl⟩ := Tensor.toVector?_ofVector _
  unfold proposeStep
  dsimp only
  split
  · next unread =>
    exact absurd (vector.symm.trans unread) (by simp)
  · next gradient read =>
    obtain rfl : (⟨entries, rfl⟩ : Vector α entries.size) = gradient :=
      Option.some.inj (vector.symm.trans read)
    refine (dif_neg (not_not.2 pos)).trans ((if_neg (not_not.2 rfl)).trans ?_)
    split
    · next unread =>
      exact absurd ((Tensor.toSquare?_ofSquare H).symm.trans unread) (by simp)
    · next hessian read =>
      obtain rfl : H = hessian := Option.some.inj ((Tensor.toSquare?_ofSquare H).symm.trans read)
      rfl

/-- A proposal for arrays of the right shapes is a solution, within limits and of entries that pass. -/
theorem proposeStep_eq_ok {α : Type} [Scalar α] {la : LinearAlgebra α} {checked : Bool}
    (pos : 0 < n) {g : Vector α n} {H : SquareMatrix α n} {delta tol : α} {iterations : Int}
    {proposal : Proposal α} :
    proposeStep la checked (.ofVector g) (.ofSquare H) delta [n] tol iterations = .ok proposal ↔
      1 ≤ iterations ∧ 0 < delta ∧ checkModel checked (.ofVector g) (.ofSquare H) = .ok () ∧
        ∃ solution, solveSubproblem pos la g H delta tol iterations.toNat = .ok solution ∧
          proposal = solution.toProposal := by
  rw [proposeStep_ofVector la checked pos]
  constructor
  · intro returned
    split at returned
    · cases returned
    · next some_iteration =>
      split at returned
      · cases returned
      · next delta_pos =>
        obtain ⟨passed, checks, returned⟩ := exists_of_bind_eq_ok returned
        refine ⟨not_lt.1 some_iteration, Decidable.not_not.1 delta_pos, checks, ?_⟩
        cases solved : solveSubproblem pos la g H delta tol iterations.toNat with
        | error fault =>
          rw [solved] at returned
          cases returned
        | ok solution =>
          rw [solved] at returned
          exact ⟨solution, rfl, (Except.ok.inj returned).symm⟩
  · rintro ⟨some_iteration, delta_pos, checks, solution, solved, rfl⟩
    rw [if_neg (not_lt.2 some_iteration), if_neg (not_not.2 delta_pos), checks, solved]
    rfl

/-- A subproblem is solved by solving the model of its derivatives. -/
theorem solveSubproblem_eq_ok {α : Type} [Scalar α] {la : LinearAlgebra α} {pos : 0 < n}
    {g : Vector α n} {H : SquareMatrix α n} {delta tol : α} {iterations : Nat}
    {solution : Solution α n} :
    solveSubproblem pos la g H delta tol iterations = .ok solution ↔
      ∃ (deltaSquared : α) (M : Model α n), checkedSquare delta = .ok deltaSquared ∧
        Model.ofDerivatives la g H = .ok M ∧
        M.solve pos la delta deltaSquared tol iterations = .ok solution := by
  unfold solveSubproblem
  constructor
  · intro solved
    obtain ⟨deltaSquared, squared, solved⟩ := exists_of_bind_eq_ok solved
    obtain ⟨M, modelled, solved⟩ := exists_of_bind_eq_ok solved
    exact ⟨deltaSquared, M, squared, modelled, solved⟩
  · rintro ⟨deltaSquared, M, squared, modelled, solved⟩
    rw [squared, modelled]
    exact solved

/-- A proposal leaves an exact model by one of the ways, whatever the factorizations do. -/
theorem exists_exit {la : LinearAlgebra ℝ} (spectra : la.ExactSpectra) {checked : Bool}
    (pos : 0 < n) {g : Vector ℝ n} {H : SquareMatrix ℝ n} {δ tol : ℝ} {iterations : Int}
    {proposal : Proposal ℝ} (returned : proposeStep la checked (.ofVector g) (.ofSquare H) δ [n] tol
      iterations = .ok proposal) :
    ∃ (M : Model ℝ n) (solution : Solution ℝ n), Model.ofDerivatives la g H = .ok M ∧ M.Exact ∧
      M.hessian = H.symmetricPart ∧ M.Exit pos la δ tol iterations.toNat (.ok solution) ∧
      proposal = solution.toProposal := by
  obtain ⟨-, -, -, solution, solved, rfl⟩ := (proposeStep_eq_ok pos).1 returned
  obtain ⟨deltaSquared, M, squared, modelled, solved⟩ := solveSubproblem_eq_ok.1 solved
  obtain rfl : δ ^ 2 = deltaSquared := Except.ok.inj ((checkedSquare_real δ).symm.trans squared)
  obtain ⟨E, -, hessian⟩ := Model.exact_of_ofDerivatives spectra modelled
  have exit := E.solve_exit pos la δ tol iterations.toNat
  rw [solved] at exit
  exact ⟨M, solution, modelled, E, hessian, exit, rfl⟩

/-- With exact factorizations the solver has a solution for every positive radius. -/
theorem solveSubproblem_route {la : LinearAlgebra ℝ} (exact_la : la.Exact) (pos : 0 < n)
    (g : Vector ℝ n) (H : SquareMatrix ℝ n) {δ : ℝ} (delta_pos : 0 < δ) (tol : ℝ)
    (iterations : Nat) : ∃ (M : Model ℝ n) (solution : Solution ℝ n),
      solveSubproblem pos la g H δ tol iterations = .ok solution ∧
      Model.ofDerivatives la g H = .ok M ∧ M.Exact ∧ M.gradient = g ∧
      M.hessian = H.symmetricPart ∧ M.Route pos δ tol (iterations - 1) solution := by
  obtain ⟨M, modelled, E, gradient, hessian⟩ := Model.ofDerivatives_eq exact_la g H
  obtain ⟨solution, solved, route⟩ := Model.solve_route exact_la E delta_pos pos tol iterations
  have solved' := solveSubproblem_eq_ok.2 ⟨_, M, checkedSquare_real δ, modelled, solved⟩
  exact ⟨M, solution, solved', modelled, E, gradient, hessian, route⟩

/-- Only arrays of the right shapes get a proposal. -/
theorem exists_ofVector_of_proposeStep {α : Type} [Scalar α] {la : LinearAlgebra α}
    {checked : Bool} {g H : Tensor α} {delta tol : α} {shape : Shape} {iterations : Int}
    {proposal : Proposal α}
    (returned : proposeStep la checked g H delta shape tol iterations = .ok proposal) :
    ∃ (k : Nat) (_ : 0 < k) (gradient : Vector α k) (hessian : SquareMatrix α k),
      g = .ofVector gradient ∧ H = .ofSquare hessian ∧ shape = [k] := by
  unfold proposeStep at returned
  dsimp only at returned
  split at returned
  · cases returned
  · next gradient read =>
    split at returned
    · cases returned
    · next pos =>
      split at returned
      · cases returned
      · next axis =>
        split at returned
        · cases returned
        · next hessian read' =>
          exact ⟨_, not_not.1 pos, gradient, hessian, (Tensor.ofVector_of_toVector? read).symm,
            (Tensor.ofSquare_of_toSquare? read').symm, not_not.1 axis⟩

/-- A proposal for arrays of the right shapes is a solution by one of the routes. -/
theorem exists_route {la : LinearAlgebra ℝ} (exact_la : la.Exact) {checked : Bool}
    (pos : 0 < n) {g : Vector ℝ n} {H : SquareMatrix ℝ n} {δ tol : ℝ} {iterations : Int}
    {proposal : Proposal ℝ} (returned : proposeStep la checked (.ofVector g) (.ofSquare H) δ [n] tol
      iterations = .ok proposal) :
    0 < δ ∧ ∃ (M : Model ℝ n) (solution : Solution ℝ n), Model.ofDerivatives la g H = .ok M ∧
      M.Exact ∧ M.gradient = g ∧ M.hessian = H.symmetricPart ∧
      M.Route pos δ tol (iterations.toNat - 1) solution ∧ proposal = solution.toProposal := by
  obtain ⟨-, delta_pos, -, solution', solved', rfl⟩ := (proposeStep_eq_ok pos).1 returned
  obtain ⟨M, solution, solved, modelled, E, gradient, hessian, route⟩ :=
    solveSubproblem_route exact_la pos g H delta_pos tol iterations.toNat
  obtain rfl := Except.ok.inj (solved.symm.trans solved')
  exact ⟨delta_pos, M, solution, modelled, E, gradient, hessian, route, rfl⟩

/-- A subproblem whose entries pass the checks gets a proposal, by one of the routes. -/
theorem proposeStep_route {la : LinearAlgebra ℝ} (exact_la : la.Exact) {checked : Bool}
    (pos : 0 < n) {g : Vector ℝ n} {H : SquareMatrix ℝ n} {δ : ℝ} (delta_pos : 0 < δ) (tol : ℝ)
    {iterations : Int} (some_iteration : 1 ≤ iterations)
    (admitted : checkModel checked (.ofVector g) (.ofSquare H) = .ok ()) :
    ∃ (M : Model ℝ n) (solution : Solution ℝ n), M.Exact ∧ M.gradient = g ∧
      M.hessian = H.symmetricPart ∧ M.Route pos δ tol (iterations.toNat - 1) solution ∧
      proposeStep la checked (.ofVector g) (.ofSquare H) δ [n] tol iterations =
        .ok solution.toProposal := by
  obtain ⟨M, solution, solved, -, E, gradient, hessian, route⟩ :=
    solveSubproblem_route exact_la pos g H delta_pos tol iterations.toNat
  exact ⟨M, solution, E, gradient, hessian, route,
    (proposeStep_eq_ok pos).2 ⟨some_iteration, delta_pos, admitted, solution, solved, rfl⟩⟩

/-- Without the checks of the entries there always is a proposal. -/
theorem proposeStep_total {la : LinearAlgebra ℝ} (exact_la : la.Exact) (pos : 0 < n)
    (g : Vector ℝ n) (H : SquareMatrix ℝ n) {δ : ℝ} (delta_pos : 0 < δ) (tol : ℝ)
    {iterations : Int} (some_iteration : 1 ≤ iterations) :
    ∃ proposal, proposeStep la false (.ofVector g) (.ofSquare H) δ [n] tol iterations =
      .ok proposal := by
  obtain ⟨-, solution, -, -, -, -, proposed⟩ :=
    proposeStep_route exact_la pos delta_pos tol some_iteration (if_neg Bool.false_ne_true)
  exact ⟨solution.toProposal, proposed⟩

end TrustRegion
