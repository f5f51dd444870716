/-
  Runs that always return.

  With exact factorizations, a valid method and an evaluator that always answers, the solver of the
  subproblem fits into every iteration: the arrays of a state keep their shapes and its radius stays
  positive (`Turn.regular`), whatever the values at the trial points are and however many steps are
  taken back. So every subproblem is well posed, every iteration returns, and so does every run
  (`minimize_returns`).
-/
import TrustRegion.Proofs.Radius
import TrustRegion.Proofs.Stopping
import TrustRegion.Proofs.WellPosed

namespace TrustRegion

/-- The evaluator always answers, with arrays of the right shapes. -/
structure Evaluator.Answering {α β σ : Type} (evaluator : Evaluator α β σ) (n : Nat) : Prop where
  /-- Values and gradients. -/
  valueAndGradient : ∀ (x : Vector α n) ledger, ∃ (f : β) (g : Vector α n) (ledger' : σ),
    evaluator.valueAndGradient (.ofVector x) ledger = .ok (.scalar f, .ofVector g) ledger'
  /-- Hessians. -/
  hessian : ∀ (x : Vector α n) ledger, ∃ (H : SquareMatrix α n) (ledger' : σ),
    evaluator.hessian (.ofVector x) ledger = .ok (.ofSquare H) ledger'

theorem Answers.toEvaluator_answering {α β : Type} {n : Nat} (answers : Answers α β n)
    (scalar : ∀ x, ∃ f, answers.value x = .scalar f) : answers.toEvaluator.Answering n where
  valueAndGradient := fun x _ => by
    obtain ⟨f, value⟩ := scalar x
    exact ⟨f, answers.gradient x, (), value ▸ answers.valueAndGradient_toEvaluator x⟩
  hessian := fun x _ => ⟨answers.hessian x, (), answers.hessian_toEvaluator x⟩

variable {β σ : Type} {n : Nat}

/-- A state with a gradient and a Hessian of the right shapes and a positive radius. -/
structure State.Regular (st : State ℝ β n) : Prop where
  /-- The gradient is a vector. -/
  gradient : ∃ g : Vector ℝ n, st.g = .ofVector g
  /-- There is room for it. -/
  gPrevious : st.gPrevious.shape = [n]
  /-- The Hessian is a square matrix. -/
  hessian : ∃ H : SquareMatrix ℝ n, st.H = .ofSquare H
  /-- The radius is positive. -/
  radius : 0 < st.delta

variable [Scalar β] [Embeds ℝ β] {evaluator : Evaluator ℝ β σ} {method : Method ℝ}
  {solver : StepSolver ℝ β} {S S' : Session ℝ β σ n} {st : State ℝ β n} {x : Vector ℝ n}

omit [Embeds ℝ β] in
theorem initialState_regular (valid : method.check = .ok ()) (answering : evaluator.Answering n)
    (x : Vector ℝ n) (ledger : σ) : ∃ st ledger',
      initialState evaluator method x ledger = .ok st ledger' ∧ st.Regular := by
  obtain ⟨f, g, ledger₁, evaluated⟩ := answering.valueAndGradient x ledger
  obtain ⟨H, ledger₂, evaluated'⟩ := answering.hessian x ledger₁
  have radius : 0 < method.initialRadius := ((Method.check_eq_ok_iff method).1 valid).2.1.1
  exact ⟨_, ledger₂, initialState_eq_ok.2
    ⟨.scalar f, .ofVector g, ledger₁, .ofSquare H, f, evaluated, evaluated', rfl, rfl⟩,
    ⟨⟨g, rfl⟩, rfl, ⟨H, rfl⟩, radius⟩⟩

/-- Iterations keep states regular, whether they keep the step or take it back. -/
theorem Turn.regular (turn : Turn evaluator method solver S S') (valid : method.check = .ok ())
    (answering : evaluator.Answering n) (regular : S.state.Regular) : S'.state.Regular := by
  obtain ⟨g, gradient⟩ := regular.gradient
  have written {T : Trial ℝ β n} {ledger : σ} (happens : T.Happens evaluator solver S ledger) :
      T.gPrevious.shape = [n] := by
    rw [Tensor.shape_writeOver happens.saved, regular.gPrevious]
  cases turn with
  | @takenBack T happens low state =>
    rw [state]
    exact ⟨⟨g, gradient⟩, written happens, regular.hessian, T.delta_pos valid regular.radius⟩
  | @kept T ledger H happens high evaluated state =>
    obtain ⟨value, g', evaluated', -, received⟩ := happens.evaluated
    obtain ⟨f, g'', ledger', answered⟩ := answering.valueAndGradient (S.state.x + T.s) S.ledger
    obtain ⟨H', ledger'', answered'⟩ := answering.hessian (S.state.x + T.s) ledger
    rw [evaluated'] at answered
    cases answered
    rw [evaluated] at answered'
    cases answered'
    rw [gradient] at received
    have trial : T.g = .ofVector g'' := Tensor.eq_of_writeOver_shape received
    rw [state]
    exact ⟨⟨g'', trial⟩, written happens, ⟨H', rfl⟩, T.delta_pos valid regular.radius⟩

/-! ## Iterations -/

variable {la : LinearAlgebra ℝ} {limits : RootLimits ℝ}

/-- An iteration from a regular state returns if there is a step for it. -/
theorem State.Regular.exists_update_of_propose (regular : S.state.Regular)
    (answering : evaluator.Answering n) (method : Method ℝ) {proposal : Proposal ℝ} {s : Vector ℝ n}
    (proposed : solver.propose S.state = .ok proposal) (step : proposal.step = .ofVector s) :
    ∃ S', update evaluator method solver S = .ok () S' := by
  obtain ⟨g, gradient⟩ := regular.gradient
  obtain ⟨f, g', ledger, evaluated⟩ := answering.valueAndGradient (S.state.x + s) S.ledger
  obtain ⟨H', ledger', curved⟩ := answering.hessian (S.state.x + s) ledger
  have shape : S.state.g.shape = [n] := by
    rw [gradient]
    rfl
  obtain ⟨S', updated, -, -⟩ := TrustRegion.exists_update method proposed step shape
    regular.gPrevious evaluated ⟨_, ledger', curved⟩
  exact ⟨S', updated⟩

/-- With exact factorizations, an iteration from a regular state returns. -/
theorem State.Regular.exists_update (regular : S.state.Regular) (exact_la : la.Exact) (pos : 0 < n)
    (answering : evaluator.Answering n) (iterations : 1 ≤ limits.maxIterations)
    (method : Method ℝ) :
    ∃ S', update evaluator method (.subproblem la false limits) S = .ok () S' := by
  obtain ⟨g, gradient⟩ := regular.gradient
  obtain ⟨H, hessian⟩ := regular.hessian
  obtain ⟨-, solution, -, -, -, -, returned⟩ := proposeStep_route exact_la pos (g := g) (H := H)
    regular.radius limits.tolerance iterations (if_neg Bool.false_ne_true)
  have proposed : (StepSolver.subproblem la false limits).propose S.state =
      .ok solution.toProposal := by
    show proposeStep la false S.state.g S.state.H S.state.delta S.state.g.shape _ _ = _
    rw [gradient, hessian]
    exact returned
  exact regular.exists_update_of_propose answering method proposed rfl

/-- Whatever an iteration from `st` to `st'` divides by, takes the root of or factorizes is allowed. -/
structure State.Safe (pos : 0 < n) (la : LinearAlgebra ℝ) (limits : RootLimits ℝ)
    (st st' : State ℝ β n) : Prop where
  /-- The region is not empty. -/
  radius : 0 < st.delta
  /-- The subproblem is well posed. -/
  subproblem : ∃ g H M, st.g = .ofVector g ∧ st.H = .ofSquare H ∧
    Model.ofDerivatives la g H = .ok M ∧ M.WellPosed pos la st.delta limits
  /-- The divisor of the ratio, if it is formed. -/
  ratio : negligibleModel st'.m = false → -st'.m ≠ 0

omit [Scalar β] [Embeds ℝ β] in
theorem State.Regular.safe (regular : st.Regular) (exact_la : la.Exact) (pos : 0 < n)
    (limits : RootLimits ℝ) (st' : State ℝ β n) : st.Safe pos la limits st' := by
  obtain ⟨g, gradient⟩ := regular.gradient
  obtain ⟨H, hessian⟩ := regular.hessian
  obtain ⟨M, modelled, E, -, -⟩ := Model.ofDerivatives_eq exact_la g H
  refine ⟨regular.radius, ⟨g, H, M, gradient, hessian, modelled,
    E.wellPosed exact_la pos regular.radius limits⟩, fun noticed => ?_⟩
  have large : ¬ |st'.m| ≤ Scalar.machineEpsilon := of_decide_eq_false noticed
  refine neg_ne_zero.2 fun zero => large ?_
  rw [zero, abs_zero]
  exact LawfulOrder.machineEpsilon_pos.le

/-! ## Runs -/

variable {options : Options ℝ β} {books : Books ℝ β σ} {k : Nat} {T : Session ℝ β σ n}
  {p : Progress ℝ β n}

theorem Course.regular (course : Course evaluator options solver x books k T p)
    (valid : options.method.check = .ok ()) (answering : evaluator.Answering n) :
    T.state.Regular := by
  induction course with
  | start evaluated begun =>
    obtain ⟨st, ledger, evaluated', regular⟩ := initialState_regular valid answering x books.ledger
    rw [evaluated] at evaluated'
    cases evaluated'
    exact regular
  | next course going updated ih => exact (turn_of_update updated).regular valid answering ih

omit [Scalar β] [Embeds ℝ β] in
theorem Options.check_of_nonneg (point : 0 ≤ options.tolerances.point)
    (value : 0 ≤ options.tolerances.value) (gradient : 0 ≤ options.tolerances.gradient)
    (budget : 0 ≤ options.maxIterations) : options.check = .ok () := by
  have nonneg : options.tolerances.isNegative = false := by
    refine decide_eq_false (not_lt.2 ?_)
    rw [Scalar.real_min, Scalar.real_min]
    exact le_min (le_min point value) gradient
  unfold check
  rw [nonneg, if_neg Bool.false_ne_true, if_neg (not_lt.2 budget)]
  rfl

omit [Scalar β] [Embeds ℝ β] in
theorem Options.stepSolver_of_none {checked : Bool} (unspecified : options.solver = none)
    (tolerance : 0 < options.rootLimits.tolerance)
    (iterations : 1 ≤ options.rootLimits.maxIterations) :
    options.stepSolver la checked = .ok (.subproblem la checked options.rootLimits) := by
  have admitted : options.rootLimits.check = .ok () :=
    (RootLimits.check_eq_ok_iff _).2 ⟨not_lt.2 iterations, not_le.2 tolerance⟩
  unfold stepSolver
  rw [unspecified]
  dsimp only
  rw [admitted]
  rfl

omit [Scalar β] [Embeds ℝ β] in
theorem State.Regular.exists_begin (regular : st.Regular) (pos : 0 < n)
    (options : Options ℝ β) : ∃ p, Progress.begin options st = .ok p := by
  obtain ⟨g, gradient⟩ := regular.gradient
  have entries : st.g.data.toList ≠ [] := by
    intro empty
    have size : st.g.data.size = n := by
      rw [gradient]
      exact g.size_toArray
    rw [← Array.length_toList, empty] at size
    exact pos.ne size
  obtain ⟨first, rest, cons⟩ := List.exists_cons_of_ne_nil entries
  exact ⟨_, Progress.begin_eq_ok.2 ⟨_, Tolerances.assessStart_eq_ok.2 ⟨first, rest, cons, rfl⟩, rfl⟩⟩

omit [Scalar β] [Embeds ℝ β] in
theorem StepSolver.subproblem_refusing (exact_la : la.Exact) (checked : Bool) :
    (subproblem la.refusing checked limits : StepSolver ℝ β) = subproblem la checked limits := by
  unfold subproblem
  refine congrArg StepSolver.mk (funext fun n => funext fun st => ?_)
  exact proposeStep_refusing exact_la checked st.g st.H st.delta _ _ _

theorem minimize_refusing (exact_la : la.Exact) (unspecified : options.solver = none)
    (checked : Bool) (source : Source ℝ β σ) (start : Tensor ℝ) :
    minimize la.refusing checked source options start =
      minimize la checked source options start := by
  have solver : options.stepSolver la.refusing checked = options.stepSolver la checked := by
    unfold Options.stepSolver
    rw [unspecified]
    dsimp only
    rw [StepSolver.subproblem_refusing exact_la]
  unfold minimize
  rw [solver]

/-- A run that chooses its steps by the subproblem comes to its end. -/
theorem exists_minimizeFrom (exact_la : la.Exact) (pos : 0 < n) (answering : evaluator.Answering n)
    (valid : options.method.check = .ok ()) (iterations : 1 ≤ options.rootLimits.maxIterations)
    (x : Vector ℝ n) (books : Books ℝ β σ) :
    ∃ k T p, Course evaluator options (.subproblem la false options.rootLimits) x books k T p ∧
      minimizeFrom evaluator options (.subproblem la false options.rootLimits) x books =
        .ok (p.result T.state (evaluator.counts T.ledger)) (T.closed p) := by
  obtain ⟨st, ledger, evaluated, regular⟩ := initialState_regular valid answering x books.ledger
  obtain ⟨p₀, begun⟩ := regular.exists_begin pos options
  obtain ⟨k, T, p, course, le, used⟩ := Course.exists_end evaluated begun
    (fun course => (course.regular valid answering).exists_update exact_la pos answering iterations
      options.method) options.maxIterations.toNat
  exact ⟨k, T, p, course, minimizeFrom_eq_ok.2 ⟨k, T, p, course, le, used, rfl, rfl⟩⟩

/--
With exact factorizations, a valid method and an evaluator that always answers, a run that chooses
its steps by the subproblem returns, and each of its iterations is safe. It would return the same if
no matrix had a Cholesky factor but the positive definite ones.
-/
theorem minimize_returns (exact_la : la.Exact) (pos : 0 < n) (answering : evaluator.Answering n)
    (valid : options.method.check = .ok ()) (point : 0 ≤ options.tolerances.point)
    (value : 0 ≤ options.tolerances.value) (gradient : 0 ≤ options.tolerances.gradient)
    (budget : 0 ≤ options.maxIterations) (unspecified : options.solver = none)
    (tolerance : 0 < options.rootLimits.tolerance)
    (iterations : 1 ≤ options.rootLimits.maxIterations) (x : Vector ℝ n) (books : Books ℝ β σ) :
    ∃ r books' S, minimize la false (.evaluator evaluator) options (.ofVector x) books =
        .ok ⟨n, r⟩ books' ∧
      minimize la.refusing false (.evaluator evaluator) options (.ofVector x) books =
        .ok ⟨n, r⟩ books' ∧
      IsRun evaluator options.method (.subproblem la false options.rootLimits) x books.ledger S
        r.iterations ∧
      ∀ k < r.iterations, (S k).Safe pos la options.rootLimits (S (k + 1)) := by
  have admitted : options.check = .ok () := Options.check_of_nonneg point value gradient budget
  have chosen : options.stepSolver la false = .ok (.subproblem la false options.rootLimits) :=
    Options.stepSolver_of_none unspecified tolerance iterations
  obtain ⟨k, T, p, course, ended⟩ :=
    exists_minimizeFrom exact_la pos answering valid iterations x books
  obtain ⟨S, run⟩ := course.exists_isRun
  have returned := (minimize_ofVector_eq_ok pos admitted chosen).2 ended
  refine ⟨_, _, S, returned, ?_, ?_, fun j lt => ?_⟩
  · rw [minimize_refusing exact_la unspecified]
    exact returned
  · rw [course.iterations_result]
    exact run
  · rw [course.iterations_result] at lt
    obtain ⟨T', p', earlier, -⟩ := course.exists_earlier lt.le
    have same : T'.state = S j := earlier.state_eq fun i le => run i (le.trans lt.le)
    rw [← same]
    exact (earlier.regular valid answering).safe exact_la pos _ _

theorem minimize_returns_root : LinearAlgebra.exact.Exact ∧ root.toEvaluator.Answering 1 ∧
    (Options.standard : Options ℝ Extended).method.check = .ok () ∧
    ∃ (r : Result ℝ Extended 1) (books : Books ℝ Extended Unit) (S : Nat → State ℝ Extended 1),
      minimize .exact false (.evaluator root.toEvaluator) Options.standard (.ofVector #v[1])
          ⟨(), #[]⟩ = .ok ⟨1, r⟩ books ∧
        minimize LinearAlgebra.exact.refusing false (.evaluator root.toEvaluator) Options.standard
          (.ofVector #v[1]) ⟨(), #[]⟩ = .ok ⟨1, r⟩ books ∧
        IsRun root.toEvaluator Method.standard (.subproblem .exact false RootLimits.standard) #v[1]
          () S r.iterations ∧
        ∀ k < r.iterations, (S k).Safe one_pos .exact RootLimits.standard (S (k + 1)) := by
  have answering : root.toEvaluator.Answering 1 := root.toEvaluator_answering fun x => ⟨_, rfl⟩
  have valid : (Options.standard : Options ℝ Extended).method.check = .ok () := by
    rw [Method.check_eq_ok_iff]
    norm_num [Options.standard, Method.standard]
  have tolerances : 0 ≤ (Options.standard : Options ℝ Extended).tolerances.point ∧
      0 ≤ (Options.standard : Options ℝ Extended).tolerances.value ∧
      0 ≤ (Options.standard : Options ℝ Extended).tolerances.gradient := by
    norm_num [Options.standard]
  have limits : 0 < (Options.standard : Options ℝ Extended).rootLimits.tolerance ∧
      1 ≤ (Options.standard : Options ℝ Extended).rootLimits.maxIterations := by
    norm_num [Options.standard, RootLimits.standard]
  obtain ⟨point, value, gradient⟩ := tolerances
  exact ⟨LinearAlgebra.exact_exact, answering, valid, minimize_returns LinearAlgebra.exact_exact
    one_pos answering valid point value gradient (by decide) rfl limits.1 limits.2 #v[1] ⟨(), #[]⟩⟩

end TrustRegion
