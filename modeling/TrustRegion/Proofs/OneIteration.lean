/-
  One iteration on a convex quadratic function.

  Where the first region holds the minimizer, the Newton step leads there: its model is exact, so it
  is kept (`Quadratic.Describes.exists_update_minimizer`), and the gradient is zero then. A run
  therefore succeeds in its first iteration (`minimize_quadratic`). Nothing here depends on how the
  derivatives are come by, since differences of a quadratic function are exact.
-/
import TrustRegion.Proofs.NewtonStep
import TrustRegion.Proofs.Observation
import TrustRegion.Proofs.QuadraticDifferences
import TrustRegion.Proofs.Verdict

namespace TrustRegion

open Matrix

variable {n : Nat} {Q : Quadratic n}

namespace Quadratic

/-! ## The minimizer -/

/-- The point `-A⁻¹ b`, where the gradient is zero. -/
noncomputable def minimizer (Q : Quadratic n) : Vector ℝ n := -Q.curvature.inverseMulVec Q.slope

theorem gradient_minimizer (unit : IsUnit Q.curvature.toMatrix) (i : Fin n) :
    Q.gradient Q.minimizer i = 0 := by
  rw [gradient_eq, minimizer, get_neg_eq, mulVec_neg, ← SquareMatrix.get_mulVec_eq,
    SquareMatrix.mulVec_inverseMulVec unit, add_neg_cancel, Pi.zero_apply]

/-- The Newton step leads to the minimizer, from everywhere. -/
theorem newton_eq_minimizer (unit : IsUnit Q.curvature.toMatrix) (x : Vector ℝ n) :
    x + -Q.curvature.inverseMulVec (Q.gradient x) = Q.minimizer := by
  rw [gradient, SquareMatrix.inverseMulVec_add, SquareMatrix.inverseMulVec_mulVec unit]
  refine vector_ext fun i => ?_
  rw [get_add, get_neg, get_add, minimizer, get_neg, neg_add_rev, add_neg_cancel_left]

/-! ## The first iteration -/

variable {σ : Type} {evaluator : Evaluator ℝ ℝ σ} {method : Method ℝ} {la : LinearAlgebra ℝ}
  {checked : Bool} {limits : RootLimits ℝ} {S : Session ℝ ℝ σ n}

/-- An iteration whose region holds the minimizer leads there, and keeps its step. -/
theorem Describes.exists_update_minimizer (describes : Q.Describes method S.state)
    (exact_la : la.Exact) (pos : 0 < n) (evaluates : evaluator.Evaluates Q.answers)
    (valid : method.check = .ok ()) (eta : method.eta < 1)
    (iterations : 1 ≤ limits.maxIterations)
    (convex : ∀ μ ∈ spectrum ℝ Q.curvature.toMatrix, 1e-8 ≤ μ)
    (short : norm (Q.curvature.inverseMulVec (Q.gradient S.state.x)) ≤ S.state.delta) :
    ∃ S', update evaluator method (.subproblem la checked limits) S = .ok () S' ∧
      Q.Describes method S'.state ∧ S'.state.accepted = true ∧ S'.state.x = Q.minimizer ∧
      (∀ i, Q.gradient S'.state.x i = 0) ∧ ∀ y, Q.value S'.state.x ≤ Q.value y := by
  obtain ⟨M, solution, S', E, gradient, hessian, route, updated, step, model⟩ :=
    describes.exists_update exact_la pos evaluates iterations
  have positive : M.Convex := (convex_iff E).2 (hessian ▸ convex)
  have unit : IsUnit Q.curvature.toMatrix := hessian ▸ (E.posDef positive).isUnit
  rw [← gradient, ← hessian] at short
  have newton := route.eq_newton (E.newtonFits positive short)
  rw [newton] at step model
  change S'.state.s = M.newtonStep at step
  change S'.state.m = M.value M.newtonStep at model
  have exact_m : S'.state.m = Q.value (S.state.x + S'.state.s) - Q.value S.state.x := by
    rw [model, step, value_model gradient hessian]
  have small : S'.state.m ≤ Scalar.machineEpsilon := by
    have descent := E.value_newtonStep_le positive (Vector.ofFn fun _ => 0)
    rw [M.value_zero, ← model] at descent
    exact descent.trans LawfulOrder.machineEpsilon_pos.le
  have turn := turn_of_update updated
  have rho := turn.rho_of_exact evaluates.gives describes.consistent exact_m
  rw [if_pos small] at rho
  have accepted := turn.accepted_iff.2 (rho ▸ eta)
  have follows := (turn.consistent evaluates.gives describes.consistent).2
  have moved : S'.state.x = S.state.x + M.newtonStep := by
    rw [follows.kept accepted, follows.previous, step]
  have target : S'.state.x = Q.minimizer := by
    rw [moved, E.newtonStep_eq_neg positive, gradient, hessian, newton_eq_minimizer unit]
  refine ⟨S', updated, describes.next turn evaluates valid, accepted, target, fun i => ?_,
    fun y => ?_⟩
  · rw [target, gradient_minimizer unit]
  · -- Every point is a step away, and no step has a smaller value of the model.
    have least := E.value_newtonStep_le positive (y - S.state.x)
    have there : S.state.x + (y - S.state.x) = y := by
      refine vector_ext fun i => ?_
      rw [get_add, get_sub, add_sub_cancel]
    rw [value_model gradient hessian, value_model gradient hessian, there] at least
    rw [moved]
    linarith

end Quadratic

/-! ## The run -/

variable {σ τ : Type} {evaluator : Evaluator ℝ ℝ σ} {la : LinearAlgebra ℝ} {checked : Bool}
  {options : Options ℝ ℝ} {x₀ : Vector ℝ n} {st : State ℝ ℝ n}

/-- A run starts with an iteration where the gradient is not small. -/
theorem Progress.begin_of_large (pos : 0 < n) (regular : st.Regular) {g : Vector ℝ n}
    (gradient : st.g = .ofVector g) (tolerance : 0 < options.tolerances.gradient)
    (large : options.tolerances.gradient ≤ ‖g.get‖) :
    ∃ p, Progress.begin options st = .ok p ∧ p.stop = .budget := by
  obtain ⟨p, begun⟩ := regular.exists_begin pos options
  obtain ⟨small, assessed, rfl⟩ := Progress.begin_eq_ok.1 begun
  refine ⟨_, begun, ?_⟩
  cases small with
  | false => rfl
  | true =>
    have below : ‖g.get‖ < options.tolerances.gradient := by
      refine (pi_norm_lt_iff tolerance).2 fun i => ?_
      refine (Tolerances.assessStart_iff assessed).1 rfl _ ?_
      rw [gradient]
      exact Array.getElem_mem _
    exact absurd below (not_lt.2 large)

/-- The gradient test holds where the gradient is zero. -/
theorem State.tests_gradient {tol : Tolerances ℝ} {g : Vector ℝ n} (gradient : st.g = .ofVector g)
    (zero : ∀ i, g i = 0) (tolerance : 0 < tol.gradient) : (st.tests tol).gradient = true := by
  have largest : Scalar.maximum (st.g.data.toList.map Scalar.abs) = 0 := by
    refine Scalar.maximum_eq_zero fun a mem => ?_
    obtain ⟨b, entry, rfl⟩ := List.mem_map.1 mem
    rw [gradient] at entry
    obtain ⟨i, inside, rfl⟩ := Array.getElem_of_mem (Array.mem_toList_iff.1 entry)
    have vanishes : g.toArray[i] = 0 := zero ⟨i, g.size_toArray ▸ inside⟩
    show |g.toArray[i]| = 0
    rw [vanishes, abs_zero]
  refine decide_eq_true ?_
  rw [largest]
  exact tolerance

/-- A run whose first region holds the minimizer of the function ends there after one iteration. -/
theorem Quadratic.exists_minimizeFrom (exact_la : la.Exact) (pos : 0 < n)
    (evaluates : evaluator.Evaluates Q.answers)
    (convex : ∀ μ ∈ spectrum ℝ Q.curvature.toMatrix, 1e-8 ≤ μ)
    (valid : options.method.check = .ok ()) (eta : options.method.eta < 1)
    (short : norm (Q.curvature.inverseMulVec (Q.gradient x₀)) ≤ options.method.initialRadius)
    (tolerance : 0 < options.tolerances.gradient)
    (large : options.tolerances.gradient ≤ ‖(Q.gradient x₀).get‖)
    (budget : 1 ≤ options.maxIterations) (iterations : 1 ≤ options.rootLimits.maxIterations)
    (quiet : options.NeverStops) (books : Books ℝ ℝ σ) : ∃ r books',
      minimizeFrom evaluator options (.subproblem la checked options.rootLimits) x₀ books =
        .ok r books' ∧ r.stop = .gradient ∧ r.iterations = 1 ∧ r.convergence.gradient = true ∧
      r.x = Q.minimizer ∧ r.f = Q.value r.x ∧ ∀ y, r.f ≤ Q.value y := by
  obtain ⟨st, ledger, started, describes⟩ := exists_initialState evaluates valid x₀ books.ledger
  obtain ⟨start, radius⟩ := initialState_eq started
  have gradient : st.g = .ofVector (Q.gradient x₀) := start ▸ describes.consistent.gradient
  obtain ⟨p, begun, going⟩ := Progress.begin_of_large pos describes.regular gradient tolerance large
  rw [← start, ← radius] at short
  obtain ⟨T, updated, describes', accepted, target, zero, least⟩ :=
    Describes.exists_update_minimizer (S := ⟨st, ledger, books.journal⟩) describes exact_la pos
      evaluates valid eta iterations convex short
  have course : Course evaluator options (.subproblem la checked options.rootLimits) x₀ books 0
      ⟨st, ledger, books.journal⟩ p := .start started begun
  have small := State.tests_gradient describes'.consistent.gradient zero tolerance
  have stop : (p.after options T.state).stop = .gradient := by
    show (if _ then _ else if _ then _ else _) = _
    rw [quiet, if_neg Bool.false_ne_true, if_pos accepted]
    exact if_pos small
  have tests : (p.after options T.state).convergence = T.state.tests options.tolerances := by
    show (if _ then _ else _) = _
    rw [quiet, accepted]
    rfl
  have ended : (p.after options T.state).stop = .budget → 1 = options.maxIterations.toNat := by
    intro unfinished
    rw [stop] at unfinished
    cases unfinished
  have value := describes'.consistent.f_eq
  have next := course.next going updated
  refine ⟨_, _, minimizeFrom_eq_ok.2 ⟨1, _, _, next, by omega, ended, rfl, rfl⟩, stop,
    next.iterations_eq, ?_, target, value, fun y => ?_⟩
  · show (p.after options T.state).convergence.gradient = true
    rw [tests]
    exact small
  · show T.state.f ≤ Q.value y
    rw [value]
    exact least y

/--
A run on a quadratic function whose Hessian has no eigenvalue below `1e-8` succeeds in its first
iteration if the first region holds the minimizer and the gradient is not small at the start: it
returns the minimizer and the least value, whichever derivatives the problem supplies and whichever
are differenced.
-/
theorem minimize_quadratic (exact_la : la.Exact) (checked : Bool) {p : Problem ℝ τ}
    (poses : p.Poses Q) (convex : ∀ μ ∈ spectrum ℝ Q.curvature.toMatrix, 1e-8 ≤ μ)
    (valid : options.method.check = .ok ()) (eta : options.method.eta < 1)
    (short : norm (Q.curvature.inverseMulVec (Q.gradient x₀)) ≤ options.method.initialRadius)
    (tolerance : 0 < options.tolerances.gradient)
    (large : options.tolerances.gradient ≤ ‖(Q.gradient x₀).get‖)
    (point : 0 ≤ options.tolerances.point) (value : 0 ≤ options.tolerances.value)
    (budget : 1 ≤ options.maxIterations) (unspecified : options.solver = none)
    (precision : 0 < options.rootLimits.tolerance)
    (iterations : 1 ≤ options.rootLimits.maxIterations) (quiet : options.NeverStops)
    (books : Books ℝ ℝ (Counts × τ)) : ∃ (r : Result ℝ ℝ n) (books' : Books ℝ ℝ (Counts × τ)),
      minimize la checked (.evaluator p.evaluator) options (.ofVector x₀) books =
        .ok ⟨n, r⟩ books' ∧
      r.success = true ∧ r.iterations = 1 ∧ r.x = -Q.curvature.inverseMulVec Q.slope ∧
      r.f = Q.value r.x ∧ (∀ y, r.f ≤ Q.value y) ∧ r.convergence.gradient = true ∧
      r.stop.message = "Gradient tolerance satisfied." := by
  have pos : 0 < n := by
    refine Nat.pos_of_ne_zero fun empty => ?_
    subst empty
    rw [norm_of_subsingleton] at large
    exact absurd tolerance (not_lt.2 large)
  have admitted : options.check = .ok () :=
    Options.check_of_nonneg point value tolerance.le (by omega)
  have chosen : options.stepSolver la checked = .ok (.subproblem la checked options.rootLimits) :=
    Options.stepSolver_of_none unspecified precision iterations
  obtain ⟨r, books', ran, stop, one, small, minimizer, value, least⟩ :=
    Quadratic.exists_minimizeFrom exact_la pos poses.evaluates convex valid eta short tolerance
      large budget iterations quiet books
  refine ⟨r, books', (minimize_ofVector_eq_ok pos admitted chosen).2 ran, ?_, one, minimizer, value,
    least, small, ?_⟩
  · exact congrArg Stop.converged stop
  · exact congrArg Stop.message stop

/-- The problem of a quadratic function without derivatives. -/
noncomputable def Quadratic.problem (Q : Quadratic n) : Problem ℝ Unit where
  objective := fun x =>
    match x.toVector? n with
    | some v => pure (.scalar (Q.value v))
    | none => throw .shapeMismatch
  gradient := none
  hessian := none

theorem Quadratic.problem_poses (Q : Quadratic n) : Q.problem.Poses Q where
  objective := fun x => by
    unfold problem
    dsimp only
    rw [Tensor.toVector?_ofVector]
    exact .pure rfl
  gradient := nofun
  hessian := nofun

/-- The round bowl with its bottom at `-v`. -/
noncomputable def bowl (v : Vector ℝ n) : Quadratic n where
  constant := 1
  slope := v
  curvature := SquareMatrix.identity
  symmetric := by
    rw [SquareMatrix.toMatrix_identity]
    exact isSymm_one

theorem toMatrix_curvature_bowl (v : Vector ℝ n) : (bowl v).curvature.toMatrix = 1 :=
  SquareMatrix.toMatrix_identity

theorem newton_bowl (v w : Vector ℝ n) : (bowl v).curvature.inverseMulVec w = w :=
  SquareMatrix.inverseMulVec_of_toMatrix_eq_one (toMatrix_curvature_bowl v) w

theorem gradient_bowl (v : Vector ℝ 2) : (bowl v).gradient #v[0, 0] = v := by
  have origin : (#v[0, 0] : Vector ℝ 2).get = 0 := by
    funext i
    fin_cases i <;> rfl
  refine vector_ext fun i => ?_
  rw [Quadratic.gradient_eq, origin, mulVec_zero, add_zero]
  rfl

/-- The bottom of a bowl is found at once, with all derivatives differenced. -/
theorem minimize_quadratic_bowl : ∃ (Q : Quadratic 2) (r : Result ℝ ℝ 2)
    (books : Books ℝ ℝ (Counts × Unit)),
    LinearAlgebra.exact.Exact ∧ Q.problem.Poses Q ∧
    (∀ μ ∈ spectrum ℝ Q.curvature.toMatrix, 1e-8 ≤ μ) ∧
    minimize .exact true (.evaluator Q.problem.evaluator) Options.standard (.ofVector #v[0, 0])
      ⟨(Counts.zero, ()), #[]⟩ = .ok ⟨2, r⟩ books ∧
    r.success = true ∧ r.iterations = 1 ∧ r.x = -Q.curvature.inverseMulVec Q.slope ∧
    r.f = Q.value r.x ∧ (∀ y, r.f ≤ Q.value y) ∧ r.convergence.gradient = true ∧
    r.stop.message = "Gradient tolerance satisfied." := by
  have convex : ∀ μ ∈ spectrum ℝ (bowl #v[0, -1]).curvature.toMatrix, 1e-8 ≤ μ := by
    intro μ mem
    rw [toMatrix_curvature_bowl, spectrum.one_eq, Set.mem_singleton_iff] at mem
    rw [mem]
    norm_num
  have short :
      norm ((bowl #v[0, -1]).curvature.inverseMulVec ((bowl #v[0, -1]).gradient #v[0, 0])) ≤
        (Options.standard : Options ℝ ℝ).method.initialRadius := by
    have radius : (Options.standard : Options ℝ ℝ).method.initialRadius = 1 := by
      norm_num [Options.standard, Method.standard]
    rw [gradient_bowl, newton_bowl, radius]
    refine (norm_le_iff _ zero_le_one).2 ?_
    rw [real_dot, Fin.sum_univ_two]
    show (0 : ℝ) * 0 + -1 * -1 ≤ 1 ^ 2
    norm_num
  have large : (Options.standard : Options ℝ ℝ).tolerances.gradient ≤
      ‖((bowl #v[0, -1]).gradient #v[0, 0]).get‖ := by
    rw [gradient_bowl]
    have entry : ‖(-1 : ℝ)‖ ≤ ‖(#v[0, -1] : Vector ℝ 2).get‖ :=
      norm_le_pi_norm (#v[0, -1] : Vector ℝ 2).get 1
    rw [norm_neg, norm_one] at entry
    refine le_trans ?_ entry
    norm_num [Options.standard]
  have tolerances : 0 ≤ (Options.standard : Options ℝ ℝ).tolerances.point ∧
      0 ≤ (Options.standard : Options ℝ ℝ).tolerances.value ∧
      0 < (Options.standard : Options ℝ ℝ).tolerances.gradient := by
    norm_num [Options.standard]
  have eta : (Options.standard : Options ℝ ℝ).method.eta < 1 := by
    norm_num [Options.standard, Method.standard]
  have limits : 0 < (Options.standard : Options ℝ ℝ).rootLimits.tolerance ∧
      1 ≤ (Options.standard : Options ℝ ℝ).rootLimits.maxIterations := by
    norm_num [Options.standard, RootLimits.standard]
  obtain ⟨r, books, returned⟩ := minimize_quadratic LinearAlgebra.exact_exact true
    (bowl #v[0, -1]).problem_poses convex Method.standard_check eta short tolerances.2.2 large
    tolerances.1 tolerances.2.1 (by decide) rfl limits.1 limits.2 (fun _ _ => rfl)
    ⟨(Counts.zero, ()), #[]⟩
  exact ⟨_, r, books, LinearAlgebra.exact_exact, (bowl _).problem_poses, convex, returned⟩

end TrustRegion
