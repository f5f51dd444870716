/-
  The step after one that was taken back.

  When a step has been taken back, the next one solves the same subproblem with a quarter of the
  radius. It is shorter if the radius has ruled the length of the first one, and need not be shorter
  otherwise: a Newton step that fits into the smaller region, too, is proposed once more as it is,
  and taken back once more (`newton_step_twice`). `Model.Stalls` lists what keeps the next step from
  being shorter; it is shorter if and only if nothing on that list holds (`next_step_shorter_iff`).
-/
import TrustRegion.Proofs.Factorizations
import TrustRegion.Proofs.OneVariable
import TrustRegion.Proofs.Radius
import TrustRegion.Proofs.TwoRadii

namespace TrustRegion

namespace Model

variable {n : Nat} {M : Model ℝ n} {δ tol : ℝ} {pos : 0 < n} {solution solution' : Solution ℝ n}

/-! ## Subproblems with the same model -/

theorem quarter_sq_le (delta_pos : 0 < δ) : (δ / 4) ^ 2 ≤ δ ^ 2 :=
  pow_le_pow_left₀ (by positivity) (by linarith) 2

theorem NewtonFits.of_quarter (delta_pos : 0 < δ) (fits : M.NewtonFits pos (δ / 4)) :
    M.NewtonFits pos δ :=
  ⟨fits.1, fits.2.trans (quarter_sq_le delta_pos)⟩

theorem Completes.of_quarter {k : Nat} (delta_pos : 0 < δ) (completes : M.Completes pos (δ / 4) k) :
    M.Completes pos δ k :=
  ⟨completes.1, completes.2.trans (quarter_sq_le delta_pos)⟩

/-! ## What keeps the next step from being shorter -/

/-- Root finding for the radius `δ` with the standard limits ends at multiplier number `i`. -/
def RootAt (pos : 0 < n) (M : Model ℝ n) (δ : ℝ) (i : Nat) : Prop :=
  M.EndsAt pos δ (M.firstMultiplier pos) 1e-10 4 i

/-- The solution for a quarter of the radius does not have a shorter step than that for `δ`. -/
inductive Stalls (pos : 0 < n) (M : Model ℝ n) (δ : ℝ) : Prop
  /-- The Newton step fits into the smaller region, too. -/
  | fits (fits : M.NewtonFits pos (δ / 4))
  /-- The Newton step only fits into the larger region, and root finding ends before it. -/
  | early {i : Nat} (fits : M.NewtonFits pos δ) (misfit : ¬ M.NewtonFits pos (δ / 4))
    (root : M.RootAt pos (δ / 4) i) (le : M.multiplier pos (δ / 4) i ≤ 0)
  /-- Root finding does not leave the bound, outside of the hard case. -/
  | held (seeks : M.SeeksRoot pos δ) (easy : (M.hardCase pos).1 = false)
    (held : ¬ M.Climbs pos (δ / 4))
  /-- The step could be completed in the larger region only, and root finding ends far outside. -/
  | outside {k i : Nat} (completes : M.Completes pos δ k) (seeks : M.SeeksRoot pos (δ / 4))
    (root : M.RootAt pos (δ / 4) i) (long : δ ≤ M.stepLength (M.multiplier pos (δ / 4) i))
  /-- In the hard case, root finding does not come further for the smaller radius. -/
  | behind {i j : Nat} (seeks : M.SeeksRoot pos δ) (hard : (M.hardCase pos).1 = true)
    (root : M.RootAt pos δ i) (root' : M.RootAt pos (δ / 4) j)
    (le : M.multiplier pos (δ / 4) j ≤ M.multiplier pos δ i)

/-- After a Newton step. -/
theorem Route.norm_lt_newtonStep (route' : M.Route pos (δ / 4) 1e-10 4 solution') (E : M.Exact)
    (fits : M.NewtonFits pos δ) (nonzero : norm M.newtonStep ≠ 0) :
    norm solution'.step < norm M.newtonStep ↔ ¬ M.Stalls pos δ := by
  cases route' with
  | newton fits' => exact iff_of_false (lt_irrefl _) (not_not.2 (.fits fits'))
  | eigenvector misfit completes => exact absurd fits (not_newtonFits_of_hard completes.hard)
  | stationary misfit incomplete flat =>
    rw [newtonStep_eq, E.norm_stepAt, stepLength, squaredLength_zero] at nonzero
    refine absurd ?_ nonzero
    rw [Finset.sum_eq_zero fun j _ => by rw [flat j, zero_pow two_ne_zero, zero_div],
      Real.sqrt_zero]
  | @boundary i seeks ends remark =>
    show norm (M.stepAt _) < _ ↔ _
    rw [newtonStep_eq, E.norm_stepAt, E.norm_stepAt,
      stepLength_lt_iff seeks.sloped (fits.definite E) (E.definite_multiplier pos _ i), ← not_le,
      not_iff_not]
    constructor
    · exact .early fits seeks.misfit ends
    · intro stalls
      cases stalls with
      | fits fits' => exact absurd fits' seeks.misfit
      | early _ _ root le => exact ends.unique root ▸ le
      | held seeks _ _ => exact absurd fits seeks.misfit
      | outside completes _ _ _ => exact absurd fits (not_newtonFits_of_hard completes.hard)
      | behind seeks _ _ _ _ => exact absurd fits seeks.misfit

/-- After a step that was completed along an eigenvector, and has the length of the radius. -/
theorem Route.norm_lt_radius {k : Nat} (route' : M.Route pos (δ / 4) 1e-10 4 solution')
    (E : M.Exact) (delta_pos : 0 < δ) (completes : M.Completes pos δ k) :
    norm solution'.step < δ ↔ ¬ M.Stalls pos δ := by
  have quarter_pos : 0 < δ / 4 := by positivity
  have misfit {δ : ℝ} : ¬ M.NewtonFits pos δ := not_newtonFits_of_hard completes.hard
  have stalls_iff : M.Stalls pos δ ↔ ∃ i, M.SeeksRoot pos (δ / 4) ∧ M.RootAt pos (δ / 4) i ∧
      δ ≤ M.stepLength (M.multiplier pos (δ / 4) i) := by
    constructor
    · intro stalls
      cases stalls with
      | fits fits => exact absurd fits misfit
      | early fits _ _ _ => exact absurd fits misfit
      | held seeks _ _ => exact absurd completes (seeks.incomplete k)
      | @outside _ i _ seeks root long => exact ⟨i, seeks, root, long⟩
      | behind seeks _ _ _ _ => exact absurd completes (seeks.incomplete k)
    · rintro ⟨i, seeks, root, long⟩
      exact .outside completes seeks root long
  rw [stalls_iff]
  cases route' with
  | newton fits' => exact absurd fits' misfit
  | @eigenvector l misfit' completes' =>
    refine iff_of_true ?_ fun ⟨i, seeks, _⟩ => absurd completes' (seeks.incomplete l)
    show norm (M.eigenvectorStep pos _ _ l) < δ
    rw [E.norm_completedStep quarter_pos completes']
    linarith
  | stationary misfit incomplete flat =>
    refine iff_of_true ?_ fun ⟨i, seeks, _⟩ => ?_
    · rw [norm_stationaryStep]
      exact delta_pos
    · exact seeks.sloped.not_flat flat
  | @boundary i seeks ends remark =>
    show norm (M.stepAt _) < _ ↔ _
    rw [E.norm_stepAt, ← not_le, not_iff_not]
    constructor
    · exact fun long => ⟨i, seeks, ends, long⟩
    · rintro ⟨j, -, root, long⟩
      exact ends.unique root ▸ long

/-- After a step from root finding. -/
theorem Route.norm_lt_stepAt {i : Nat} (route' : M.Route pos (δ / 4) 1e-10 4 solution')
    (E : M.Exact) (delta_pos : 0 < δ) (seeks : M.SeeksRoot pos δ) (root : M.RootAt pos δ i) :
    norm solution'.step < norm (M.stepAt (M.multiplier pos δ i)) ↔ ¬ M.Stalls pos δ := by
  have definite := E.definite_multiplier pos δ i
  cases route' with
  | newton fits' => exact absurd (fits'.of_quarter delta_pos) seeks.misfit
  | eigenvector misfit completes =>
    exact absurd (completes.of_quarter delta_pos) (seeks.incomplete _)
  | stationary misfit incomplete flat => exact absurd flat seeks.sloped.not_flat
  | @boundary j seeks' root' remark =>
    show norm (M.stepAt _) < _ ↔ _
    rw [E.norm_stepAt, E.norm_stepAt]
    have stalls_iff : M.Stalls pos δ ↔
        ((M.hardCase pos).1 = false ∧ ¬ M.Climbs pos (δ / 4)) ∨
          ((M.hardCase pos).1 = true ∧ M.multiplier pos (δ / 4) j ≤ M.multiplier pos δ i) := by
      constructor
      · intro stalls
        cases stalls with
        | fits fits => exact absurd fits seeks'.misfit
        | early fits _ _ _ => exact absurd fits seeks.misfit
        | held _ easy held => exact Or.inl ⟨easy, held⟩
        | outside completes _ _ _ => exact absurd completes (seeks.incomplete _)
        | behind _ hard ends ends' le =>
          exact Or.inr ⟨hard, root'.unique ends' ▸ root.unique ends ▸ le⟩
      · rintro (⟨easy, held⟩ | ⟨hard, le⟩)
        · exact .held seeks easy held
        · exact .behind seeks hard root root' le
    rw [stalls_iff]
    cases detected : (M.hardCase pos).1 with
    | false =>
      rw [E.stepLength_lt_iff_climbs seeks.sloped delta_pos detected (by norm_num) root root']
      simp
    | true =>
      rw [stepLength_lt_iff seeks.sloped definite (E.definite_multiplier pos _ j), ← not_le]
      simp

/-- For a quarter of the radius the step is shorter if and only if nothing stalls. -/
theorem Route.norm_lt_iff (route : M.Route pos δ 1e-10 4 solution)
    (route' : M.Route pos (δ / 4) 1e-10 4 solution') (E : M.Exact) (delta_pos : 0 < δ)
    (nonzero : norm solution.step ≠ 0) :
    norm solution'.step < norm solution.step ↔ ¬ M.Stalls pos δ := by
  cases route with
  | newton fits => exact route'.norm_lt_newtonStep E fits nonzero
  | eigenvector misfit completes =>
    show _ < norm (M.eigenvectorStep pos _ _ _) ↔ _
    rw [E.norm_completedStep delta_pos completes]
    exact route'.norm_lt_radius E delta_pos completes
  | stationary misfit incomplete flat => exact absurd norm_stationaryStep nonzero
  | boundary seeks root remark => exact route'.norm_lt_stepAt E delta_pos seeks root

end Model

/-! ## The solver as it is called -/

section Called

variable {la : LinearAlgebra ℝ} {checked : Bool} {n k : Nat} {g : Vector ℝ k}
  {H : SquareMatrix ℝ k} {δ δ' tol : ℝ} {iterations : Int} {proposal : Proposal ℝ}

/-- What gets a proposal for one radius gets one for any other. -/
theorem proposeStep_resized (exact_la : la.Exact) (pos : 0 < k)
    (returned : proposeStep la checked (.ofVector g) (.ofSquare H) δ [k] tol iterations =
      .ok proposal) (delta_pos' : 0 < δ') :
    ∃ proposal', proposeStep la checked (.ofVector g) (.ofSquare H) δ' [k] tol iterations =
      .ok proposal' := by
  obtain ⟨some_iteration, -, checks, -⟩ := (proposeStep_eq_ok pos).1 returned
  obtain ⟨M, solution, solved, -⟩ :=
    solveSubproblem_route exact_la pos g H delta_pos' tol iterations.toNat
  exact ⟨solution.toProposal,
    (proposeStep_eq_ok pos).2 ⟨some_iteration, delta_pos', checks, solution, solved, rfl⟩⟩

/-- A vector written over another keeps its length up to a factor, whatever its entries are. -/
theorem exists_scale {u : Vector ℝ k} {s : Vector ℝ n}
    (written : (Tensor.ofVector u).writeOverVector n = .ok s) :
    ∃ c : ℝ, 0 ≤ c ∧ ∀ v : Vector ℝ k, ∃ t : Vector ℝ n,
      (Tensor.ofVector v).writeOverVector n = .ok t ∧ norm t = c * norm v := by
  rcases Tensor.eq_or_eq_one_of_writeOverVector written with rfl | rfl
  · exact ⟨1, zero_le_one, fun v => ⟨v, Tensor.writeOverVector_ofVector v, (one_mul _).symm⟩⟩
  · refine ⟨√n, Real.sqrt_nonneg _, fun v => ⟨_, Tensor.writeOverVector_of_one n v, ?_⟩⟩
    have entry (i : Fin n) : (Vector.replicate n (v.get 0)) i = v.get 0 := by
      simp [Vector.get]
    show √(dot _ _) = √n * √(dot v v)
    rw [real_dot, real_dot, Fin.sum_univ_one, ← Real.sqrt_mul (Nat.cast_nonneg n)]
    simp only [entry, Finset.sum_const, Finset.card_univ, Fintype.card_fin, nsmul_eq_mul]

/-- A step and the one that is proposed for a quarter of its radius. -/
theorem exists_retry (exact_la : la.Exact) (pos : 0 < k)
    (returned : proposeStep la checked (.ofVector g) (.ofSquare H) δ [k] 1e-10 5 = .ok proposal)
    {s : Vector ℝ n} (written : proposal.step.writeOverVector n = .ok s) (nonzero : norm s ≠ 0) :
    ∃ (M : Model ℝ k) (proposal' : Proposal ℝ) (s' : Vector ℝ n),
      Model.ofDerivatives la g H = .ok M ∧
      proposeStep la checked (.ofVector g) (.ofSquare H) (δ / 4) [k] 1e-10 5 = .ok proposal' ∧
      proposal'.step.writeOverVector n = .ok s' ∧ (norm s' < norm s ↔ ¬ M.Stalls pos δ) := by
  obtain ⟨delta_pos, M, solution, modelled, E, -, -, route, rfl⟩ :=
    exists_route exact_la pos returned
  obtain ⟨proposal', returned'⟩ := proposeStep_resized exact_la pos returned
    (by positivity : 0 < δ / 4)
  obtain ⟨-, M', solution', modelled', -, -, -, route', rfl⟩ :=
    exists_route exact_la pos returned'
  obtain rfl := Except.ok.inj (modelled.symm.trans modelled')
  obtain ⟨c, c_nonneg, scaled⟩ := exists_scale written
  obtain ⟨t, written_t, length⟩ := scaled solution.step
  obtain rfl := Except.ok.inj (written.symm.trans written_t)
  obtain ⟨s', written', length'⟩ := scaled solution'.step
  rw [length] at nonzero
  have c_pos : 0 < c := lt_of_le_of_ne' c_nonneg (left_ne_zero_of_mul nonzero)
  refine ⟨M, _, s', modelled, returned', written', ?_⟩
  rw [length, length', mul_lt_mul_iff_right₀ c_pos]
  exact route.norm_lt_iff route' E delta_pos (right_ne_zero_of_mul nonzero)

end Called

/-! ## Iterations -/

section Iterations

variable {β σ : Type} [Scalar β] [Embeds ℝ β] {n : Nat} {evaluator : Evaluator ℝ β σ}
  {method : Method ℝ} {solver : StepSolver ℝ β} {la : LinearAlgebra ℝ} {checked : Bool}
  {S T U : Session ℝ β σ n}

/-- The step of the state is the one that was proposed. -/
theorem Turn.written (turn : Turn evaluator method solver S T) {proposal : Proposal ℝ}
    {s : Vector ℝ n} (proposed : solver.propose S.state = .ok proposal)
    (written : proposal.step.writeOverVector n = .ok s) : T.state.s = s := by
  cases turn with
  | @takenBack R happens low state =>
    obtain rfl := Except.ok.inj (happens.proposed.symm.trans proposed)
    rw [state]
    exact Except.ok.inj (happens.written.symm.trans written)
  | @kept R ledger H happens high evaluated state =>
    obtain rfl := Except.ok.inj (happens.proposed.symm.trans proposed)
    rw [state]
    exact Except.ok.inj (happens.written.symm.trans written)

/--
When a step that is not zero has been taken back, the next one solves the same model with a quarter
of the radius. It is shorter if and only if the model does not stall.
-/
theorem next_step_shorter_iff [LawfulOrder β] [LawfulEmbeds ℝ β] (exact_la : la.Exact)
    (valid : method.check = .ok ())
    (returned : update evaluator method (.subproblem la checked RootLimits.standard) S = .ok () T)
    (rejected : T.state.accepted = false) (nonzero : norm T.state.s ≠ 0) :
    ∃ (k : Nat) (pos : 0 < k) (g : Vector ℝ k) (H : SquareMatrix ℝ k) (M : Model ℝ k)
      (s : Vector ℝ n), S.state.g = .ofVector g ∧ S.state.H = .ofSquare H ∧
      Model.ofDerivatives la g H = .ok M ∧
      (∃ proposal, (StepSolver.subproblem la checked RootLimits.standard).propose T.state =
        .ok proposal ∧ proposal.step.writeOverVector n = .ok s) ∧
      (∀ U, update evaluator method (.subproblem la checked RootLimits.standard) T = .ok () U →
        U.state.s = s) ∧
      (norm s < norm T.state.s ↔ ¬ M.Stalls pos S.state.delta) := by
  cases turn_of_update returned with
  | @takenBack R happens low state =>
    have proposed : proposeStep la checked S.state.g S.state.H S.state.delta S.state.g.shape 1e-10
        5 = .ok R.proposal := happens.proposed
    have radius : T.state.delta = S.state.delta / 4 := by
      rw [state]
      exact Trial.delta_of_le_eta valid low
    have same : T.state.g = S.state.g ∧ T.state.H = S.state.H ∧ T.state.s = R.s := by
      rw [state]
      exact ⟨rfl, rfl, rfl⟩
    obtain ⟨gradient, hessian, step⟩ := same
    rw [step] at nonzero ⊢
    obtain ⟨k, pos, g, H, g_eq, H_eq, shape⟩ := exists_ofVector_of_proposeStep proposed
    rw [shape, g_eq, H_eq] at proposed
    obtain ⟨M, proposal', s, modelled, proposed', written', shorter⟩ :=
      exists_retry exact_la pos proposed happens.written nonzero
    have again : (StepSolver.subproblem la checked RootLimits.standard).propose T.state =
        .ok proposal' := by
      show proposeStep la checked T.state.g T.state.H T.state.delta T.state.g.shape _ _ = _
      rw [gradient, hessian, radius, shape, g_eq, H_eq]
      exact proposed'
    exact ⟨k, pos, g, H, M, s, g_eq, H_eq, modelled, ⟨proposal', again, written'⟩,
      fun U returned' => (turn_of_update returned').written again written', shorter⟩
  | kept happens high evaluated state =>
    rw [state] at rejected
    cases rejected

end Iterations

/-! ## A step that is proposed twice -/

/-- The cubic `x + 4x² − 64x³` of the first number, with its derivatives. -/
def cubic {α : Type} [Scalar α] : Answers α α 1 where
  value := fun v =>
    let x := v.toArray.getD 0 0
    .scalar (x + 4.0 * (x * x) - 64.0 * (x * x * x))
  gradient := fun v =>
    let x := v.toArray.getD 0 0
    #v[1.0 + 8.0 * x - 192.0 * (x * x)]
  hessian := fun v =>
    let x := v.toArray.getD 0 0
    #v[#v[8.0 - 384.0 * x]]

theorem cubic_value (x : ℝ) :
    (cubic : Answers ℝ ℝ 1).value #v[x] = .scalar (x + 4 * x ^ 2 - 64 * x ^ 3) := by
  refine congrArg Tensor.scalar ?_
  show x + 4.0 * (x * x) - 64.0 * (x * x * x) = _
  norm_num
  ring

theorem cubic_gradient_zero : (cubic : Answers ℝ ℝ 1).gradient #v[0] = #v[1] := by
  show (#v[1.0 + 8.0 * 0 - 192.0 * (0 * 0)] : Vector ℝ 1) = _
  norm_num

theorem cubic_hessian_zero : (cubic : Answers ℝ ℝ 1).hessian #v[0] = #v[#v[8]] := by
  show (#v[#v[8.0 - 384.0 * 0]] : SquareMatrix ℝ 1) = _
  norm_num

/-- At the zero of the cubic, with radius `δ`. -/
structure State.AtZero (st : State ℝ ℝ 1) (δ : ℝ) : Prop where
  /-- The point is zero. -/
  x : st.x = #v[0]
  /-- Value, gradient and Hessian are those of the cubic. -/
  consistent : st.Consistent cubic
  /-- There is room for the gradient. -/
  gPrevious : st.gPrevious.shape = [1]
  /-- The radius. -/
  delta : st.delta = δ

theorem initialState_cubic : ∃ st₀ : State ℝ ℝ 1,
    initialState cubic.toEvaluator Method.standard #v[0] () = .ok st₀ () ∧ st₀.AtZero 1 := by
  have started : initialState (cubic : Answers ℝ ℝ 1).toEvaluator Method.standard #v[0] () =
      .ok _ () :=
    initialState_eq_ok.2 ⟨_, _, (), _, _, cubic.valueAndGradient_toEvaluator _,
      cubic.hessian_toEvaluator _, rfl, rfl⟩
  refine ⟨_, started, rfl, initialState_consistent started cubic.toEvaluator_gives, rfl, ?_⟩
  show (1.0 : ℝ) = 1
  norm_num

variable {S T : Session ℝ ℝ Unit 1} {δ : ℝ}

/-- The Newton step from the zero of the cubic, for every radius into which it fits. -/
theorem State.AtZero.propose {st : State ℝ ℝ 1} (zero : st.AtZero δ) (fits : 1 ≤ 8 * δ) :
    ∃ proposal : Proposal ℝ, (StepSolver.subproblem .exact false RootLimits.standard).propose st =
      .ok proposal ∧ proposal.step = .ofVector #v[-(1 / 8)] ∧ proposal.outcome.m = -(1 / 16) := by
  obtain ⟨proposal, returned, step, outcome⟩ := proposeStep_convex LinearAlgebra.exact_exact
    (one_ne_zero : (1 : ℝ) ≠ 0) (by norm_num [definiteThreshold_eq] : definiteThreshold ≤ (8 : ℝ))
    (by linarith : 0 < δ) (by rwa [abs_one]) (by norm_num : (1 : Int) ≤ 5)
  refine ⟨proposal, ?_, step, ?_⟩
  · show proposeStep _ _ st.g st.H st.delta st.g.shape _ _ = _
    rw [zero.consistent.gradient, zero.consistent.hessian, zero.x, cubic_gradient_zero,
      cubic_hessian_zero, zero.delta]
    exact returned
  · rw [outcome]
    norm_num

theorem State.AtZero.value_eq {st : State ℝ ℝ 1} (zero : st.AtZero δ) : st.f = 0 := by
  have value := zero.consistent.value
  rw [zero.x, cubic_value] at value
  calc st.f = 0 + 4 * 0 ^ 2 - 64 * 0 ^ 3 := (Except.ok.inj value).symm
    _ = 0 := by norm_num

theorem State.AtZero.value_trial {st : State ℝ ℝ 1} (zero : st.AtZero δ) :
    (cubic : Answers ℝ ℝ 1).value (st.x + #v[-(1 / 8)]) = .scalar (1 / 16) := by
  rw [zero.x, add_singleton, cubic_value]
  norm_num

/-- That step leads up as far as it was to lead down. -/
theorem State.AtZero.ratio (zero : S.state.AtZero δ) (fits : 1 ≤ 8 * δ) {R : Trial ℝ ℝ 1}
    (happens : R.Happens cubic.toEvaluator (.subproblem .exact false RootLimits.standard) S ()) :
    R.ratio Method.standard S.state = -1 := by
  obtain ⟨proposal, proposed, step, model⟩ := zero.propose fits
  obtain ⟨same, same_model⟩ := happens.step_eq proposed step
  obtain ⟨value, -⟩ := happens.eq_answers cubic.toEvaluator_gives zero.consistent
  rw [same, zero.value_trial] at value
  have value : R.f = 1 / 16 := (Except.ok.inj value).symm
  have noticed : negligibleModel (-(1 / 16) : ℝ) = false := by
    norm_num [negligibleModel, Scalar.machineEpsilon, Scalar.abs]
  unfold Trial.ratio reductionRatio
  rw [same_model, model, zero.value_eq, value, noticed]
  norm_num [Scalar.isFinite, Embeds.embed]

/-- So it is taken back. -/
theorem State.AtZero.next (zero : S.state.AtZero δ) (fits : 1 ≤ 8 * δ) :
    ∃ T, update cubic.toEvaluator Method.standard
      (.subproblem .exact false RootLimits.standard) S = .ok () T ∧
      T.state.accepted = false ∧ T.state.s = #v[-(1 / 8)] ∧ T.state.AtZero (δ / 4) := by
  obtain ⟨proposal, proposed, step, -⟩ := zero.propose fits
  have shape : S.state.g.shape = [1] := by
    rw [zero.consistent.gradient]
    rfl
  have evaluated := cubic.valueAndGradient_toEvaluator (S.state.x + #v[-(1 / 8)])
  rw [zero.value_trial] at evaluated
  obtain ⟨T, updated, -, shape'⟩ := exists_update Method.standard proposed step shape
    zero.gPrevious evaluated ⟨_, (), cubic.hessian_toEvaluator _⟩
  have turn := turn_of_update updated
  have consistent := (turn.consistent cubic.toEvaluator_gives zero.consistent).1
  have low : (-1 : ℝ) ≤ Embeds.embed (Method.standard : Method ℝ).eta := by
    norm_num [Method.standard, Embeds.embed]
  refine ⟨T, updated, ?_⟩
  cases turn with
  | @takenBack R happens _ state =>
    have radius : T.state.delta = δ / 4 := by
      rw [state, ← zero.delta]
      exact Trial.delta_of_le_eta Method.standard_check ((zero.ratio fits happens).le.trans low)
    refine ⟨?_, (happens.step_eq proposed step).1 ▸ ?_, ?_, consistent, shape', radius⟩
    · rw [state]; rfl
    · rw [state]; rfl
    · rw [state]; exact zero.x
  | kept happens high _ _ => exact absurd ((zero.ratio fits happens).le.trans low) high

/-- Two updates in a row try the same Newton step, after the radius has been divided by four. -/
theorem newton_step_twice : ∃ (st₀ : State ℝ ℝ 1) (T U : Session ℝ ℝ Unit 1),
    (Method.standard : Method ℝ).check = .ok () ∧
    initialState cubic.toEvaluator Method.standard #v[0] () = .ok st₀ () ∧
    update cubic.toEvaluator Method.standard (.subproblem .exact false RootLimits.standard)
      ⟨st₀, (), #[]⟩ = .ok () T ∧
    T.state.accepted = false ∧ norm T.state.s ≠ 0 ∧
    update cubic.toEvaluator Method.standard (.subproblem .exact false RootLimits.standard) T =
      .ok () U ∧
    ¬ norm U.state.s < norm T.state.s := by
  obtain ⟨st₀, started, zero⟩ := initialState_cubic
  obtain ⟨T, updated, rejected, step, zero'⟩ :=
    State.AtZero.next (S := ⟨st₀, (), #[]⟩) zero (by norm_num)
  obtain ⟨U, updated', -, step', -⟩ := zero'.next (by norm_num)
  refine ⟨st₀, T, U, Method.standard_check, started, updated, rejected, ?_, updated', ?_⟩
  · rw [step, norm_singleton]
    norm_num
  · rw [step, step']
    exact lt_irrefl _

theorem next_step_shorter_iff_cubic : ∃ (st₀ : State ℝ ℝ 1) (T : Session ℝ ℝ Unit 1),
    initialState cubic.toEvaluator Method.standard #v[0] () = .ok st₀ () ∧
    update cubic.toEvaluator Method.standard (.subproblem .exact false RootLimits.standard)
      ⟨st₀, (), #[]⟩ = .ok () T ∧
    T.state.accepted = false ∧ norm T.state.s ≠ 0 ∧
    ∃ (k : Nat) (pos : 0 < k) (g : Vector ℝ k) (H : SquareMatrix ℝ k) (M : Model ℝ k)
      (s : Vector ℝ 1), st₀.g = .ofVector g ∧ st₀.H = .ofSquare H ∧
      Model.ofDerivatives .exact g H = .ok M ∧
      (∃ proposal, (StepSolver.subproblem .exact false RootLimits.standard).propose T.state =
        .ok proposal ∧ proposal.step.writeOverVector 1 = .ok s) ∧
      (∀ U, update cubic.toEvaluator Method.standard
        (.subproblem .exact false RootLimits.standard) T = .ok () U → U.state.s = s) ∧
      (norm s < norm T.state.s ↔ ¬ M.Stalls pos st₀.delta) := by
  obtain ⟨st₀, started, zero⟩ := initialState_cubic
  obtain ⟨T, updated, rejected, step, -⟩ :=
    State.AtZero.next (S := ⟨st₀, (), #[]⟩) zero (by norm_num)
  have nonzero : norm T.state.s ≠ 0 := by
    rw [step, norm_singleton]
    norm_num
  exact ⟨st₀, T, started, updated, rejected, nonzero, next_step_shorter_iff
    LinearAlgebra.exact_exact Method.standard_check updated rejected nonzero⟩

end TrustRegion
