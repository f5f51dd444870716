/-
  Runs on quadratic functions.

  On a quadratic function with a symmetric matrix the model of a step is no approximation: its value
  is the change of the function (`Quadratic.value_add`), by whichever way the subproblem is left
  (`Model.Route.m_eq`). So the ratio of a trial is 1, unless the model predicts an increase
  (`reductionRatio_of_exact`): an iteration keeps its step if and only if the model predicts none,
  and the region never shrinks when it does (`Turn.modelled`). That the arrays of the state go on
  fitting together carries this from one iteration to the next (`updates_quadratic`).
-/
import TrustRegion.Proofs.Totality

namespace TrustRegion

open Matrix

variable {n : Nat}

/-! ## Quadratic functions -/

/-- The quadratic function `c + b·x + ½ x·(A x)` with a symmetric matrix `A`. -/
structure Quadratic (n : Nat) where
  /-- The value `c` at the origin. -/
  constant : ℝ
  /-- The gradient `b` at the origin. -/
  slope : Vector ℝ n
  /-- The Hessian `A`. -/
  curvature : SquareMatrix ℝ n
  /-- The Hessian is symmetric. -/
  symmetric : curvature.toMatrix.IsSymm

namespace Quadratic

/-- The value at a point. -/
noncomputable def value (Q : Quadratic n) (x : Vector ℝ n) : ℝ :=
  Q.constant + (dot Q.slope x + dot ((0.5 : ℝ) * x) (Q.curvature.mulVec x))

/-- The gradient at a point. -/
noncomputable def gradient (Q : Quadratic n) (x : Vector ℝ n) : Vector ℝ n :=
  Q.slope + Q.curvature.mulVec x

/-- The value and its derivatives. -/
noncomputable def answers (Q : Quadratic n) : Answers ℝ ℝ n where
  value := fun x => .scalar (Q.value x)
  gradient := Q.gradient
  hessian := fun _ => Q.curvature

end Quadratic

namespace Quadratic

variable (Q : Quadratic n)

theorem value_eq (x : Vector ℝ n) : Q.value x = Q.constant +
    (Q.slope.get ⬝ᵥ x.get + 1 / 2 * (x.get ⬝ᵥ Q.curvature.toMatrix *ᵥ x.get)) := by
  unfold value
  rw [dot_mul_left, dot_eq_dotProduct, dot_eq_dotProduct, SquareMatrix.get_mulVec_eq]
  norm_num

theorem gradient_eq (x : Vector ℝ n) :
    (Q.gradient x).get = Q.slope.get + Q.curvature.toMatrix *ᵥ x.get := by
  rw [← SquareMatrix.get_mulVec_eq, ← get_add_eq, gradient]

/-- The bilinear form of the Hessian is symmetric. -/
theorem form_comm (u v : Fin n → ℝ) :
    u ⬝ᵥ Q.curvature.toMatrix *ᵥ v = v ⬝ᵥ Q.curvature.toMatrix *ᵥ u := by
  rw [dotProduct_mulVec, ← mulVec_transpose, Q.symmetric, dotProduct_comm]

/-- The gradient and the curvature along a step account for the whole change of the value. -/
theorem value_add (x s : Vector ℝ n) : Q.value (x + s) =
    Q.value x + (dot (Q.gradient x) s + dot ((0.5 : ℝ) * s) (Q.curvature.mulVec s)) := by
  have swapped := Q.form_comm x.get s.get
  have turned := dotProduct_comm (Q.curvature.toMatrix *ᵥ x.get) s.get
  rw [dot_mul_left]
  simp only [dot_eq_dotProduct, SquareMatrix.get_mulVec_eq, value_eq, gradient_eq, get_add_eq,
    mulVec_add, dotProduct_add, add_dotProduct, swapped, turned]
  ring

end Quadratic

namespace SquareMatrix

variable {A : SquareMatrix ℝ n}

theorem get_comm (symmetric : A.toMatrix.IsSymm) (i j : Fin n) : A i j = A j i :=
  symmetric.apply j i

/-- A symmetric matrix is its own symmetric part. -/
theorem symmetricPart_eq (symmetric : A.toMatrix.IsSymm) : A.symmetricPart = A := by
  refine matrix_ext fun i j => ?_
  rw [get_symmetricPart, get_comm symmetric j]
  ring

end SquareMatrix

/-! ## The checks of a symmetric model -/

theorem Scalar.maximum_eq_zero {xs : List ℝ} (zero : ∀ a ∈ xs, a = 0) : Scalar.maximum xs = 0 := by
  unfold maximum
  induction xs with
  | nil => rfl
  | cons a xs ih =>
    have step : maxStep (0 : ℝ) a = 0 := by
      rw [zero a List.mem_cons_self]
      norm_num [maxStep, isNaN, Scalar.max]
    rw [List.foldl_cons, step]
    exact ih fun b mem => zero b (List.mem_cons_of_mem a mem)

/-- A model of real numbers passes the checks if its Hessian is symmetric. -/
theorem checkModel_eq_ok (checked : Bool) (g : Tensor ℝ) {A : SquareMatrix ℝ n}
    (symmetric : A.toMatrix.IsSymm) : checkModel checked g (.ofSquare A) = .ok () := by
  have finite (t : Tensor ℝ) (name : String) : t.checkFinite name = .ok () := by
    refine if_pos (Array.all_eq_true.2 fun i inside => rfl)
  have square : (Tensor.ofSquare A).square? = some ⟨n, A⟩ := by
    unfold Tensor.square?
    have size : (Tensor.ofSquare A).squareSize? = some n := if_pos rfl
    rw [size, Option.bind_some, Tensor.toSquare?_ofSquare]
    rfl
  have deviation : Scalar.maximum A.deviations = 0 := by
    refine Scalar.maximum_eq_zero fun a mem => ?_
    obtain ⟨i, -, mem⟩ := List.mem_flatMap.1 mem
    obtain ⟨j, -, rfl⟩ := List.mem_map.1 mem
    rw [SquareMatrix.get_comm symmetric, sub_self]
    exact abs_zero
  have symmetric' : (Tensor.ofSquare A).isSymmetric (symmetryTolerance : ℝ) = true := by
    have tolerance : (0 : ℝ) ≤ symmetryTolerance := by norm_num [symmetryTolerance]
    unfold Tensor.isSymmetric
    rw [square]
    dsimp only
    rw [deviation]
    exact decide_eq_true tolerance
  unfold checkModel
  cases checked with
  | false => rfl
  | true =>
    rw [if_pos rfl, finite, finite]
    exact if_pos symmetric'

/-! ## One iteration -/

/-- Where the model value is the change of the function, the ratio is 1, or there is an increase. -/
theorem reductionRatio_of_exact (method : Method ℝ) (f m : ℝ) : reductionRatio method m f (f + m) =
    if m ≤ Scalar.machineEpsilon then 1 else method.rhoLower - 1 := by
  have epsilon_pos : (0 : ℝ) < Scalar.machineEpsilon := LawfulOrder.machineEpsilon_pos
  refine (if_neg (not_not.2 rfl)).trans ?_
  by_cases negligible : |m| ≤ Scalar.machineEpsilon
  · have small : negligibleModel m = true := decide_eq_true negligible
    rw [if_pos small, if_pos ((le_abs_self m).trans negligible)]
  · have noticed : ¬ negligibleModel m = true := fun small => negligible (of_decide_eq_true small)
    rw [if_neg noticed]
    by_cases increase : 0 < m
    · rw [abs_of_pos increase] at negligible
      rw [if_pos increase, if_neg negligible]
      rfl
    · have nonzero : m ≠ 0 := by
        rintro rfl
        exact negligible (by rw [abs_zero]; exact epsilon_pos.le)
      rw [if_neg increase, if_pos ((not_lt.1 increase).trans epsilon_pos.le)]
      show (f - (f + m)) / -m = 1
      rw [sub_add_cancel_left, div_self (neg_ne_zero.2 nonzero)]

namespace Quadratic

/-- What an iteration from `st` to `st'` makes of a quadratic function. -/
structure Modelled (Q : Quadratic n) (st st' : State ℝ ℝ n) : Prop where
  /-- The point before is remembered. -/
  previous : st'.xPrevious = st.x
  /-- The model value of the step is the change of the function. -/
  model : st'.m = Q.value (st'.xPrevious + st'.s) - Q.value st'.xPrevious
  /-- The step is kept if and only if no increase is noticed. -/
  accepted : st'.accepted = true ↔ st'.m ≤ Scalar.machineEpsilon
  /-- The ratio of a step that is kept is 1. -/
  ratio : st'.accepted = true → st'.rho = 1
  /-- The region does not shrink when a step is kept. -/
  radius : st'.accepted = true → st.delta ≤ st'.delta

end Quadratic

variable {σ : Type} {Q : Quadratic n} {evaluator : Evaluator ℝ ℝ σ} {method : Method ℝ}
  {solver : StepSolver ℝ ℝ} {S S' : Session ℝ ℝ σ n}

/-- The value of a consistent state is that of the function. -/
theorem State.Consistent.f_eq {st : State ℝ ℝ n} (consistent : st.Consistent Q.answers) :
    st.f = Q.value st.x :=
  (Except.ok.inj consistent.value).symm

/-- The ratio of a trial whose model value is the change of the function. -/
theorem Trial.Happens.ratio_of_exact {T : Trial ℝ ℝ n} {ledger : σ}
    (happens : T.Happens evaluator solver S ledger) (gives : evaluator.Gives Q.answers)
    (consistent : S.state.Consistent Q.answers)
    (exact_m : T.proposal.outcome.m = Q.value (S.state.x + T.s) - Q.value S.state.x) :
    T.ratio method S.state =
      if T.proposal.outcome.m ≤ Scalar.machineEpsilon then 1 else method.rhoLower - 1 := by
  have value : T.f = S.state.f + T.proposal.outcome.m := by
    have trial : T.f = Q.value (S.state.x + T.s) :=
      (Except.ok.inj (happens.eq_answers gives consistent).1).symm
    rw [trial, consistent.f_eq, exact_m, add_sub_cancel]
  unfold ratio
  rw [value, reductionRatio_of_exact]

/-- The ratio that an iteration finds if its model value is the change of the function. -/
theorem Turn.rho_of_exact (turn : Turn evaluator method solver S S')
    (gives : evaluator.Gives Q.answers) (consistent : S.state.Consistent Q.answers)
    (exact_m : S'.state.m = Q.value (S.state.x + S'.state.s) - Q.value S.state.x) :
    S'.state.rho = if S'.state.m ≤ Scalar.machineEpsilon then 1 else method.rhoLower - 1 := by
  cases turn with
  | takenBack happens low state =>
    rw [state] at exact_m ⊢
    exact happens.ratio_of_exact gives consistent exact_m
  | kept happens high evaluated state =>
    rw [state] at exact_m ⊢
    exact happens.ratio_of_exact gives consistent exact_m

/-- A step is kept if and only if its ratio is above the acceptance threshold. -/
theorem Turn.accepted_iff (turn : Turn evaluator method solver S S') :
    S'.state.accepted = true ↔ method.eta < S'.state.rho := by
  cases turn with
  | takenBack happens low state =>
    rw [state]
    exact ⟨nofun, fun high => absurd low (not_le.2 high)⟩
  | kept happens high evaluated state =>
    rw [state]
    exact ⟨fun _ => not_le.1 high, fun _ => rfl⟩

/-- The region does not shrink where the ratio is not below the lower threshold. -/
theorem Turn.delta_le_of_rho (turn : Turn evaluator method solver S S')
    (bounded : S.state.Bounded method) (high : method.rhoLower ≤ S'.state.rho) :
    S.state.delta ≤ S'.state.delta := by
  obtain ⟨delta_pos, delta_le⟩ := bounded
  have grown (T : Trial ℝ ℝ n) (high : method.rhoLower ≤ T.ratio method S.state) :
      S.state.delta ≤ (T.judged method S.state).delta := by
    rcases T.radius_cases method S.state with ⟨low, -⟩ | ⟨-, -, radius⟩ | ⟨-, radius⟩
    · exact absurd low (not_lt.2 high)
    · rw [radius]
      exact le_min (by linarith) delta_le
    · exact radius.ge
  cases turn with
  | takenBack happens low state =>
    rw [state] at high ⊢
    exact grown _ high
  | kept happens below evaluated state =>
    rw [state] at high ⊢
    exact grown _ high

/-- An iteration whose model value is the change of the function goes by its sign. -/
theorem Turn.modelled (turn : Turn evaluator method solver S S') (valid : method.check = .ok ())
    (lower : method.rhoLower ≤ 1) (gives : evaluator.Gives Q.answers)
    (consistent : S.state.Consistent Q.answers) (bounded : S.state.Bounded method)
    (exact_m : S'.state.m = Q.value (S.state.x + S'.state.s) - Q.value S.state.x) :
    Q.Modelled S.state S'.state := by
  obtain ⟨-, -, ⟨eta_nonneg, eta_lt⟩, -⟩ := (Method.check_eq_ok_iff method).1 valid
  have previous := (turn.consistent gives consistent).2.previous
  have rho := turn.rho_of_exact gives consistent exact_m
  have rho_of_accepted (accepted : S'.state.accepted = true) :
      S'.state.m ≤ Scalar.machineEpsilon ∧ S'.state.rho = 1 := by
    have above := turn.accepted_iff.1 accepted
    split at rho
    · next small => exact ⟨small, rho⟩
    · linarith
  refine ⟨previous, by rw [previous]; exact exact_m, ⟨fun accepted => (rho_of_accepted accepted).1,
    fun small => ?_⟩, fun accepted => (rho_of_accepted accepted).2, fun accepted => ?_⟩
  · rw [if_pos small] at rho
    exact turn.accepted_iff.2 (by linarith)
  · exact turn.delta_le_of_rho bounded ((rho_of_accepted accepted).2 ▸ lower)

/-! ## Whole runs -/

/-- The evaluator always gives these answers, whatever its ledger holds. -/
structure Evaluator.Evaluates {α β : Type} (evaluator : Evaluator α β σ) (answers : Answers α β n) :
    Prop where
  /-- Values and gradients. -/
  valueAndGradient : ∀ x ledger, ∃ ledger', evaluator.valueAndGradient (.ofVector x) ledger =
    .ok (answers.value x, .ofVector (answers.gradient x)) ledger'
  /-- Hessians. -/
  hessian : ∀ x ledger, ∃ ledger', evaluator.hessian (.ofVector x) ledger =
    .ok (.ofSquare (answers.hessian x)) ledger'

theorem Answers.toEvaluator_evaluates {α β : Type} (answers : Answers α β n) :
    answers.toEvaluator.Evaluates answers where
  valueAndGradient := fun x _ => ⟨(), answers.valueAndGradient_toEvaluator x⟩
  hessian := fun x _ => ⟨(), answers.hessian_toEvaluator x⟩

namespace Evaluator.Evaluates

theorem gives {α β : Type} {evaluator : Evaluator α β σ} {answers : Answers α β n}
    (evaluates : evaluator.Evaluates answers) : evaluator.Gives answers where
  valueAndGradient := fun {x ledger reply ledger'} returned => by
    obtain ⟨ledger₁, answered⟩ := evaluates.valueAndGradient x ledger
    rw [answered] at returned
    cases returned
    rfl
  hessian := fun {x ledger H ledger'} returned => by
    obtain ⟨ledger₁, answered⟩ := evaluates.hessian x ledger
    rw [answered] at returned
    cases returned
    rfl

theorem answering (evaluates : evaluator.Evaluates Q.answers) : evaluator.Answering n where
  valueAndGradient := fun x ledger => by
    obtain ⟨ledger', answered⟩ := evaluates.valueAndGradient x ledger
    exact ⟨Q.value x, Q.gradient x, ledger', answered⟩
  hessian := fun x ledger => by
    obtain ⟨ledger', answered⟩ := evaluates.hessian x ledger
    exact ⟨Q.curvature, ledger', answered⟩

end Evaluator.Evaluates

namespace Quadratic

/-- A state of a run on a quadratic function. -/
structure Describes (Q : Quadratic n) (method : Method ℝ) (st : State ℝ ℝ n) : Prop where
  /-- Value and derivatives are those of the function. -/
  consistent : st.Consistent Q.answers
  /-- The arrays fit together. -/
  regular : st.Regular
  /-- The radius is within its bounds. -/
  bounded : st.Bounded method

/-- A run on a quadratic function starts with such a state. -/
theorem exists_initialState (evaluates : evaluator.Evaluates Q.answers)
    (valid : method.check = .ok ()) (x : Vector ℝ n) (ledger : σ) : ∃ st ledger',
      initialState evaluator method x ledger = .ok st ledger' ∧ Q.Describes method st := by
  obtain ⟨-, ⟨initial_pos, initial_lt⟩, -⟩ := (Method.check_eq_ok_iff method).1 valid
  obtain ⟨st, ledger', started, regular⟩ :=
    initialState_regular valid evaluates.answering x ledger
  have radius := (initialState_eq started).2
  exact ⟨st, ledger', started, initialState_consistent started evaluates.gives, regular,
    radius ▸ initial_pos, radius ▸ initial_lt.le⟩

/-- The model of a subproblem of the function gives its change. -/
theorem value_model {M : Model ℝ n} {x : Vector ℝ n} (gradient : M.gradient = Q.gradient x)
    (hessian : M.hessian = Q.curvature) (s : Vector ℝ n) :
    M.value s = Q.value (x + s) - Q.value x := by
  rw [Q.value_add, Model.value, gradient, hessian, add_sub_cancel_left]

namespace Describes

/-- Iterations lead from such states to such states. -/
theorem next (describes : Q.Describes method S.state) (turn : Turn evaluator method solver S S')
    (evaluates : evaluator.Evaluates Q.answers) (valid : method.check = .ok ()) :
    Q.Describes method S'.state where
  consistent := (turn.consistent evaluates.gives describes.consistent).1
  regular := turn.regular valid evaluates.answering describes.regular
  bounded := turn.bounded valid describes.bounded

variable {la : LinearAlgebra ℝ} {checked : Bool} {limits : RootLimits ℝ}

/-- The step solver gets the gradient and the Hessian of the function. -/
theorem propose_eq (describes : Q.Describes method S.state) :
    (StepSolver.subproblem la checked limits).propose S.state =
      proposeStep la checked (.ofVector (Q.gradient S.state.x)) (.ofSquare Q.curvature)
        S.state.delta [n] limits.tolerance limits.maxIterations := by
  show proposeStep la checked S.state.g S.state.H S.state.delta S.state.g.shape _ _ = _
  rw [describes.consistent.gradient, describes.consistent.hessian]
  rfl

/-- An iteration returns, with a step that the subproblem of the function has. -/
theorem exists_update (describes : Q.Describes method S.state) (exact_la : la.Exact) (pos : 0 < n)
    (evaluates : evaluator.Evaluates Q.answers) (iterations : 1 ≤ limits.maxIterations) :
    ∃ (M : Model ℝ n) (solution : Solution ℝ n) (S' : Session ℝ ℝ σ n), M.Exact ∧
      M.gradient = Q.gradient S.state.x ∧ M.hessian = Q.curvature ∧
      M.Route pos S.state.delta limits.tolerance (limits.maxIterations.toNat - 1) solution ∧
      update evaluator method (.subproblem la checked limits) S = .ok () S' ∧
      S'.state.s = solution.step ∧ S'.state.m = solution.outcome.m := by
  obtain ⟨M, solution, E, gradient, hessian, route, returned⟩ := proposeStep_route exact_la pos
    (g := Q.gradient S.state.x) describes.bounded.pos limits.tolerance iterations
    (checkModel_eq_ok checked _ Q.symmetric)
  rw [SquareMatrix.symmetricPart_eq Q.symmetric] at hessian
  have proposed : (StepSolver.subproblem la checked limits).propose S.state =
      .ok solution.toProposal := by
    rw [describes.propose_eq]
    exact returned
  obtain ⟨S', updated⟩ :=
    describes.regular.exists_update_of_propose evaluates.answering method proposed rfl
  obtain ⟨step, model⟩ := (turn_of_update updated).step_eq proposed rfl
  exact ⟨M, solution, S', E, gradient, hessian, route, updated, step, model⟩

/-- However an iteration has left its subproblem, the model value is the change of the function. -/
theorem m_eq (describes : Q.Describes method S.state) (exact_la : la.Exact)
    (updated : update evaluator method (.subproblem la checked limits) S = .ok () S') :
    S'.state.m = Q.value (S.state.x + S'.state.s) - Q.value S.state.x := by
  obtain ⟨T, ledger, happens, -⟩ := update_eq_ok.1 updated
  have proposed := happens.proposed
  rw [describes.propose_eq] at proposed
  obtain ⟨k, pos, -, -, -, -, axes⟩ := exists_ofVector_of_proposeStep proposed
  obtain rfl : n = k := List.singleton_inj.1 axes
  obtain ⟨-, M, solution, -, -, gradient, hessian, route, answer⟩ :=
    exists_route exact_la pos proposed
  rw [SquareMatrix.symmetricPart_eq Q.symmetric] at hessian
  obtain ⟨step, model⟩ :=
    (turn_of_update updated).step_eq happens.proposed (congrArg Proposal.step answer)
  rw [model, step, answer]
  exact route.m_eq.trans (value_model gradient hessian _)

end Describes

/-- From a state on a quadratic function on, the model is exact throughout every run. -/
theorem updates_modelled {la : LinearAlgebra ℝ} {checked : Bool} {limits : List (RootLimits ℝ)}
    {states : List (State ℝ ℝ n)} (exact_la : la.Exact)
    (evaluates : evaluator.Evaluates Q.answers) (valid : method.check = .ok ())
    (lower : method.rhoLower ≤ 1) (describes : Q.Describes method S.state)
    (ran : updates evaluator (limits.map fun l => (method, .subproblem la checked l)) S =
      .ok states S') : List.IsChain Q.Modelled (S.state :: states) := by
  induction limits generalizing S states with
  | nil =>
    cases ran
    exact List.isChain_singleton _
  | cons l limits ih =>
    obtain ⟨T, later, updated, ran', rfl⟩ := updates_cons_eq_ok.1 ran
    have turn := turn_of_update updated
    have modelled := turn.modelled valid lower evaluates.gives describes.consistent
      describes.bounded (describes.m_eq exact_la updated)
    exact List.isChain_cons_cons.2 ⟨modelled, ih (describes.next turn evaluates valid) ran'⟩

/-- From a state on a quadratic function on, runs return. -/
theorem exists_updates {la : LinearAlgebra ℝ} {checked : Bool} {limits : List (RootLimits ℝ)}
    (exact_la : la.Exact) (pos : 0 < n) (evaluates : evaluator.Evaluates Q.answers)
    (valid : method.check = .ok ()) (iterations : ∀ l ∈ limits, 1 ≤ l.maxIterations)
    (describes : Q.Describes method S.state) : ∃ states S',
      updates evaluator (limits.map fun l => (method, .subproblem la checked l)) S =
        .ok states S' := by
  induction limits generalizing S with
  | nil => exact ⟨[], S, rfl⟩
  | cons l limits ih =>
    obtain ⟨-, -, T, -, -, -, -, updated, -⟩ :=
      describes.exists_update exact_la pos evaluates (iterations l List.mem_cons_self)
    obtain ⟨later, S', ran⟩ := ih (fun other mem => iterations other (List.mem_cons_of_mem l mem))
      (describes.next (turn_of_update updated) evaluates valid)
    exact ⟨T.state :: later, S', updates_cons_eq_ok.2 ⟨T, later, updated, ran, rfl⟩⟩

end Quadratic

/--
On a quadratic function with a symmetric matrix of any signature and exact derivatives, every
iteration of a run with exact factorizations and a lower threshold of at most 1 has the change of
the function as the model value of its step, whichever way the subproblem was left; the step is
kept if and only if this is at most the machine precision; and then the ratio is 1 and the region
does not shrink. Every run returns if there is a variable and root-finding steps are allowed.
-/
theorem updates_quadratic {la : LinearAlgebra ℝ} (exact_la : la.Exact) (checked : Bool)
    (evaluates : evaluator.Evaluates Q.answers) (valid : method.check = .ok ())
    (lower : method.rhoLower ≤ 1) (limits : List (RootLimits ℝ)) (x₀ : Vector ℝ n) (ledger : σ)
    (journal : Array (Event ℝ ℝ)) : ∃ st₀ ledger',
      initialState evaluator method x₀ ledger = .ok st₀ ledger' ∧
      (∀ states S', updates evaluator (limits.map fun l => (method, .subproblem la checked l))
          ⟨st₀, ledger', journal⟩ = .ok states S' →
        List.IsChain Q.Modelled (st₀ :: states)) ∧
      (0 < n → (∀ l ∈ limits, 1 ≤ l.maxIterations) → ∃ states S',
        updates evaluator (limits.map fun l => (method, .subproblem la checked l))
          ⟨st₀, ledger', journal⟩ = .ok states S') := by
  obtain ⟨st₀, ledger', started, describes⟩ :=
    Quadratic.exists_initialState evaluates valid x₀ ledger
  refine ⟨st₀, ledger', started, fun states S' ran => ?_, fun pos iterations => ?_⟩
  · exact Quadratic.updates_modelled (S := ⟨st₀, ledger', journal⟩) exact_la evaluates valid lower
      describes ran
  · exact Quadratic.exists_updates (S := ⟨st₀, ledger', journal⟩) exact_la pos evaluates valid
      iterations describes

/-- A saddle, with a slope along its valley. -/
noncomputable def saddle : Quadratic 2 where
  constant := 1
  slope := #v[1, 0]
  curvature := #v[#v[1, 0], #v[0, -1]]
  symmetric := by
    ext i j
    fin_cases i <;> fin_cases j <;> rfl

theorem updates_quadratic_saddle : ∃ (st₀ : State ℝ ℝ 2) (states : List (State ℝ ℝ 2))
    (S' : Session ℝ ℝ Unit 2),
    LinearAlgebra.exact.Exact ∧ saddle.answers.toEvaluator.Evaluates saddle.answers ∧
    (Method.standard : Method ℝ).check = .ok () ∧ (Method.standard : Method ℝ).rhoLower ≤ 1 ∧
    initialState saddle.answers.toEvaluator Method.standard #v[1, 1] () = .ok st₀ () ∧
    updates saddle.answers.toEvaluator ((List.replicate 3 RootLimits.standard).map fun l =>
      (Method.standard, .subproblem .exact true l)) ⟨st₀, (), #[]⟩ = .ok states S' ∧
    List.IsChain saddle.Modelled (st₀ :: states) := by
  have evaluates := saddle.answers.toEvaluator_evaluates
  have lower : (Method.standard : Method ℝ).rhoLower ≤ 1 := by norm_num [Method.standard]
  have iterations : ∀ l ∈ List.replicate 3 (RootLimits.standard : RootLimits ℝ),
      1 ≤ l.maxIterations := by
    intro l mem
    rw [List.eq_of_mem_replicate mem]
    decide
  obtain ⟨st₀, ledger', started, modelled, returns⟩ :=
    updates_quadratic LinearAlgebra.exact_exact true evaluates Method.standard_check lower
      (List.replicate 3 .standard) #v[1, 1] () #[]
  obtain ⟨states, S', ran⟩ := returns two_pos iterations
  exact ⟨st₀, states, S', LinearAlgebra.exact_exact, evaluates, Method.standard_check, lower,
    started, ran, modelled states S' ran⟩

end TrustRegion
