/-
  What a state knows is true at its point.

  If the evaluator's answers only depend on the point, the value, gradient and Hessian of a state
  are those at its point when a run starts, and every iteration keeps it that way: a kept trial
  brings its own, a trial that is taken back brings back the old ones. So it holds after every
  update of a run, whatever the parameters and the steps were (`updates_consistent`).
-/
import TrustRegion.Proofs.Reals
import TrustRegion.Proofs.Turn

namespace TrustRegion

variable {α β σ : Type} {n : Nat}

/-- Answers to the questions for value, gradient and Hessian, as functions of the point. -/
structure Answers (α β : Type) (n : Nat) where
  /-- The value at a point, in whatever shape. -/
  value : Vector α n → Tensor β
  /-- The gradient at a point. -/
  gradient : Vector α n → Vector α n
  /-- The Hessian at a point. -/
  hessian : Vector α n → SquareMatrix α n

/-- Where the evaluator answers, it gives these answers, whatever its ledger holds. -/
structure Evaluator.Gives (evaluator : Evaluator α β σ) (answers : Answers α β n) : Prop where
  /-- Values and gradients. -/
  valueAndGradient : ∀ {x ledger reply ledger'},
    evaluator.valueAndGradient (.ofVector x) ledger = .ok reply ledger' →
      reply = (answers.value x, .ofVector (answers.gradient x))
  /-- Hessians. -/
  hessian : ∀ {x ledger H ledger'}, evaluator.hessian (.ofVector x) ledger = .ok H ledger' →
    H = .ofSquare (answers.hessian x)

namespace State

/-- Value, gradient and Hessian of a state are those at its point. -/
structure Consistent (answers : Answers α β n) (st : State α β n) : Prop where
  /-- The value is. -/
  value : ((answers.value st.x).value : Except (Fault α) β) = .ok st.f
  /-- The gradient is. -/
  gradient : st.g = .ofVector (answers.gradient st.x)
  /-- The Hessian is. -/
  hessian : st.H = .ofSquare (answers.hessian st.x)

/-- The point of a state comes from that of the state before, by its step if that was kept. -/
structure Follows [Scalar α] (st st' : State α β n) : Prop where
  /-- The point before is remembered. -/
  previous : st'.xPrevious = st.x
  /-- A step that was kept has been taken. -/
  kept : st'.accepted = true → st'.x = st'.xPrevious + st'.s
  /-- A step that was not kept has not been taken. -/
  takenBack : st'.accepted = false → st'.x = st'.xPrevious

end State

/-- The evaluator that gives these answers and keeps no ledger. -/
def Answers.toEvaluator (answers : Answers α β n) : Evaluator α β Unit where
  valueAndGradient := fun point =>
    match point.toVector? n with
    | some x => pure (answers.value x, .ofVector (answers.gradient x))
    | none => throw .shapeMismatch
  hessian := fun point =>
    match point.toVector? n with
    | some x => pure (.ofSquare (answers.hessian x))
    | none => throw .shapeMismatch
  counts := fun _ => none

theorem Answers.valueAndGradient_toEvaluator (answers : Answers α β n) (x : Vector α n) :
    answers.toEvaluator.valueAndGradient (.ofVector x) () =
      .ok (answers.value x, .ofVector (answers.gradient x)) () := by
  unfold toEvaluator
  dsimp only
  rw [Tensor.toVector?_ofVector]
  rfl

theorem Answers.hessian_toEvaluator (answers : Answers α β n) (x : Vector α n) :
    answers.toEvaluator.hessian (.ofVector x) () = .ok (.ofSquare (answers.hessian x)) () := by
  unfold toEvaluator
  dsimp only
  rw [Tensor.toVector?_ofVector]
  rfl

theorem Answers.toEvaluator_gives (answers : Answers α β n) :
    answers.toEvaluator.Gives answers where
  valueAndGradient := fun answered => by
    rw [valueAndGradient_toEvaluator] at answered
    cases answered
    rfl
  hessian := fun answered => by
    rw [hessian_toEvaluator] at answered
    cases answered
    rfl

/-! ## The start -/

theorem initialState_eq_ok [Scalar α] [Scalar β] {evaluator : Evaluator α β σ} {method : Method α}
    {x : Vector α n} {ledger ledger' : σ} {st : State α β n} :
    initialState evaluator method x ledger = .ok st ledger' ↔
      ∃ value g ledger₁ H f, evaluator.valueAndGradient (.ofVector x) ledger =
          .ok (value, g) ledger₁ ∧ evaluator.hessian (.ofVector x) ledger₁ = .ok H ledger' ∧
        (value.value : Except (Fault α) β) = .ok f ∧ st = State.start method x f g H := by
  constructor
  · intro returned
    obtain ⟨⟨value, g⟩, ledger₁, evaluated, rest⟩ := bind_eq_ok.1 returned
    obtain ⟨H, ledger₂, evaluated', rest'⟩ := bind_eq_ok.1 rest
    obtain ⟨f, ledger₃, answer, last⟩ := bind_eq_ok.1 rest'
    obtain ⟨read, rfl⟩ := ofExcept_eq_ok.1 answer
    cases last
    exact ⟨value, g, ledger₁, H, f, evaluated, evaluated', read, rfl⟩
  · rintro ⟨value, g, ledger₁, H, f, evaluated, evaluated', read, rfl⟩
    refine bind_eq_ok.2 ⟨(value, g), ledger₁, evaluated, ?_⟩
    refine bind_eq_ok.2 ⟨H, ledger', evaluated', ?_⟩
    exact bind_eq_ok.2 ⟨f, ledger', ofExcept_eq_ok.2 ⟨read, rfl⟩, rfl⟩

/-- A run starts at its point, with the radius of the method. -/
theorem initialState_eq [Scalar α] [Scalar β] {evaluator : Evaluator α β σ} {method : Method α}
    {x : Vector α n} {ledger ledger' : σ} {st : State α β n}
    (started : initialState evaluator method x ledger = .ok st ledger') :
    st.x = x ∧ st.delta = method.initialRadius := by
  obtain ⟨value, g, ledger₁, H, f, -, -, -, rfl⟩ := initialState_eq_ok.1 started
  exact ⟨rfl, rfl⟩

/-- A run starts consistently. -/
theorem initialState_consistent [Scalar α] [Scalar β] {evaluator : Evaluator α β σ}
    {method : Method α} {answers : Answers α β n} {x : Vector α n} {ledger ledger' : σ}
    {st : State α β n}
    (started : initialState evaluator method x ledger = .ok st ledger')
    (gives : evaluator.Gives answers) : st.Consistent answers := by
  obtain ⟨value, g, ledger₁, H, f, evaluated, evaluated', read, rfl⟩ :=
    initialState_eq_ok.1 started
  have reply := gives.valueAndGradient evaluated
  rw [Prod.mk.injEq] at reply
  obtain ⟨rfl, rfl⟩ := reply
  exact ⟨read, rfl, gives.hessian evaluated'⟩

/-! ## One iteration -/

theorem Trial.Happens.eq_answers [Scalar α] {evaluator : Evaluator α β σ} {solver : StepSolver α β}
    {S : Session α β σ n} {answers : Answers α β n} {T : Trial α β n} {ledger : σ}
    (happens : T.Happens evaluator solver S ledger) (gives : evaluator.Gives answers)
    (consistent : S.state.Consistent answers) :
    ((answers.value (S.state.x + T.s)).value : Except (Fault α) β) = .ok T.f ∧
      T.g = .ofVector (answers.gradient (S.state.x + T.s)) := by
  obtain ⟨value, g, evaluated, read, received⟩ := happens.evaluated
  have reply := gives.valueAndGradient evaluated
  rw [Prod.mk.injEq] at reply
  obtain ⟨rfl, rfl⟩ := reply
  rw [consistent.gradient] at received
  exact ⟨read, Tensor.eq_of_writeOver_shape received⟩

variable [Scalar α] [Scalar β] [Embeds α β] {evaluator : Evaluator α β σ} {method : Method α}
  {solver : StepSolver α β} {S S' : Session α β σ n} {answers : Answers α β n}

/-- An iteration leads from a consistent state to one that follows it and is consistent. -/
theorem Turn.consistent (turn : Turn evaluator method solver S S')
    (gives : evaluator.Gives answers) (consistent : S.state.Consistent answers) :
    S'.state.Consistent answers ∧ S.state.Follows S'.state := by
  cases turn with
  | takenBack happens low state =>
    rw [state]
    refine ⟨⟨consistent.value, consistent.gradient, consistent.hessian⟩, rfl, ?_, fun _ => rfl⟩
    intro accepted
    cases accepted
  | kept happens high evaluated state =>
    obtain ⟨value, gradient⟩ := happens.eq_answers gives consistent
    rw [state]
    refine ⟨⟨value, gradient, gives.hessian evaluated⟩, rfl, fun _ => rfl, ?_⟩
    intro rejected
    cases rejected

/-! ## Whole runs -/

/-- Updates one after the other, and the state after each. -/
def updates (evaluator : Evaluator α β σ) :
    List (Method α × StepSolver α β) → Iteration α β σ n (List (State α β n))
  | [] => pure []
  | (method, solver) :: rest => do
    update evaluator method solver
    let st ← Iteration.state
    let later ← updates evaluator rest
    pure (st :: later)

theorem updates_cons_eq_ok {choices : List (Method α × StepSolver α β)}
    {states : List (State α β n)} :
    updates evaluator ((method, solver) :: choices) S = .ok states S' ↔
      ∃ T later, update evaluator method solver S = .ok () T ∧
        updates evaluator choices T = .ok later S' ∧ states = T.state :: later := by
  constructor
  · intro returned
    obtain ⟨_, T, updated, rest⟩ := bind_eq_ok.1 returned
    rw [Iteration.state_bind] at rest
    obtain ⟨later, T', ran, last⟩ := bind_eq_ok.1 rest
    cases last
    exact ⟨T, later, updated, ran, rfl⟩
  · rintro ⟨T, later, updated, ran, rfl⟩
    refine bind_eq_ok.2 ⟨(), T, updated, ?_⟩
    rw [Iteration.state_bind]
    exact bind_eq_ok.2 ⟨later, S', ran, rfl⟩

/-- A run returns if the values are numbers and all step solvers answer with vectors. -/
theorem exists_updates (answers : Answers α β n) {S : Session α β Unit n}
    {choices : List (Method α × StepSolver α β)}
    (scalar : ∀ x, ∃ f, answers.value x = .scalar f)
    (answering : ∀ choice ∈ choices, ∀ st : State α β n, ∃ (proposal : Proposal α) (s : Vector α n),
      choice.2.propose st = .ok proposal ∧ proposal.step = .ofVector s)
    (shape : S.state.g.shape = [n]) (shape' : S.state.gPrevious.shape = [n]) :
    ∃ states S', updates answers.toEvaluator choices S = .ok states S' := by
  induction choices generalizing S with
  | nil => exact ⟨[], S, rfl⟩
  | cons choice choices ih =>
    obtain ⟨proposal, s, proposed, step⟩ := answering choice List.mem_cons_self S.state
    obtain ⟨f, value⟩ := scalar (S.state.x + s)
    have evaluated := answers.valueAndGradient_toEvaluator (S.state.x + s)
    rw [value] at evaluated
    obtain ⟨T, updated, shape_T, shape_T'⟩ := exists_update choice.1 proposed step
      shape shape' evaluated ⟨_, (), answers.hessian_toEvaluator _⟩
    obtain ⟨later, S', ran⟩ :=
      ih (fun other mem => answering other (List.mem_cons_of_mem _ mem)) shape_T shape_T'
    exact ⟨_, S', updates_cons_eq_ok.2 ⟨T, later, updated, ran, rfl⟩⟩

/-- From a consistent state on, all states of a run are consistent and follow one another. -/
theorem updates_consistent_from {choices : List (Method α × StepSolver α β)}
    {states : List (State α β n)} (gives : evaluator.Gives answers)
    (consistent : S.state.Consistent answers)
    (ran : updates evaluator choices S = .ok states S') :
    (∀ st ∈ S.state :: states, st.Consistent answers) ∧
      List.IsChain State.Follows (S.state :: states) := by
  induction choices generalizing S states with
  | nil =>
    cases ran
    refine ⟨fun st mem => ?_, List.isChain_singleton _⟩
    rw [List.mem_singleton.1 mem]
    exact consistent
  | cons choice choices ih =>
    obtain ⟨T, later, updated, ran', rfl⟩ := updates_cons_eq_ok.1 ran
    obtain ⟨consistent', follows⟩ := (turn_of_update updated).consistent gives consistent
    obtain ⟨all, chain⟩ := ih consistent' ran'
    refine ⟨fun st mem => ?_, List.isChain_cons_cons.2 ⟨follows, chain⟩⟩
    rcases List.mem_cons.1 mem with rfl | mem
    · exact consistent
    · exact all st mem

/--
After the start and after every update of a run, value, gradient and Hessian of the state are those
of the evaluator at its point; and after every update the point before it is remembered, with the
step taken from there if and only if it was kept.
-/
theorem updates_consistent {method₀ : Method α} {x₀ : Vector α n} {ledger ledger' : σ}
    {st₀ : State α β n} {journal : Array (Event α β)} {choices : List (Method α × StepSolver α β)}
    {states : List (State α β n)} (gives : evaluator.Gives answers)
    (started : initialState evaluator method₀ x₀ ledger = .ok st₀ ledger')
    (ran : updates evaluator choices ⟨st₀, ledger', journal⟩ = .ok states S') :
    (∀ st ∈ st₀ :: states, st.Consistent answers) ∧ List.IsChain State.Follows (st₀ :: states) :=
  updates_consistent_from gives (initialState_consistent started gives) ran

/-- Half the squared length, with its derivatives. -/
def halfSquare {α : Type} [Scalar α] (n : Nat) : Answers α α n where
  value := fun x => .scalar (0.5 * dot x x)
  gradient := fun x => x
  hessian := fun _ => SquareMatrix.identity

/-- The solver that takes the step `s` from everywhere, and reports `m` for it. -/
def StepSolver.always {α β : Type} [Scalar α] {n : Nat} (s : Vector α n) (m : α) : StepSolver α β :=
  .constant (.ofVector s) (some m) fun m =>
    { m, interior := true, lam := 0, hardCase := false, reached := true }

theorem updates_consistent_halfSquare : ∃ (st₀ : State ℝ ℝ 1) (states : List (State ℝ ℝ 1))
    (S' : Session ℝ ℝ Unit 1),
    initialState (halfSquare 1).toEvaluator Method.standard #v[3] () = .ok st₀ () ∧
    updates (halfSquare 1).toEvaluator
        [(Method.standard, .always #v[-2] (-1)), (Method.standard, .always #v[-2] (-1))]
        ⟨st₀, (), #[]⟩ = .ok states S' ∧
    (∀ st ∈ st₀ :: states, st.Consistent (halfSquare 1)) ∧
      List.IsChain State.Follows (st₀ :: states) := by
  let st₀ : State ℝ ℝ 1 := State.start Method.standard #v[3] (0.5 * dot #v[3] #v[3])
    (.ofVector #v[3]) (.ofSquare (SquareMatrix.identity : SquareMatrix ℝ 1))
  have started : initialState (halfSquare 1).toEvaluator Method.standard #v[3] () = .ok st₀ () :=
    initialState_eq_ok.2 ⟨_, _, (), _, 0.5 * dot #v[3] #v[3],
      (halfSquare 1).valueAndGradient_toEvaluator _, (halfSquare 1).hessian_toEvaluator _, rfl, rfl⟩
  have answering : ∀ choice ∈ ([(Method.standard, .always #v[-2] (-1)),
        (Method.standard, .always #v[-2] (-1))] : List (Method ℝ × StepSolver ℝ ℝ)),
      ∀ st : State ℝ ℝ 1, ∃ (proposal : Proposal ℝ) (s : Vector ℝ 1),
        choice.2.propose st = .ok proposal ∧ proposal.step = .ofVector s := by
    intro choice mem st
    have same : choice = (Method.standard, .always #v[-2] (-1)) := by simpa using mem
    rw [same]
    exact ⟨_, #v[-2], rfl, rfl⟩
  obtain ⟨states, S', ran⟩ := exists_updates (halfSquare 1) (S := ⟨st₀, (), #[]⟩)
    (fun x => ⟨_, rfl⟩) answering rfl rfl
  exact ⟨st₀, states, S', started, ran,
    updates_consistent (halfSquare 1).toEvaluator_gives started ran⟩

end TrustRegion
