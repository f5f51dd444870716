/-
  What an iteration does when it returns.

  Each part of an iteration has one lemma that says when it returns, and with which session. Put
  together they give `update_eq_ok`: an iteration that returns had a trial, and either took it back
  or kept it. Everything that is proved of iterations starts from there and does not unfold `update`
  again.
-/
import TrustRegion.Proofs.WriteOver

namespace TrustRegion

section Bind

variable {ε σ τ υ : Type} {s s' : σ} {b : υ}

theorem bind_eq_ok {act : EStateM ε σ τ} {next : τ → EStateM ε σ υ} :
    (act >>= next) s = .ok b s' ↔ ∃ a t, act s = .ok a t ∧ next a t = .ok b s' := by
  show EStateM.bind act next s = _ ↔ _
  unfold EStateM.bind
  cases act s with
  | ok a t =>
    constructor
    · intro h
      exact ⟨a, t, rfl, h⟩
    · rintro ⟨a', t', same, h⟩
      cases same
      exact h
  | error fault t =>
    constructor
    · intro h
      cases h
    · rintro ⟨a', t', same, -⟩
      cases same

theorem ofExcept_eq_ok {result : Except ε υ} :
    (MonadExcept.ofExcept result : EStateM ε σ υ) s = .ok b s' ↔ result = .ok b ∧ s' = s := by
  cases result with
  | ok a =>
    constructor
    · intro h
      cases h
      exact ⟨rfl, rfl⟩
    · rintro ⟨same, rfl⟩
      cases same
      rfl
  | error fault =>
    constructor
    · intro h
      cases h
    · rintro ⟨same, -⟩
      cases same

end Bind

namespace Iteration

variable {α β σ τ : Type} {n : Nat} {S S' : Session α β σ n}

theorem evaluate_eq_ok {act : Action α σ τ} {a : τ} : evaluate act S = .ok a S' ↔
    ∃ ledger, act S.ledger = .ok a ledger ∧ S' = { S with ledger := ledger } := by
  unfold evaluate
  cases act S.ledger with
  | ok result ledger =>
    constructor
    · intro h
      cases h
      exact ⟨ledger, rfl, rfl⟩
    · rintro ⟨ledger', same, rfl⟩
      cases same
      rfl
  | error fault ledger =>
    constructor
    · intro h
      cases h
    · rintro ⟨ledger', same, -⟩
      cases same

theorem state_bind (next : State α β n → Iteration α β σ n τ) (S : Session α β σ n) :
    (state >>= next) S = next S.state S := rfl

theorem change_bind (f : State α β n → State α β n) (next : Unit → Iteration α β σ n τ)
    (S : Session α β σ n) :
    (change f >>= next) S = next () { S with state := f S.state } := rfl

theorem tell_bind (event : Event α β) (next : Unit → Iteration α β σ n τ) (S : Session α β σ n) :
    (tell event >>= next) S = next () { S with journal := S.journal.push event } := rfl

/-- The journal with the remark of a step solver, if it has one. -/
def noted (journal : Array (Event α β)) (remark : Option (Remark α)) : Array (Event α β) :=
  match remark with
  | some remark => journal.push (.solver remark)
  | none => journal

variable {method : Method α} {solver : StepSolver α β} {evaluator : Evaluator α β σ}

/-! ## The parts of an iteration -/

theorem propose_eq_ok : propose solver S = .ok () S' ↔
    ∃ proposal s, solver.propose S.state = .ok proposal ∧ proposal.step.writeOverVector n = .ok s ∧
      S' = { S with
        state := S.state.propose s proposal.outcome
        journal := noted S.journal proposal.remark } := by
  unfold propose
  rw [state_bind, bind_eq_ok]
  constructor
  · rintro ⟨proposal, T, answer, rest⟩
    obtain ⟨proposed, rfl⟩ := ofExcept_eq_ok.1 answer
    refine ⟨proposal, ?_⟩
    cases remark : proposal.remark with
    | none =>
      rw [remark] at rest
      dsimp only at rest
      obtain ⟨s, T', answer, last⟩ := bind_eq_ok.1 rest
      obtain ⟨written, rfl⟩ := ofExcept_eq_ok.1 answer
      cases last
      exact ⟨s, proposed, written, rfl⟩
    | some remark =>
      rw [remark] at rest
      dsimp only at rest
      rw [tell_bind] at rest
      obtain ⟨s, T', answer, last⟩ := bind_eq_ok.1 rest
      obtain ⟨written, rfl⟩ := ofExcept_eq_ok.1 answer
      cases last
      exact ⟨s, proposed, written, rfl⟩
  · rintro ⟨proposal, s, proposed, written, rfl⟩
    refine ⟨proposal, S, ofExcept_eq_ok.2 ⟨proposed, rfl⟩, ?_⟩
    cases remark : proposal.remark with
    | none => exact bind_eq_ok.2 ⟨s, _, ofExcept_eq_ok.2 ⟨written, rfl⟩, rfl⟩
    | some remark =>
      dsimp only
      rw [tell_bind]
      exact bind_eq_ok.2 ⟨s, _, ofExcept_eq_ok.2 ⟨written, rfl⟩, rfl⟩

theorem move_eq_ok [Scalar α] : (move : Iteration α β σ n Unit) S = .ok () S' ↔
    ∃ gPrevious, S.state.g.writeOver S.state.gPrevious.shape = .ok gPrevious ∧
      S' = { S with
        state := { S.state with xPrevious := S.state.x, gPrevious := gPrevious }.move } := by
  unfold move
  rw [change_bind, state_bind, bind_eq_ok]
  constructor
  · rintro ⟨gPrevious, T, answer, rest⟩
    obtain ⟨saved, rfl⟩ := ofExcept_eq_ok.1 answer
    cases rest
    exact ⟨gPrevious, saved, rfl⟩
  · rintro ⟨gPrevious, saved, rfl⟩
    exact ⟨gPrevious, _, ofExcept_eq_ok.2 ⟨saved, rfl⟩, rfl⟩

theorem tryOut_eq_ok : tryOut evaluator S = .ok () S' ↔
    ∃ value g ledger f g', evaluator.valueAndGradient (.ofVector S.state.x) S.ledger =
        .ok (value, g) ledger ∧ (value.value : Except (Fault α) β) = .ok f ∧
      g.writeOver S.state.g.shape = .ok g' ∧
      S' = { S with state := (S.state.setValue f).setGradient g', ledger := ledger } := by
  unfold tryOut
  rw [state_bind, bind_eq_ok]
  constructor
  · rintro ⟨⟨value, g⟩, T, answer, rest⟩
    obtain ⟨ledger, evaluated, rfl⟩ := evaluate_eq_ok.1 answer
    obtain ⟨f, T, answer, rest⟩ := bind_eq_ok.1 rest
    obtain ⟨read, rfl⟩ := ofExcept_eq_ok.1 answer
    rw [change_bind, state_bind] at rest
    obtain ⟨g', T, answer, rest⟩ := bind_eq_ok.1 rest
    obtain ⟨received, rfl⟩ := ofExcept_eq_ok.1 answer
    cases rest
    exact ⟨value, g, ledger, f, g', evaluated, read, received, rfl⟩
  · rintro ⟨value, g, ledger, f, g', evaluated, read, received, rfl⟩
    refine ⟨(value, g), _, evaluate_eq_ok.2 ⟨ledger, evaluated, rfl⟩, ?_⟩
    refine bind_eq_ok.2 ⟨f, _, ofExcept_eq_ok.2 ⟨read, rfl⟩, ?_⟩
    rw [change_bind, state_bind]
    exact bind_eq_ok.2 ⟨g', _, ofExcept_eq_ok.2 ⟨received, rfl⟩, rfl⟩

/-- The journal with the warning of a trial value that is not finite. -/
def warned [Scalar β] (journal : Array (Event α β)) (f : β) : Array (Event α β) :=
  if Scalar.isFinite f then journal else journal.push .trialNotFinite

theorem judge_run [Scalar α] [Scalar β] [Embeds α β] : judge method S = .ok () { S with
    state := S.state.judge method (reductionRatio method S.state.m S.state.fPrevious S.state.f)
    journal := warned S.journal S.state.f } := by
  unfold judge
  rw [state_bind, warned]
  by_cases finite : Scalar.isFinite S.state.f = true
  · rw [if_pos finite]
    exact congrFun (if_neg (not_not.2 finite)) S
  · rw [if_neg finite]
    exact congrFun (if_pos finite) S

theorem conclude_eq_ok [Scalar β] [Embeds α β] : conclude evaluator method S = .ok () S' ↔
    (S.state.rho ≤ Embeds.embed method.eta ∧
      ∃ g, S.state.gPrevious.writeOver S.state.g.shape = .ok g ∧
        S' = { S with state := { S.state.reject with g := g } }) ∨
    (¬ S.state.rho ≤ Embeds.embed method.eta ∧
      ∃ H ledger, evaluator.hessian (.ofVector S.state.x) S.ledger = .ok H ledger ∧
        S' = { S with state := S.state.accept.setHessian H, ledger := ledger }) := by
  unfold conclude
  rw [state_bind]
  by_cases low : S.state.rho ≤ Embeds.embed method.eta
  · rw [if_pos low, change_bind, bind_eq_ok]
    constructor
    · rintro ⟨g, T, answer, rest⟩
      obtain ⟨restored, rfl⟩ := ofExcept_eq_ok.1 answer
      cases rest
      exact Or.inl ⟨low, g, restored, rfl⟩
    · rintro (⟨-, g, restored, rfl⟩ | ⟨high, -⟩)
      · exact ⟨g, _, ofExcept_eq_ok.2 ⟨restored, rfl⟩, rfl⟩
      · exact absurd low high
  · rw [if_neg low, change_bind, bind_eq_ok]
    constructor
    · rintro ⟨H, T, answer, rest⟩
      obtain ⟨ledger, evaluated, rfl⟩ := evaluate_eq_ok.1 answer
      cases rest
      exact Or.inr ⟨low, H, ledger, evaluated, rfl⟩
    · rintro (⟨low', -⟩ | ⟨-, H, ledger, evaluated, rfl⟩)
      · exact absurd low' low
      · exact ⟨H, _, evaluate_eq_ok.2 ⟨ledger, evaluated, rfl⟩, rfl⟩

end Iteration

/-! ## The whole iteration -/

/-- What the trial of an iteration asked for and got. -/
structure Trial (α β : Type) (n : Nat) where
  /-- The answer of the step solver. -/
  proposal : Proposal α
  /-- The step. -/
  s : Vector α n
  /-- The gradient that was put aside. -/
  gPrevious : Tensor α
  /-- The value at the trial point. -/
  f : β
  /-- The gradient at the trial point. -/
  g : Tensor α

variable {α β σ : Type} {n : Nat}

/-- A trial that the step solver and the evaluator answer in the session `S`. -/
structure Trial.Happens [Scalar α] (T : Trial α β n) (evaluator : Evaluator α β σ)
    (solver : StepSolver α β) (S : Session α β σ n) (ledger : σ) : Prop where
  /-- The step solver has an answer. -/
  proposed : solver.propose S.state = .ok T.proposal
  /-- Its step has the dimension of the run. -/
  written : T.proposal.step.writeOverVector n = .ok T.s
  /-- The gradient is put aside. -/
  saved : S.state.g.writeOver S.state.gPrevious.shape = .ok T.gPrevious
  /-- The evaluator answers at the trial point. -/
  evaluated : ∃ value g, evaluator.valueAndGradient (.ofVector (S.state.x + T.s)) S.ledger =
      .ok (value, g) ledger ∧ (value.value : Except (Fault α) β) = .ok T.f ∧
    g.writeOver S.state.g.shape = .ok T.g

namespace Trial

variable [Scalar α] [Scalar β] [Embeds α β]

/-- The ratio of a trial. -/
def ratio (T : Trial α β n) (method : Method α) (st : State α β n) : β :=
  reductionRatio method T.proposal.outcome.m st.f T.f

/-- The state when the trial has been judged. -/
def judged (T : Trial α β n) (method : Method α) (st : State α β n) : State α β n :=
  let aside := { st.propose T.s T.proposal.outcome with xPrevious := st.x, gPrevious := T.gPrevious }
  ((aside.move.setValue T.f).setGradient T.g).judge method (T.ratio method st)

/-- The session when the trial has been judged. -/
def session (T : Trial α β n) (method : Method α) (S : Session α β σ n) (ledger : σ) :
    Session α β σ n :=
  { state := T.judged method S.state
    ledger := ledger
    journal := Iteration.warned (Iteration.noted S.journal T.proposal.remark) T.f }

end Trial

variable [Scalar α] [Scalar β] [Embeds α β] {evaluator : Evaluator α β σ} {method : Method α}
  {solver : StepSolver α β} {S S' : Session α β σ n}

/-- An iteration returns if and only if it has a trial that can be concluded. -/
theorem update_eq_ok : update evaluator method solver S = .ok () S' ↔
    ∃ (T : Trial α β n) (ledger : σ), T.Happens evaluator solver S ledger ∧
      Iteration.conclude evaluator method (T.session method S ledger) = .ok () S' := by
  unfold update
  constructor
  · intro returned
    obtain ⟨_, T₁, proposing, rest⟩ := bind_eq_ok.1 returned
    obtain ⟨proposal, s, proposed, written, rfl⟩ := Iteration.propose_eq_ok.1 proposing
    obtain ⟨_, T₂, moving, rest⟩ := bind_eq_ok.1 rest
    obtain ⟨gPrevious, saved, rfl⟩ := Iteration.move_eq_ok.1 moving
    obtain ⟨_, T₃, trying, rest⟩ := bind_eq_ok.1 rest
    obtain ⟨value, g, ledger, f, g', evaluated, read, received, rfl⟩ :=
      Iteration.tryOut_eq_ok.1 trying
    obtain ⟨_, T₄, judging, concluding⟩ := bind_eq_ok.1 rest
    rw [Iteration.judge_run] at judging
    cases judging
    exact ⟨⟨proposal, s, gPrevious, f, g'⟩, ledger,
      ⟨proposed, written, saved, value, g, evaluated, read, received⟩, concluding⟩
  · rintro ⟨T, ledger, ⟨proposed, written, saved, value, g, evaluated, read, received⟩, concluding⟩
    refine bind_eq_ok.2 ⟨(), _, Iteration.propose_eq_ok.2 ⟨_, _, proposed, written, rfl⟩, ?_⟩
    refine bind_eq_ok.2 ⟨(), _, Iteration.move_eq_ok.2 ⟨_, saved, rfl⟩, ?_⟩
    refine bind_eq_ok.2 ⟨(), _, Iteration.tryOut_eq_ok.2
      ⟨value, g, ledger, _, _, evaluated, read, received, rfl⟩, ?_⟩
    exact bind_eq_ok.2 ⟨(), _, Iteration.judge_run, concluding⟩

/-- An iteration returns if the step solver and the evaluator answer with arrays that fit. -/
theorem exists_update (method : Method α) {proposal : Proposal α} {s g : Vector α n} {f : β}
    {ledger : σ}
    (proposed : solver.propose S.state = .ok proposal) (step : proposal.step = .ofVector s)
    (shape : S.state.g.shape = [n]) (shape' : S.state.gPrevious.shape = [n])
    (evaluated : evaluator.valueAndGradient (.ofVector (S.state.x + s)) S.ledger =
      .ok (.scalar f, .ofVector g) ledger)
    (curved : ∃ H ledger', evaluator.hessian (.ofVector (S.state.x + s)) ledger = .ok H ledger') :
    ∃ S', update evaluator method solver S = .ok () S' ∧ S'.state.g.shape = [n] ∧
      S'.state.gPrevious.shape = [n] := by
  have write (t : Tensor α) (fits : t.shape = [n]) : t.writeOver [n] = .ok t := by
    have written := Tensor.writeOver_shape (t := t) (by rw [fits]; exact List.cons_ne_nil n [])
    rwa [fits] at written
  let T : Trial α β n := ⟨proposal, s, S.state.g, f, .ofVector g⟩
  have happens : T.Happens evaluator solver S ledger := by
    refine ⟨proposed, ?_, ?_, .scalar f, .ofVector g, evaluated, rfl, ?_⟩
    · rw [step]
      exact Tensor.writeOverVector_ofVector s
    · rw [shape']
      exact write _ shape
    · rw [shape]
      exact write _ rfl
  by_cases low : T.ratio method S.state ≤ Embeds.embed method.eta
  · refine ⟨_, update_eq_ok.2 ⟨T, ledger, happens,
      Iteration.conclude_eq_ok.2 (Or.inl ⟨low, S.state.g, write _ shape, rfl⟩)⟩, shape, shape⟩
  · obtain ⟨H, ledger', evaluated'⟩ := curved
    refine ⟨_, update_eq_ok.2 ⟨T, ledger, happens,
      Iteration.conclude_eq_ok.2 (Or.inr ⟨low, H, ledger', evaluated', rfl⟩)⟩, rfl, shape⟩

/-- The two ways an iteration ends. -/
inductive Turn (evaluator : Evaluator α β σ) (method : Method α) (solver : StepSolver α β)
    (S S' : Session α β σ n) : Prop
  /-- The trial is taken back: point, value and gradient are those from before it. -/
  | takenBack {T : Trial α β n} (happens : T.Happens evaluator solver S S'.ledger)
    (low : T.ratio method S.state ≤ Embeds.embed method.eta)
    (state : S'.state = { (T.judged method S.state).reject with g := S.state.g })
  /-- The trial is kept, and gets a Hessian. -/
  | kept {T : Trial α β n} {ledger : σ} {H : Tensor α} (happens : T.Happens evaluator solver S ledger)
    (high : ¬ T.ratio method S.state ≤ Embeds.embed method.eta)
    (evaluated : evaluator.hessian (.ofVector (S.state.x + T.s)) ledger = .ok H S'.ledger)
    (state : S'.state = (T.judged method S.state).accept.setHessian H)

/-- An iteration that returns ends in one of the two ways. -/
theorem turn_of_update (returned : update evaluator method solver S = .ok () S') :
    Turn evaluator method solver S S' := by
  obtain ⟨T, ledger, happens, concluding⟩ := update_eq_ok.1 returned
  rcases Iteration.conclude_eq_ok.1 concluding with
    ⟨low, g, restored, rfl⟩ | ⟨high, H, ledger', evaluated, rfl⟩
  · obtain ⟨value, g', -, -, received⟩ := happens.evaluated
    -- The gradient went into the copy and comes back: its shape is that of the trial's gradient.
    change T.gPrevious.writeOver T.g.shape = .ok g at restored
    rw [Tensor.shape_writeOver received] at restored
    obtain rfl := Tensor.writeOver_writeOver happens.saved restored
    exact Turn.takenBack happens low rfl
  · exact Turn.kept happens high evaluated rfl

omit [Scalar β] [Embeds α β] in
/-- The step and the model value of a trial are those of the step solver. -/
theorem Trial.Happens.step_eq {T : Trial α β n} {ledger : σ}
    (happens : T.Happens evaluator solver S ledger) {proposal : Proposal α} {s : Vector α n}
    (proposed : solver.propose S.state = .ok proposal) (step : proposal.step = .ofVector s) :
    T.s = s ∧ T.proposal.outcome.m = proposal.outcome.m := by
  have written := happens.written
  obtain rfl := Except.ok.inj (proposed.symm.trans happens.proposed)
  rw [step, Tensor.writeOverVector_ofVector] at written
  exact ⟨(Except.ok.inj written).symm, rfl⟩

/-- The step and the model value of the state are those of the step solver. -/
theorem Turn.step_eq (turn : Turn evaluator method solver S S') {proposal : Proposal α}
    {s : Vector α n} (proposed : solver.propose S.state = .ok proposal)
    (step : proposal.step = .ofVector s) :
    S'.state.s = s ∧ S'.state.m = proposal.outcome.m := by
  cases turn with
  | takenBack happens low state =>
    rw [state]
    exact happens.step_eq proposed step
  | kept happens high evaluated state =>
    rw [state]
    exact happens.step_eq proposed step

end TrustRegion
