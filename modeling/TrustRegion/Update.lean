/-
  One iteration of the trust-region method.

  The step is tried: the point moves, value and gradient are asked for there, and the ratio of the
  actual reduction to the predicted one rules the radius and whether the step is kept. A step that
  is kept gets a Hessian, one that is not is taken back.

  A session holds the state, the ledger of the evaluator and what there was to tell. Where an
  iteration fails, the session keeps what was written up to then.
-/
import TrustRegion.StepSolver
import TrustRegion.Journal
import TrustRegion.Evaluator.Basic
import TrustRegion.Tensor.Broadcast

namespace TrustRegion

namespace Tensor

variable {α : Type}

/-- The entries of `t` written over an array of shape `target`, which must have an axis. -/
def writeOver (t : Tensor α) (target : Shape) : Except (Fault α) (Tensor α) :=
  if target.isEmpty then throw .noAxis
  else
    match t.assignTo? target with
    | some result => pure result
    | none => throw .shapeMismatch

/-- The entries of `t` written over a vector of length `n`. -/
def writeOverVector (t : Tensor α) (n : Nat) : Except (Fault α) (Vector α n) :=
  match (t.assignTo? [n]).bind (toVector? n) with
  | some result => pure result
  | none => throw .shapeMismatch

end Tensor

/-- A run under way. -/
structure Session (α β σ : Type) (n : Nat) where
  /-- The state of the run. -/
  state : State α β n
  /-- The ledger of the evaluator. -/
  ledger : σ
  /-- What there was to tell so far. -/
  journal : Array (Event α β)

/-- A part of an iteration. -/
abbrev Iteration (α β σ : Type) (n : Nat) (τ : Type) := EStateM (Fault α) (Session α β σ n) τ

namespace Iteration

variable {α β σ τ : Type} {n : Nat}

/-- The state as it is now. -/
def state : Iteration α β σ n (State α β n) := do pure (← get).state

/-- A change of the state. -/
def change (f : State α β n → State α β n) : Iteration α β σ n Unit :=
  modify fun session => { session with state := f session.state }

/-- Something to tell. -/
def tell (event : Event α β) : Iteration α β σ n Unit :=
  modify fun session => { session with journal := session.journal.push event }

/-- An operation of the evaluator. -/
def evaluate (act : Action α σ τ) : Iteration α β σ n τ := fun session =>
  match act session.ledger with
  | .ok result ledger => .ok result { session with ledger := ledger }
  | .error fault ledger => .error fault { session with ledger := ledger }

variable [Scalar α] [Scalar β] [Embeds α β]

/-- The step solver asked for a step, and its answer taken over. -/
def propose (solver : StepSolver α β) : Iteration α β σ n Unit := do
  let proposal ← MonadExcept.ofExcept (solver.propose (← state))
  if let some remark := proposal.remark then tell (.solver remark)
  let s ← MonadExcept.ofExcept (proposal.step.writeOverVector n)
  change fun st => st.propose s proposal.outcome

/-- The point moved by the step, with the place it came from remembered. -/
def move : Iteration α β σ n Unit := do
  change fun st => { st with xPrevious := st.x }
  let st ← state
  let gPrevious ← MonadExcept.ofExcept (st.g.writeOver st.gPrevious.shape)
  change fun st => { st with gPrevious := gPrevious }
  change State.move

/-- Value and gradient at the trial point. -/
def tryOut (evaluator : Evaluator α β σ) : Iteration α β σ n Unit := do
  let (value, g) ← evaluate (evaluator.valueAndGradient (.ofVector (← state).x))
  let f ← MonadExcept.ofExcept value.value
  change fun st => st.setValue f
  let g ← MonadExcept.ofExcept (g.writeOver (← state).g.shape)
  change fun st => st.setGradient g

/-- The ratio of the step, and the radius that follows. -/
def judge (method : Method α) : Iteration α β σ n Unit := do
  let st ← state
  if ¬ Scalar.isFinite st.f then tell .trialNotFinite
  change fun st => st.judge method (reductionRatio method st.m st.fPrevious st.f)

/-- The step kept or taken back. -/
def conclude (evaluator : Evaluator α β σ) (method : Method α) : Iteration α β σ n Unit := do
  let st ← state
  if st.rho ≤ Embeds.embed method.eta then
    change State.reject
    let g ← MonadExcept.ofExcept (st.gPrevious.writeOver st.g.shape)
    change fun st => { st with g := g }
  else
    change State.accept
    let H ← evaluate (evaluator.hessian (.ofVector st.x))
    change fun st => st.setHessian H

end Iteration

variable {α β σ : Type} [Scalar α] [Scalar β] [Embeds α β] {n : Nat}

/-- One iteration. -/
def update (evaluator : Evaluator α β σ) (method : Method α) (solver : StepSolver α β) :
    Iteration α β σ n Unit := do
  Iteration.propose solver
  Iteration.move
  Iteration.tryOut evaluator
  Iteration.judge method
  Iteration.conclude evaluator method

/--
The state at a starting point: value, gradient and Hessian there. Only then it shows whether the
value is a number.
-/
def initialState (evaluator : Evaluator α β σ) (method : Method α) (x : Vector α n) :
    Action α σ (State α β n) := do
  let (value, g) ← evaluator.valueAndGradient (.ofVector x)
  let H ← evaluator.hessian (.ofVector x)
  let f ← MonadExcept.ofExcept value.value
  pure (State.start method x f g H)

/-- The starting point that an array holds; it must be a vector with an entry. -/
def startingPoint (x : Tensor α) : Except (Fault α) ((k : Nat) × Vector α k) :=
  match x.toVector? x.data.size with
  | some point => if x.data.isEmpty then throw (.startShape x.shape) else pure ⟨_, point⟩
  | none => throw (.startShape x.shape)

end TrustRegion
