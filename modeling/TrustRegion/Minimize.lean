/-
  A whole run of the trust-region method.

  Iterations follow one another until the observer asks to stop, a convergence test holds after a
  step that was kept, or the budget is used up. After a step that was taken back nothing has
  changed, so the tests are left out. The gradient test is made once before the first iteration.
-/
import TrustRegion.Update
import TrustRegion.Convergence

namespace TrustRegion

/-- What a run is told to do, apart from what it minimizes and where it starts. -/
structure Options (α β : Type) where
  /-- The parameters of the method. -/
  method : Method α
  /-- How small changes or the gradient must become. -/
  tolerances : Tolerances α
  /-- The largest number of iterations. -/
  maxIterations : Int
  /-- Whether to keep the points that were reached. -/
  keepHistory : Bool
  /-- Whether to keep a record of every iteration. -/
  keepTrace : Bool
  /-- Asked after every iteration, with its number, whether to stop. -/
  observer : Option (⦃n : Nat⦄ → Nat → State α β n → Bool)
  /-- The strategy for steps; without one the subproblem is solved within `rootLimits`. -/
  solver : Option (StepSolver α β)
  /-- The limits of root finding where no strategy is given. -/
  rootLimits : RootLimits α

namespace Options

variable {α β : Type} [Scalar α]

/-- Tolerances `1e-32` on point and value and `1e-8` on the gradient, 1000 iterations, no logs. -/
def standard : Options α β where
  method := Method.standard
  tolerances := ⟨1e-32, 1e-32, 1e-8⟩
  maxIterations := 1000
  keepHistory := false
  keepTrace := false
  observer := none
  solver := none
  rootLimits := RootLimits.standard

/-- Refuses a negative tolerance and a negative budget. -/
def check (options : Options α β) : Except (Fault α) Unit :=
  if options.tolerances.isNegative then throw .negativeTolerance
  else if options.maxIterations < 0 then throw .negativeBudget
  else pure ()

/-- The strategy for steps. -/
def stepSolver (options : Options α β) (la : LinearAlgebra α) (checked : Bool) :
    Except (Fault α) (StepSolver α β) :=
  match options.solver with
  | some solver => pure solver
  | none => do
    options.rootLimits.check
    pure (StepSolver.subproblem la checked options.rootLimits)

end Options

/-- What a run has come to. -/
structure Result (α β : Type) (n : Nat) where
  /-- The point. -/
  x : Vector α n
  /-- The value there. -/
  f : β
  /-- The length of the gradient there. -/
  gradientNorm : α
  /-- The radius at the end. -/
  delta : α
  /-- The number of iterations. -/
  iterations : Nat
  /-- Why the run ended. -/
  stop : Stop
  /-- Which tests held when they were last made. -/
  convergence : Convergence
  /-- How often values, gradients and Hessians were computed. -/
  counts : Counts
  /-- The points that were reached, the first one included, if they were to be kept. -/
  history : Array (Vector α n)
  /-- The records of the iterations, if they were to be kept. -/
  trace : Array (Record α β)

/-- Whether a run ended because a convergence test held. -/
def Result.success {α β : Type} {n : Nat} (r : Result α β n) : Bool := r.stop.converged

/-- How far a run has come. -/
structure Progress (α β : Type) (n : Nat) where
  /-- The number of iterations so far. -/
  iterations : Nat
  /-- Why the run ends, `budget` unless something else was found. -/
  stop : Stop
  /-- Which tests held when they were last made. -/
  convergence : Convergence
  /-- The points that were reached so far. -/
  history : Array (Vector α n)
  /-- The records so far. -/
  trace : Array (Record α β)

/-- The reason to stop that a set of tests gives: gradient before value before point. -/
def Convergence.stop (c : Convergence) : Stop :=
  if c.gradient then .gradient else if c.value then .value else if c.point then .point else .budget

/-- The state of an evaluator's ledger and of the journal, around the iterations of a run. -/
structure Books (α β σ : Type) where
  /-- The ledger of the evaluator. -/
  ledger : σ
  /-- What there was to tell so far. -/
  journal : Array (Event α β)

variable {α β σ : Type} [Scalar α] [Scalar β] [Embeds α β] {n : Nat}

namespace Progress

/-- An iteration entered in the logs that are kept. -/
def enter (options : Options α β) (p : Progress α β n) (state : State α β n)
    (record : Record α β) : Progress α β n :=
  { p with
    iterations := record.iteration
    trace := if options.keepTrace then p.trace.push record else p.trace
    history := if state.accepted && options.keepHistory then p.history.push state.x
      else p.history }

/-- Whether the observer asks to stop after an iteration. -/
def observed (options : Options α β) (iteration : Nat) (state : State α β n) : Bool :=
  match options.observer with
  | some observer => observer iteration state
  | none => false

/-- At most `more` further iterations; none once a convergence test has held. -/
def run (evaluator : Evaluator α β σ) (options : Options α β) (solver : StepSolver α β) :
    (more : Nat) → Progress α β n → Iteration α β σ n (Progress α β n)
  | 0, p => pure p
  | more + 1, p => do
    if p.stop.converged then pure p
    else
      update evaluator options.method solver
      let state ← Iteration.state
      let record := state.record (p.iterations + 1)
      Iteration.tell (.iteration record)
      let p := p.enter options state record
      if observed options record.iteration state then pure { p with stop := .observer }
      else if !state.accepted then run evaluator options solver more p
      else
        let c ← MonadExcept.ofExcept (options.tolerances.assess (.ofVector state.x)
          (.ofVector state.xPrevious) state.f state.fPrevious state.g)
        run evaluator options solver more { p with convergence := c, stop := c.stop }

/-- The start of a run: only the gradient can be small already. -/
def begin (options : Options α β) (state : State α β n) : Except (Fault α) (Progress α β n) := do
  let small ← options.tolerances.assessStart state.g
  pure
    { iterations := 0
      stop := if small then .gradient else .budget
      convergence := { Convergence.none with gradient := small }
      history := if options.keepHistory then #[state.x] else #[]
      trace := #[] }

end Progress

/-- The result of a run that ends in a state. -/
def Progress.result (p : Progress α β n) (state : State α β n) (counts : Option Counts) :
    Result α β n where
  x := state.x
  f := state.f
  gradientNorm := state.gradientNorm
  delta := state.delta
  iterations := p.iterations
  stop := p.stop
  convergence := p.convergence
  counts := counts.getD ⟨state.fCalls, state.gCalls, state.hCalls⟩
  history := p.history
  trace := p.trace

/-- The iterations of a run from its first state on, and what is told at their end. -/
def runFrom (evaluator : Evaluator α β σ) (options : Options α β) (solver : StepSolver α β) :
    Iteration α β σ n (Result α β n) := do
  let start ← MonadExcept.ofExcept (Progress.begin options (← Iteration.state))
  let p ← Progress.run evaluator options solver options.maxIterations.toNat start
  let state ← Iteration.state
  Iteration.tell (.finished p.stop p.iterations state.f state.delta)
  pure (p.result state (evaluator.counts (← get).ledger))

/-- A run from the point `x`; the journal and the ledger are kept also where it fails. -/
def minimizeFrom (evaluator : Evaluator α β σ) (options : Options α β) (solver : StepSolver α β)
    (x : Vector α n) : EStateM (Fault α) (Books α β σ) (Result α β n) := fun books =>
  match initialState evaluator options.method x books.ledger with
  | .error fault ledger => .error fault { books with ledger }
  | .ok state ledger =>
    match runFrom evaluator options solver { state, ledger, journal := books.journal } with
    | .ok result session => .ok result { ledger := session.ledger, journal := session.journal }
    | .error fault session => .error fault { ledger := session.ledger, journal := session.journal }

/--
Minimizes what a source evaluates, from a starting point of any shape. Tolerances and budget are
checked first, then the limits of root finding, the source and the starting point.
-/
def minimize (la : LinearAlgebra α) (checked : Bool) (source : Source α β σ)
    (options : Options α β) (x : Tensor α) :
    EStateM (Fault α) (Books α β σ) ((k : Nat) × Result α β k) := do
  MonadExcept.ofExcept options.check
  let solver ← MonadExcept.ofExcept (options.stepSolver la checked)
  let evaluator ← MonadExcept.ofExcept source.toEvaluator
  let ⟨k, point⟩ ← MonadExcept.ofExcept (startingPoint x)
  let result ← minimizeFrom evaluator options solver point
  pure ⟨k, result⟩

end TrustRegion
