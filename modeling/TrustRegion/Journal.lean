/-
  What a run has to tell: its events, and the messages they become.

  Values of the objective are written with ten significant digits, lengths and radii with three
  digits after the point, ratios and multipliers with three significant digits, and multipliers of
  the subproblem solver with six.
-/
import TrustRegion.State
import TrustRegion.Decimal.Text
import TrustRegion.Logging.Registry

namespace TrustRegion

/-- Why a run ended. -/
inductive Stop
  /-- All iterations were used. -/
  | budget
  /-- The observer asked for it. -/
  | observer
  /-- The gradient is small. -/
  | gradient
  /-- The value hardly changed. -/
  | value
  /-- The point hardly changed. -/
  | point
deriving Repr, DecidableEq

namespace Stop

/-- Whether the run ended because a convergence test held. -/
def converged : Stop → Bool
  | gradient | value | point => true
  | budget | observer => false

/-- The reason in words. -/
def message : Stop → String
  | budget => "Maximum iterations reached."
  | observer => "Stopped by callback."
  | gradient => "Gradient tolerance satisfied."
  | value => "Function tolerance satisfied."
  | point => "Step tolerance satisfied."

end Stop

/-- How an iteration went. -/
structure Record (α β : Type) where
  /-- Its number, from 1. -/
  iteration : Nat
  /-- The value after it. -/
  f : β
  /-- The length of the gradient after it. -/
  gradientNorm : α
  /-- The radius after it. -/
  delta : α
  /-- The ratio of its step. -/
  rho : β
  /-- The multiplier of its step. -/
  lam : α
  /-- Whether its step was interior. -/
  interior : Bool
  /-- Whether its step was completed along an eigenvector. -/
  hardCase : Bool
  /-- Whether root finding came to rest. -/
  reached : Bool
  /-- Whether its step was kept. -/
  accepted : Bool

/-- The record of the last iteration of a state. -/
def State.record {α β : Type} [Scalar α] {n : Nat} (state : State α β n) (iteration : Nat) :
    Record α β where
  iteration := iteration
  f := state.f
  gradientNorm := state.gradientNorm
  delta := state.delta
  rho := state.rho
  lam := state.lam
  interior := state.interior
  hardCase := state.hardCase
  reached := state.reached
  accepted := state.accepted

/-- Something a run has to tell. -/
inductive Event (α β : Type)
  /-- A remark of the subproblem solver. -/
  | solver (remark : Remark α)
  /-- The trial value is infinite or a NaN. -/
  | trialNotFinite
  /-- An iteration is done. -/
  | iteration (record : Record α β)
  /-- The run is over. -/
  | finished (stop : Stop) (iterations : Nat) (f : β) (delta : α)

/-- The part of the library that an event belongs to. -/
inductive Topic
  /-- The solution of subproblems. -/
  | subproblem
  /-- The iterations of a run. -/
  | controller
deriving Repr, DecidableEq

namespace Topic

/-- The name of the logger that hears of a topic. -/
def logger : Topic → String
  | subproblem => Logging.solverName
  | controller => Logging.controllerName

end Topic

namespace Event

variable {α β : Type}

/-- The topic of an event. -/
def topic : Event α β → Topic
  | solver _ => .subproblem
  | trialNotFinite | iteration _ | finished .. => .controller

/-- The importance of an event. -/
def level : Event α β → Logging.Level
  | solver _ | iteration _ => Logging.Level.debug
  | trialNotFinite => Logging.Level.warning
  | finished .. => Logging.Level.info

/-- A truth value in writing. -/
def truthText (b : Bool) : String := if b then "True" else "False"

/-- An event in words. -/
def text : Event Float Float → String
  | solver (.hardCase lam multiplicity tau) =>
    "Hard case: lambda=" ++ Decimal.general 6 lam ++ " multiplicity=" ++ multiplicity.repr
      ++ " tau=" ++ Decimal.general 6 tau
  | solver (.rootFindingStopped iterations lam length delta) =>
    "Root finding stopped after " ++ iterations.repr ++ " iterations: lambda="
      ++ Decimal.general 6 lam ++ " |s|=" ++ Decimal.general 6 length
      ++ " delta=" ++ Decimal.general 6 delta
  | trialNotFinite => "Objective is not finite at the trial point; shrinking region"
  | iteration r =>
    "iter " ++ r.iteration.repr ++ ": f=" ++ Decimal.general 10 r.f
      ++ " |g|=" ++ Decimal.exponential 3 r.gradientNorm
      ++ " delta=" ++ Decimal.exponential 3 r.delta
      ++ " rho=" ++ Decimal.general 3 r.rho ++ " lambda=" ++ Decimal.general 3 r.lam
      ++ " interior=" ++ truthText r.interior ++ " hard_case=" ++ truthText r.hardCase
      ++ " accepted=" ++ truthText r.accepted
  | finished stop iterations f delta =>
    stop.message ++ " (nit=" ++ iterations.repr ++ ", f=" ++ Decimal.general 10 f
      ++ ", delta=" ++ Decimal.exponential 3 delta ++ ")"

/-- An event as a message to the logger of its topic. -/
def message (event : Event Float Float) : Logging.Message :=
  ⟨event.topic.logger, event.level, event.text⟩

end Event

end TrustRegion
