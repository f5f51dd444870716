/-
  What can go wrong, and how it is said.

  A fault names its cause and holds what its message tells. Faults of checks that the library makes
  have a message; faults that arise inside an operation on numbers or arrays have none.
-/
import TrustRegion.Tensor.Basic

namespace TrustRegion

/-- The causes for which an operation of the library fails. -/
inductive Fault (α : Type)
  /-- The gradient of a subproblem is not a vector with an entry. -/
  | gradientShape (got : Shape)
  /-- The step buffer of a subproblem has not the length of the gradient. -/
  | stepShape (n : Nat) (got : Shape)
  /-- The Hessian of a subproblem is not square of the gradient's length. -/
  | hessianShape (n : Nat) (got : Shape)
  /-- No root-finding iteration is allowed. -/
  | iterationLimit
  /-- The radius of a subproblem is not positive. -/
  | radius
  /-- The tolerance of a step solver is zero or negative. -/
  | tolerance
  /-- The upper bound on the radius is not positive. -/
  | radiusBound
  /-- The initial radius is not between zero and the upper bound. -/
  | initialRadius
  /-- The acceptance threshold is not between zero and the lower ratio. -/
  | acceptance
  /-- The lower ratio is negative. -/
  | lowerRatio
  /-- The lower ratio is not below the upper one. -/
  | ratioOrder
  /-- The starting point is not a vector with an entry. -/
  | startShape (got : Shape)
  /-- A convergence tolerance is negative. -/
  | negativeTolerance
  /-- The iteration budget is negative. -/
  | negativeBudget
  /-- Eigenvalues and projections differ in number. -/
  | spectrumLengths (eigenvalues projections : Nat)
  /-- There is no smallest eigenvalue. -/
  | emptySpectrum
  /-- Two iterates differ in shape. -/
  | iterateShapes (current previous : Shape)
  /-- The step of a difference formula is zero or negative. -/
  | differenceStep
  /-- A matrix that should be symmetric is not square. -/
  | notSquare (got : Shape)
  /-- A matrix that should be symmetric is not. -/
  | asymmetric (allowed found : α)
  /-- An array has an infinite entry or a NaN. -/
  | nonFinite (name : String)
  /-- A number type without fractions cannot be differentiated in. -/
  | precision (name : String)
  /-- There is no number type of that name. -/
  | unknownPrecision (name : String)
  /-- Numbers of the precision in use cannot be handed out. -/
  | unreadablePrecision
  /-- A differentiated objective gave an array that does not have exactly one entry. -/
  | objectiveShape (got : Shape)
  /-- The objective to minimize is neither a problem nor an evaluator. -/
  | notAnEvaluator
  /-- An objective gave an array where its value is one number. -/
  | valueNotScalar
  /-- An array stands where a matrix has one number. -/
  | entryNotScalar
  /-- An array stands where a comparison has one answer. -/
  | ambiguousTruth
  /-- Two shapes do not fit each other. -/
  | shapeMismatch
  /-- Arrays in a differentiated computation do not fit the operation they are given to. -/
  | tracedShapes
  /-- There is no array that could be laid along an axis with others. -/
  | emptyStack
  /-- An array without axes cannot be written slice by slice. -/
  | noAxis
  /-- An array without axes has no length. -/
  | noLength
  /-- An empty array has no largest entry. -/
  | emptyMaximum
  /-- A point has no such coordinate. -/
  | coordinate (index : Int)
  /-- The square of a finite number is not finite. -/
  | squareOverflow
  /-- A divisor is zero. -/
  | zeroDivision
  /-- A pivot of the Cholesky factorization is not positive. -/
  | notPositiveDefinite
  /-- A linear system has no unique solution. -/
  | singularSystem
  /-- The search for eigenvalues did not come to rest. -/
  | noConvergence
  /-- A value does not depend on anything it could be differentiated in. -/
  | constantValue
  /-- A log format has no valid field. -/
  | logFormat
  /-- A text stands where a log has a level. -/
  | levelText
  /-- Something that is neither a number nor a text stands where a log has a level. -/
  | levelKind
deriving Repr, DecidableEq

namespace Fault

/--
The message of a fault, numbers being written by `number`; faults inside an operation on numbers or
arrays have none.
-/
def message {α : Type} (number : α → String) : Fault α → Option String
  | gradientShape got => some ("g must be a non-empty vector, got shape " ++ got.text)
  | stepShape n got => some ("s must have shape " ++ Shape.text [n] ++ ", got " ++ got.text)
  | hessianShape n got => some ("H must have shape " ++ Shape.text [n, n] ++ ", got " ++ got.text)
  | iterationLimit => some "max_iters must be at least 1"
  | radius => some "delta must be positive"
  | tolerance => some "tolerance must be positive"
  | radiusBound => some "delta_hat must be strictly positive"
  | initialRadius => some "initial_delta must be in (0, delta_hat)"
  | acceptance => some "eta must be in [0, rho_lower)"
  | lowerRatio => some "rho_lower must be non-negative"
  | ratioOrder => some "must have rho_lower < rho_upper"
  | startShape got => some ("x0 must be a non-empty 1-D array, got shape " ++ got.text)
  | negativeTolerance => some "tolerances must be non-negative"
  | negativeBudget => some "maxiter must be non-negative"
  | spectrumLengths eigenvalues projections =>
    some ("eigenvalues and qg must have the same length, got " ++ eigenvalues.repr ++ " and "
      ++ projections.repr)
  | iterateShapes current previous =>
    some ("x and x_previous must have the same shape, got " ++ current.text ++ " and "
      ++ previous.text)
  | differenceStep => some "eps must be positive"
  | notSquare got => some ("Expected a square matrix, got shape " ++ got.text ++ ".")
  | asymmetric allowed found =>
    some ("Matrix is not symmetric within tolerance " ++ number allowed ++ ". Max deviation: "
      ++ number found)
  | nonFinite name => some (name ++ " contains non-finite values.")
  | precision name => some ("dtype must be a floating point dtype, got torch." ++ name)
  | objectiveShape got => some ("fun must return a scalar, got shape " ++ got.text)
  | notAnEvaluator =>
    some "Expected a Problem or an object with value_and_gradient() and hessian()"
  | unknownPrecision _ | unreadablePrecision | emptySpectrum | valueNotScalar | entryNotScalar
  | ambiguousTruth | shapeMismatch | tracedShapes | emptyStack | noAxis | noLength | emptyMaximum
  | coordinate _ | squareOverflow | zeroDivision | notPositiveDefinite | singularSystem
  | noConvergence | constantValue | logFormat | levelText | levelKind => none

end Fault

/-- Two steps that succeed one after the other succeed each by itself. -/
theorem exists_of_bind_eq_ok {ε σ τ : Type} {first : Except ε σ} {next : σ → Except ε τ}
    {result : τ} (h : first >>= next = .ok result) : ∃ a, first = .ok a ∧ next a = .ok result := by
  cases first with
  | error fault => cases h
  | ok a => exact ⟨a, rfl, h⟩

end TrustRegion
