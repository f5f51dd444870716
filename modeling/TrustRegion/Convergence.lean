/-
  The tests that end a run: a small change of the point, a small change of the objective, a small
  gradient. Each is a strict comparison with a tolerance of its own; one that holds is enough. The
  largest change counts, and a NaN among the changes makes the test fail.
-/
import TrustRegion.Scalar
import TrustRegion.Fault

namespace TrustRegion

/-- How small a change or a gradient must be. -/
structure Tolerances (α : Type) where
  /-- Bound on the largest change of a coordinate. -/
  point : α
  /-- Bound on the change of the objective. -/
  value : α
  /-- Bound on the largest component of the gradient. -/
  gradient : α

/-- Which of the tests hold. -/
structure Convergence where
  /-- The point changed little. -/
  point : Bool
  /-- The objective changed little. -/
  value : Bool
  /-- The gradient is small. -/
  gradient : Bool
deriving Repr, DecidableEq

/-- Whether some test holds. -/
def Convergence.any (c : Convergence) : Bool := c.point || c.value || c.gradient

/-- No test holds. -/
def Convergence.none : Convergence := ⟨false, false, false⟩

namespace Tolerances

variable {α β : Type} [Scalar α] [Scalar β] [Embeds α β]

/-- Whether the smallest tolerance is negative. -/
def isNegative (tol : Tolerances α) : Bool :=
  decide (Scalar.min (Scalar.min tol.point tol.value) tol.gradient < 0)

/-- Whether the largest entry of a list, in absolute value, is below a tolerance. -/
def allBelow (bound : α) (xs : List α) : Bool :=
  decide (Scalar.maximum (xs.map Scalar.abs) < bound)

/-- The tests on the changes of the coordinates, the two values and the gradient. -/
def test (tol : Tolerances α) (changes : List α) (f fPrevious : β) (gradient : List α) :
    Convergence :=
  { point := allBelow tol.point changes
    value := decide (Scalar.abs (f - fPrevious) < Embeds.embed tol.value)
    gradient := allBelow tol.gradient gradient }

/-- The tests for two successive points, which must have the same shape. -/
def assess (tol : Tolerances α) (x xPrevious : Tensor α) (f fPrevious : β) (g : Tensor α) :
    Except (Fault α) Convergence :=
  if x.shape = xPrevious.shape then
    pure (tol.test (x.data.zipWith (· - ·) xPrevious.data).toList f fPrevious g.data.toList)
  else throw (.iterateShapes x.shape xPrevious.shape)

/-- The gradient test at the starting point, where nothing has changed yet. -/
def assessStart (tol : Tolerances α) (g : Tensor α) : Except (Fault α) Bool :=
  match Scalar.maximum? (g.data.toList.map Scalar.abs) with
  | none => throw .emptyMaximum
  | some largest => pure (decide (largest < tol.gradient))

end Tolerances

end TrustRegion
