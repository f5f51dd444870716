/-
  Sources of an objective's value, gradient and Hessian.

  An evaluator may keep a ledger of type `σ`, for instance of its calls. It keeps what it has
  written there also when it fails. Points are arrays of any shape; what comes back as a value, a
  gradient or a Hessian has whatever shape the evaluator gives it.
-/
import TrustRegion.Scalar
import TrustRegion.Fault

namespace TrustRegion

/-- An operation that can fail and keeps a ledger of type `σ`. -/
abbrev Action (α σ τ : Type) := EStateM (Fault α) σ τ

/-- An operation on points of every shape. -/
abbrev PointAction (α σ τ : Type) := Tensor α → Action α σ τ

/-- How often values, gradients and Hessians were computed. -/
structure Counts where
  /-- Values of the objective. -/
  values : Nat
  /-- Gradients that were not differenced. -/
  gradients : Nat
  /-- Hessians that were not differenced. -/
  hessians : Nat
deriving Repr, DecidableEq

/-- Nothing was computed yet. -/
def Counts.zero : Counts := ⟨0, 0, 0⟩

/-- A source of values of type `β` and of derivatives at points with coordinates of type `α`. -/
structure Evaluator (α β σ : Type) where
  /-- The value and the gradient at a point. -/
  valueAndGradient : PointAction α σ (Tensor β × Tensor α)
  /-- The Hessian at a point. -/
  hessian : PointAction α σ (Tensor α)
  /-- The counts that the evaluator keeps, if it keeps any. -/
  counts : σ → Option Counts

/-- What a caller may ask to have minimized. -/
inductive Source (α β σ : Type)
  /-- A source of values and derivatives. -/
  | evaluator (e : Evaluator α β σ)
  /-- Anything else. -/
  | other

/-- The evaluator of a source; anything else is refused. -/
def Source.toEvaluator {α β σ : Type} : Source α β σ → Except (Fault α) (Evaluator α β σ)
  | .evaluator e => pure e
  | .other => throw .notAnEvaluator

namespace Tensor

/-- The number in an array without axes, as the value of an objective. -/
def value {β φ : Type} (t : Tensor β) : Except (Fault φ) β :=
  match t.toScalar? with
  | some a => pure a
  | none => throw .valueNotScalar

end Tensor

/-- An evaluator made of three operations, without counts. -/
def Evaluator.ofActions {α σ : Type} (objective gradient hessian : PointAction α σ (Tensor α)) :
    Evaluator α α σ where
  valueAndGradient := fun x => do
    let value ← objective x
    let g ← gradient x
    pure (value, g)
  hessian := hessian
  counts := fun _ => none

end TrustRegion
