/-
  An objective with the derivatives its user supplies; missing ones are differenced.

  The ledger of the evaluator holds the counts beside the user's own ledger, in which the user's
  functions may write. Values spent on differences count as values; gradients and Hessians count
  only where the user's functions computed them. A value counts once it is there and is a number,
  a supplied gradient once it is there, a supplied Hessian as soon as it is asked for.
-/
import TrustRegion.Evaluator.Basic
import TrustRegion.Difference

namespace TrustRegion

/-- An objective, with a gradient and a Hessian if the user has them. -/
structure Problem (α τ : Type) where
  /-- The objective. -/
  objective : PointAction α τ (Tensor α)
  /-- Its gradient. -/
  gradient : Option (PointAction α τ (Tensor α))
  /-- Its Hessian. -/
  hessian : Option (PointAction α τ (Tensor α))

namespace Problem

variable {α τ υ : Type}

/-- An operation on the user's ledger, as one on counts and ledger together. -/
def asUser (act : Action α τ υ) : Action α (Counts × τ) υ := fun (counts, ledger) =>
  match act ledger with
  | .ok result ledger => .ok result (counts, ledger)
  | .error fault ledger => .error fault (counts, ledger)

/-- A change of the counts. -/
def count (change : Counts → Counts) : Action α (Counts × τ) Unit :=
  modify fun (counts, ledger) => (change counts, ledger)

/-- So many more values. -/
def countValues (more : Nat) : Action α (Counts × τ) Unit :=
  count fun c => { c with values := c.values + more }

variable [Scalar α]

/-- The step of the differences that stand for a gradient. -/
def gradientStep : α := 1e-6

/-- The step of the differences that stand for a Hessian. -/
def hessianStep : α := 1e-4

/-- The value and the gradient, the latter by differences if it is not supplied. -/
def valueAndGradient (p : Problem α τ) :
    PointAction α (Counts × τ) (Tensor α × Tensor α) := fun x => do
  let value ← asUser (p.objective x)
  let number ← MonadExcept.ofExcept value.value
  countValues 1
  match p.gradient with
  | some gradient =>
    let g ← asUser (gradient x)
    count fun c => { c with gradients := c.gradients + 1 }
    pure (.scalar number, g)
  | none =>
    let d ← asUser (Difference.gradient p.objective x gradientStep)
    countValues d.evaluations
    pure (.scalar number, d.derivative)

/-- The Hessian, by differences if it is not supplied. -/
def hessianAt (p : Problem α τ) : PointAction α (Counts × τ) (Tensor α) := fun x => do
  match p.hessian with
  | some hessian =>
    count fun c => { c with hessians := c.hessians + 1 }
    asUser (hessian x)
  | none =>
    let d ← asUser (Difference.hessian p.objective x hessianStep)
    countValues d.evaluations
    pure d.derivative

/-- The evaluator of a problem. -/
def evaluator (p : Problem α τ) : Evaluator α α (Counts × τ) where
  valueAndGradient := p.valueAndGradient
  hessian := p.hessianAt
  counts := fun ledger => some ledger.1

end Problem

end TrustRegion
