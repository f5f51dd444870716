/-
  The multiplier whose step ends on the boundary.

  Newton's method on `1/δ - 1/‖s(λ)‖`, a function of the multiplier `λ` that is nearly linear. Each
  iteration factorizes `H + λ I`, so the multiplier must stay where that matrix is positive
  definite: an iterate that falls below the bound is replaced by the midpoint between the bound and
  the iterate before it.
-/
import TrustRegion.Subproblem.Basic

namespace TrustRegion

variable {α : Type} [Scalar α] {n : Nat}

namespace Model

/-- The step `-(H + λ I)⁻¹ g` and the vector `L⁻¹ s`, where `L Lᵀ = H + λ I`. -/
def regularizedStep (la : LinearAlgebra α) (M : Model α n) (lam : α) :
    Except (Fault α) (Vector α n × Vector α n) := do
  let L ← la.cholesky (M.hessian.shift lam)
  let y ← la.solve L M.gradient
  let z ← la.solve L.transpose y
  let s := -z
  let q ← la.solve L s
  pure (s, q)

/--
One iteration: the step that belongs to `lam`, and the multiplier after it. The bound is where the
smallest eigenvalue of `H + λ I` becomes positive enough.
-/
def rootIteration (la : LinearAlgebra α) (M : Model α n) (delta bound lam : α) :
    Except (Fault α) (Vector α n × α) := do
  let (s, q) ← M.regularizedStep la lam
  let squared := dot s s
  let change ← checkedQuotient (squared * (Scalar.sqrt squared - delta)) (delta * dot q q)
  let next := lam + change
  let next := if next < bound + definiteThreshold then 0.5 * (lam - bound) + bound else next
  pure (s, next)

/-- The state in which root finding ended. -/
structure Root (α : Type) (n : Nat) where
  /-- The step of the last iteration. -/
  step : Vector α n
  /-- The multiplier after the last iteration. -/
  lam : α
  /-- Whether the last change of the multiplier was below the tolerance. -/
  reached : Bool

/-- Iterates until the multiplier changes by less than the tolerance, at most `more + 1` times. -/
def findRoot (la : LinearAlgebra α) (M : Model α n) (delta bound tolerance : α) :
    (more : Nat) → (lam : α) → Except (Fault α) (Root α n)
  | more, lam => do
    let (s, next) ← M.rootIteration la delta bound lam
    if Scalar.abs (next - lam) < tolerance then pure ⟨s, next, true⟩
    else
      match more with
      | 0 => pure ⟨s, next, false⟩
      | more + 1 => findRoot la M delta bound tolerance more next

end Model

end TrustRegion
