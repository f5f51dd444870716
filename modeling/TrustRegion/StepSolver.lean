/-
  Strategies that choose the step of an iteration from the state.
-/
import TrustRegion.State
import TrustRegion.Subproblem.Solve
import TrustRegion.Tensor.Broadcast

namespace TrustRegion

/-- A strategy that chooses the step of an iteration. -/
structure StepSolver (α β : Type) where
  /-- The step for a state. -/
  propose : ⦃n : Nat⦄ → State α β n → Except (Fault α) (Proposal α)

/-- How exactly, and for how long, a step solver looks for the multiplier. -/
structure RootLimits (α : Type) where
  /-- Root finding stops when the multiplier changes by less than this. -/
  tolerance : α
  /-- Root finding stops after so many iterations. -/
  maxIterations : Int

namespace RootLimits

variable {α : Type} [Scalar α]

/-- Tolerance `1e-10` and five iterations. -/
def standard : RootLimits α := ⟨1e-10, 5⟩

/-- Refuses limits below one iteration, and a tolerance that is zero or negative. -/
def check (limits : RootLimits α) : Except (Fault α) Unit :=
  if limits.maxIterations < 1 then throw .iterationLimit
  else if limits.tolerance ≤ 0 then throw .tolerance
  else pure ()

theorem check_eq_ok_iff (limits : RootLimits α) :
    limits.check = .ok () ↔ ¬ limits.maxIterations < 1 ∧ ¬ limits.tolerance ≤ 0 := by
  unfold check
  repeat' split
  all_goals simp_all [throw, throwThe, MonadExceptOf.throw, pure, Except.pure]

end RootLimits

namespace StepSolver

variable {α β : Type} [Scalar α]

/-- The solver that solves the subproblem of the state. -/
def subproblem (la : LinearAlgebra α) (checked : Bool) (limits : RootLimits α) :
    StepSolver α β where
  propose := fun _ state =>
    proposeStep la checked state.g state.H state.delta state.g.shape limits.tolerance
      limits.maxIterations

/-- The shape of the value of a model at a step, from the shapes of its parts. -/
def modelShape? (g H step : Shape) : Option Shape := do
  let linear ← Tensor.productShape? g step
  let image ← Tensor.productShape? H step
  let quadratic ← Tensor.productShape? step image
  Tensor.stretchedShape? linear quadratic

/--
The value of the model of a state at a step. Arrays that cannot be multiplied are refused, and so is
a value that is not a number: only a vector times a matrix times a vector gives one.
-/
def modelValue {n : Nat} (state : State α β n) (step : Tensor α) : Except (Fault α) α :=
  let k := step.data.size
  match modelShape? state.g.shape state.H.shape step.shape with
  | none => throw .shapeMismatch
  | some _ =>
    match step.toVector? k, state.g.toVector? k, state.H.toSquare? k with
    | some s, some g, some H => pure (dot g s + dot ((0.5 : α) * s) (SquareMatrix.mulVec H s))
    | _, _, _ => throw .valueNotScalar

/-- The solver that always answers the same step, with the report `outcome` gives for its `m`. -/
def constant (step : Tensor α) (m : Option α) (outcome : α → Outcome α) : StepSolver α β where
  propose := fun _ state => do
    let m ← match m with
      | some m => pure m
      | none => modelValue state step
    pure { step, outcome := outcome m, remark := none }

end StepSolver

end TrustRegion
