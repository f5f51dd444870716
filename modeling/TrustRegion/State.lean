/-
  The state of a run: where it is, what it knows there, and how the last iteration went.

  The points and the step have the dimension of the run. The gradient and the Hessian are kept in
  the shape in which the evaluator gave them.
-/
import TrustRegion.Method
import TrustRegion.Subproblem.Basic

namespace TrustRegion

/-- The state of a run in dimension `n`. -/
structure State (α β : Type) (n : Nat) where
  /-- The point. -/
  x : Vector α n
  /-- The point before the last iteration. -/
  xPrevious : Vector α n
  /-- The value at the point. -/
  f : β
  /-- The value before the last iteration. -/
  fPrevious : β
  /-- The gradient at the point. -/
  g : Tensor α
  /-- The gradient before the last iteration. -/
  gPrevious : Tensor α
  /-- The Hessian at the point. -/
  H : Tensor α
  /-- The radius. -/
  delta : α
  /-- The last step that was tried. -/
  s : Vector α n
  /-- The multiplier of that step. -/
  lam : α
  /-- Its ratio of actual to predicted reduction. -/
  rho : β
  /-- The value of the model at that step. -/
  m : α
  /-- Whether that step was strictly inside the region. -/
  interior : Bool
  /-- Whether that step was completed along an eigenvector. -/
  hardCase : Bool
  /-- Whether root finding came to rest. -/
  reached : Bool
  /-- Whether that step was kept. -/
  accepted : Bool
  /-- How many values were asked for. -/
  fCalls : Nat
  /-- How many gradients were asked for. -/
  gCalls : Nat
  /-- How many Hessians were asked for. -/
  hCalls : Nat

namespace State

variable {α β : Type} [Scalar α] [Scalar β] [Embeds α β] {n : Nat}

/-- The state at a starting point; what no iteration has set yet is `0 / 0` or zero. -/
def start (method : Method α) (x : Vector α n) (f : β) (g H : Tensor α) : State α β n where
  x := x
  xPrevious := x
  f := f
  fPrevious := 0 / 0
  g := g
  gPrevious := g
  H := H
  delta := method.initialRadius
  s := Vector.ofFn fun _ => 0
  lam := 0 / 0
  rho := 0
  m := 0
  interior := true
  hardCase := false
  reached := true
  accepted := true
  fCalls := 1
  gCalls := 1
  hCalls := 1

/-- The Euclidean length of the gradient. -/
def gradientNorm (state : State α β n) : α :=
  Scalar.sqrt (state.g.data.foldl (fun acc a => acc + a * a) 0)

/-- The step and its report taken over. -/
def propose (state : State α β n) (s : Vector α n) (outcome : Outcome α) : State α β n :=
  { state with
    s := s
    m := outcome.m
    interior := outcome.interior
    lam := outcome.lam
    hardCase := outcome.hardCase
    reached := outcome.reached }

/-- The step taken, on trial. -/
def move (state : State α β n) : State α β n := { state with x := state.x + state.s }

/-- The value at the trial point taken over. -/
def setValue (state : State α β n) (f : β) : State α β n :=
  { state with fPrevious := state.f, f := f }

/-- The gradient at the trial point taken over. -/
def setGradient (state : State α β n) (g : Tensor α) : State α β n :=
  { state with g := g, fCalls := state.fCalls + 1, gCalls := state.gCalls + 1 }

/--
The radius after a step of the given ratio: a quarter if the ratio is low, twice as much but at most
the largest radius if it is high and the step was not interior.
-/
def resize (method : Method α) (state : State α β n) (rho : β) : α :=
  if rho < Embeds.embed method.rhoLower then state.delta * 0.25
  else if Embeds.embed method.rhoUpper < rho ∧ ¬ state.interior then
    Scalar.min (2.0 * state.delta) method.maxRadius
  else state.delta

/-- The ratio and the radius that follows from it taken over. -/
def judge (method : Method α) (state : State α β n) (rho : β) : State α β n :=
  { state with rho := rho, delta := state.resize method rho }

/-- The trial taken back: point and value are as before it. -/
def reject (state : State α β n) : State α β n :=
  { state with accepted := false, f := state.fPrevious, x := state.xPrevious }

/-- The trial kept. -/
def accept (state : State α β n) : State α β n := { state with accepted := true }

/-- The Hessian at the new point taken over. -/
def setHessian (state : State α β n) (H : Tensor α) : State α β n :=
  { state with H := H, hCalls := state.hCalls + 1 }

end State

/-- Whether the model value of a step is too small to compare with a reduction. -/
def negligibleModel {α : Type} [Scalar α] (m : α) : Bool :=
  decide (Scalar.abs m ≤ Scalar.machineEpsilon)

/--
The ratio of the actual reduction to the predicted one. It is one less than the lower threshold, so
that the step fails, where the trial value is not finite or the model predicts an increase, and 1
where the model value is too small to compare with.
-/
def reductionRatio {α β : Type} [Scalar α] [Scalar β] [Embeds α β] (method : Method α) (m : α)
    (fPrevious f : β) : β :=
  if ¬ Scalar.isFinite f then Embeds.embed (method.rhoLower - 1)
  else if negligibleModel m then 1
  else if 0 < m then Embeds.embed (method.rhoLower - 1)
  else (fPrevious - f) / Embeds.embed (-m)

end TrustRegion
