/-
  The solution of a subproblem.

  Five ways lead to a step, tried in this order: the unconstrained minimizer, where the model is
  convex and that step is short enough; a step completed along an eigenvector in the hard case; no
  step at all where the gradient is zero; and root finding for the multiplier, which ends settled or
  with its iterations used up.
-/
import TrustRegion.Subproblem.HardCase
import TrustRegion.Subproblem.RootFinding
import TrustRegion.InputChecks

namespace TrustRegion

variable {α : Type} [Scalar α] {n : Nat}

namespace Model

/-- The solution with step `s`, told by the value of the model and the given report. -/
def solution (M : Model α n) (s : Vector α n) (interior : Bool) (lam : α) (hardCase reached : Bool)
    (remark : Option (Remark α)) : Solution α n :=
  { step := s
    outcome := { m := M.value s, interior, lam, hardCase, reached }
    remark }

/--
The least multiplier that root finding may use: it lifts the smallest eigenvalue to the positive
threshold, or to that fraction of the spread of the eigenvalues if this is more.
-/
def multiplierBound (pos : 0 < n) (M : Model α n) : α :=
  -M.least pos +
    Scalar.max definiteThreshold (definiteThreshold * (M.greatest pos - M.least pos))

/-- Whether the unconstrained minimizer exists and lies in the region. -/
def newtonFits (pos : 0 < n) (M : Model α n) (deltaSquared : α) : Bool :=
  decide (definiteThreshold ≤ M.least pos) && decide (M.squaredLength 0 0 ≤ deltaSquared)

/-- Root finding from the multiplier `start`, and the report on its last step. -/
def boundarySolution (la : LinearAlgebra α) (M : Model α n)
    (delta deltaSquared bound start tolerance : α) (maxIterations : Nat) :
    Except (Fault α) (Solution α n) := do
  let root ← M.findRoot la delta bound tolerance (maxIterations - 1) start
  let interior := root.reached && decide (root.lam < bound + definiteThreshold)
    && decide (dot root.step root.step < deltaSquared)
  let remark := if root.reached then none
    else some (.rootFindingStopped maxIterations root.lam (norm root.step) delta)
  pure (M.solution root.step interior root.lam false root.reached remark)

/-- The solution where the gradient is zero and no direction leads down: stay. -/
def stationarySolution : Solution α n :=
  { step := Vector.ofFn fun _ => 0
    outcome := { m := 0, interior := true, lam := 0, hardCase := false, reached := true }
    remark := none }

/--
A step that makes the model small within radius `delta`. Root finding stops when the multiplier
changes by less than `tolerance`, or after `maxIterations` iterations.
-/
def solve (pos : 0 < n) (la : LinearAlgebra α) (M : Model α n) (delta deltaSquared tolerance : α)
    (maxIterations : Nat) : Except (Fault α) (Solution α n) :=
  if M.newtonFits pos deltaSquared then
    pure (M.solution M.newtonStep true 0 false true none)
  else
    let bound := M.multiplierBound pos
    let (hardCase, multiplicity) := M.hardCase pos
    let squared := M.squaredLength bound multiplicity
    if hardCase && !decide (deltaSquared < squared) then
      let tau := Scalar.sqrt (deltaSquared - squared)
      pure (M.solution (M.eigenvectorStep pos bound tau multiplicity) false bound true true
        (some (.hardCase bound multiplicity tau)))
    else if M.gradient.all Scalar.isZero then
      pure stationarySolution
    else
      let start := if hardCase then bound + 0.01 * Scalar.max (M.greatest pos - bound) 0 else bound
      M.boundarySolution la delta deltaSquared bound start tolerance maxIterations

end Model

/-- The subproblem with gradient `g`, Hessian `H` and radius `delta`, solved. -/
def solveSubproblem (pos : 0 < n) (la : LinearAlgebra α) (g : Vector α n) (H : SquareMatrix α n)
    (delta tolerance : α) (maxIterations : Nat) : Except (Fault α) (Solution α n) := do
  let deltaSquared ← checkedSquare delta
  let model ← Model.ofDerivatives la g H
  model.solve pos la delta deltaSquared tolerance maxIterations

/-- A step whose length is only known when the program runs, with its report. -/
structure Proposal (α : Type) where
  /-- The step. -/
  step : Tensor α
  /-- The report on it. -/
  outcome : Outcome α
  /-- What happened on the way, if it is worth telling. -/
  remark : Option (Remark α)

/-- A solution as a proposal. -/
def Solution.toProposal (solution : Solution α n) : Proposal α :=
  { step := .ofVector solution.step, outcome := solution.outcome, remark := solution.remark }

/--
The subproblem of a gradient and a Hessian of any shape. The step is to be written into an array of
shape `stepShape`. The shapes are checked first, then the iteration limit and the radius, and then,
if `checked` is set, the entries.
-/
def proposeStep (la : LinearAlgebra α) (checked : Bool) (g H : Tensor α) (delta : α)
    (stepShape : Shape) (tolerance : α) (maxIterations : Int) : Except (Fault α) (Proposal α) :=
  let n := g.data.size
  match g.toVector? n with
  | none => throw (.gradientShape g.shape)
  | some gradient =>
    if pos : ¬ 0 < n then throw (.gradientShape g.shape)
    else if stepShape ≠ [n] then throw (.stepShape n stepShape)
    else
      match H.toSquare? n with
      | none => throw (.hessianShape n H.shape)
      | some hessian =>
        if maxIterations < 1 then throw .iterationLimit
        else if ¬ 0 < delta then throw .radius
        else do
          checkModel checked g H
          let solution ← solveSubproblem (Decidable.not_not.1 pos) la gradient hessian delta
            tolerance maxIterations.toNat
          pure solution.toProposal

end TrustRegion
