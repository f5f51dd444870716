/-
  The quadratic model of a subproblem and what a solution of it consists of.

  A subproblem asks for a step `s` of length at most `δ` that makes the model
  `m(s) = g·s + ½ s·(H s)` small. Only the symmetric part of `H` enters. In the coordinates of its
  eigenvectors the step that belongs to a multiplier `λ` solves `(H + λ I) s = -g` component by
  component, which gives its length without solving anything.
-/
import TrustRegion.LinearAlgebra.Basic

namespace TrustRegion

/-- An eigenvalue counts as positive from this value on. -/
def definiteThreshold {α : Type} [Scalar α] : α := 1e-8

/-- Eigenvalues this close are tied, and projections this small count as zero. -/
def tieThreshold {α : Type} [Scalar α] : α := 1e-10

/-- What is reported about the solution of a subproblem. -/
structure Outcome (α : Type) where
  /-- The value of the quadratic model at the step. -/
  m : α
  /-- Whether the step lies strictly inside the region. -/
  interior : Bool
  /-- The multiplier `λ` that was added to the diagonal of the Hessian. -/
  lam : α
  /-- Whether the step was completed along an eigenvector of the smallest eigenvalue. -/
  hardCase : Bool
  /-- Whether root finding came to rest; true where none was needed. -/
  reached : Bool

/-- Something about a solution that is worth a line in a log. -/
inductive Remark (α : Type)
  /-- The step was completed along an eigenvector. -/
  | hardCase (lam : α) (multiplicity : Nat) (tau : α)
  /-- Root finding used up its iterations. -/
  | rootFindingStopped (iterations : Nat) (lam length delta : α)

/-- A step of known length `n`, with its report. -/
structure Solution (α : Type) (n : Nat) where
  /-- The step. -/
  step : Vector α n
  /-- The report on it. -/
  outcome : Outcome α
  /-- What happened on the way, if it is worth telling. -/
  remark : Option (Remark α)

/-- The quadratic model `g·s + ½ s·(H s)` with its Hessian taken apart into eigenvectors. -/
structure Model (α : Type) (n : Nat) where
  /-- The gradient `g`. -/
  gradient : Vector α n
  /-- The symmetric Hessian `H`. -/
  hessian : SquareMatrix α n
  /-- The eigenvalues and eigenvectors of `H`. -/
  spectrum : Spectrum α n
  /-- The inner products of the gradient with the eigenvectors. -/
  projections : Vector α n

namespace Model

variable {α : Type} [Scalar α] {n : Nat}

/-- The model with gradient `g`, a symmetric Hessian and its spectrum. -/
def ofSpectrum (g : Vector α n) (hessian : SquareMatrix α n) (spectrum : Spectrum α n) :
    Model α n :=
  { gradient := g
    hessian := hessian
    spectrum := spectrum
    projections := spectrum.eigenvectors.transpose.mulVec g }

/-- The model with gradient `g` and the symmetric part of `H` as its Hessian. -/
def ofDerivatives (la : LinearAlgebra α) (g : Vector α n) (H : SquareMatrix α n) :
    Except (Fault α) (Model α n) :=
  (la.eigh H.symmetricPart).map (ofSpectrum g H.symmetricPart)

/-- The value `g·s + ½ s·(H s)` of the model at a step. -/
def value (M : Model α n) (s : Vector α n) : α :=
  dot M.gradient s + dot ((0.5 : α) * s) (M.hessian.mulVec s)

/--
The squared length of the step with multiplier `lam`, counting the components from number `start`
on: the sum of `qᵢ² / (λ + λᵢ)²` over the projections `qᵢ` and eigenvalues `λᵢ`.
-/
def squaredLength (M : Model α n) (lam : α) (start : Nat) : α :=
  Scalar.sumFrom start fun i : Fin n =>
    Scalar.square (M.projections i) / Scalar.square (lam + M.spectrum.eigenvalues i)

/-- The unconstrained minimizer `-H⁻¹ g`, from the eigenvectors. -/
def newtonStep (M : Model α n) : Vector α n :=
  Vector.ofFn fun i => Scalar.sum fun j : Fin n =>
    -(M.spectrum.eigenvectors i j / M.spectrum.eigenvalues j) * M.projections j

/--
The step of length `tau` along the first eigenvector, completed by the components from number
`start` on of the step with multiplier `lam`.
-/
def eigenvectorStep (pos : 0 < n) (M : Model α n) (lam tau : α) (start : Nat) : Vector α n :=
  Vector.ofFn fun i =>
    tau * first pos (M.spectrum.eigenvectors.get i) - Scalar.sumFrom start fun j : Fin n =>
      M.spectrum.eigenvectors i j * (M.projections j / (M.spectrum.eigenvalues j + lam))

/-- The smallest eigenvalue. -/
def least (pos : 0 < n) (M : Model α n) : α := first pos M.spectrum.eigenvalues

/-- The largest eigenvalue. -/
def greatest (pos : 0 < n) (M : Model α n) : α := last pos M.spectrum.eigenvalues

end Model

end TrustRegion
