/-
  Checks of the arrays that describe a subproblem.

  An unsymmetric Hessian or a non-finite entry is usually a mistake in the caller's derivatives,
  but the solver has an answer for it too. So these checks only run where a setting asks for them;
  the setting is a text, for instance the value of an environment variable.
-/
import TrustRegion.LinearAlgebra.Basic

namespace TrustRegion

namespace SquareMatrix

variable {α : Type} [Scalar α] {n : Nat}

/-- The distances between every entry and the one across the diagonal. -/
def deviations (M : SquareMatrix α n) : List α :=
  (List.finRange n).flatMap fun i => (List.finRange n).map fun j => Scalar.abs (M i j - M j i)

end SquareMatrix

namespace Tensor

variable {α : Type} [Scalar α]

/-- The extent of both axes of a square matrix. -/
def squareSize? (t : Tensor α) : Option Nat :=
  match t.shape with
  | [r, c] => if r = c then some r else none
  | _ => none

/-- The square matrix that an array holds, together with its size. -/
def square? (t : Tensor α) : Option ((n : Nat) × SquareMatrix α n) :=
  t.squareSize?.bind fun n => (t.toSquare? n).map fun M => ⟨n, M⟩

/--
Whether an array is a square matrix whose entries differ from those across the diagonal by at most
the tolerance. A difference that is infinite or a NaN counts as unsymmetric.
-/
def isSymmetric (t : Tensor α) (tolerance : α) : Bool :=
  match t.square? with
  | none => false
  | some ⟨_, M⟩ =>
    let deviation := Scalar.maximum M.deviations
    Scalar.isFinite deviation && decide (deviation ≤ tolerance)

/-- Refuses an array that is not a symmetric matrix, and tells by how much. -/
def checkSymmetric (t : Tensor α) (tolerance : α) : Except (Fault α) Unit :=
  if t.isSymmetric tolerance then pure ()
  else
    match t.square? with
    | none => throw (.notSquare t.shape)
    | some ⟨0, _⟩ => throw .emptyMaximum
    | some ⟨_, M⟩ => throw (.asymmetric tolerance (Scalar.maximum M.deviations))

/-- Refuses an array that holds an infinity or a NaN. -/
def checkFinite (t : Tensor α) (name : String) : Except (Fault α) Unit :=
  if t.data.all Scalar.isFinite then pure () else throw (.nonFinite name)

end Tensor

/-- Whether a setting asks for the checks: `1`, `true`, `yes` or `on`, in any case. -/
def checksRequested (setting : Option String) : Bool :=
  match setting with
  | none => false
  | some text => ["1", "true", "yes", "on"].contains (text.map Char.toLower)

/-- How far an entry of a Hessian may be from the one across the diagonal. -/
def symmetryTolerance {α : Type} [Scalar α] : α := 1e-8

/-- Refuses a gradient or Hessian with non-finite entries and an unsymmetric Hessian. -/
def checkModel {α : Type} [Scalar α] (checked : Bool) (g H : Tensor α) : Except (Fault α) Unit :=
  if checked then do
    g.checkFinite "gradient"
    H.checkFinite "Hessian"
    H.checkSymmetric symmetryTolerance
  else pure ()

end TrustRegion
