/-
  Eigenvalues and eigenvectors of a symmetric matrix.

  The matrix is reduced to tridiagonal form, the tridiagonal matrix is diagonalized, and the
  eigenvectors are carried back. Before that a matrix is brought to a size at which this can be
  done: one with an infinite entry, and no NaN, is scaled to zero and back to nothing that is a
  number. A single entry is its own eigenvalue and needs no scaling. Entries that are no numbers
  pass into the eigenvalues, or keep the search for them from coming to rest, which is a fault.
-/
import TrustRegion.LinearAlgebra.Reflection
import TrustRegion.LinearAlgebra.Tridiagonal

namespace TrustRegion

variable {α : Type} [Scalar α] {n : Nat}

namespace Axis

/-- The axis at or after position `k` with the smallest value, the first of several. -/
def least (axes : Vector (Axis α n) n) (k : Fin n) : Fin n :=
  (List.finRange n).foldl
    (fun best i => if k < i ∧ (axes i).value < (axes best).value then i else best) k

/--
The axes in ascending order of their values: to each position in turn the smallest value that is
left is exchanged. One that compares with nothing stays where it is, or where an exchange puts it.
-/
def ascending (axes : Vector (Axis α n) n) : Vector (Axis α n) n :=
  (List.finRange n).foldl
    (fun sorted k => sorted.swap k.val (least sorted k).val k.isLt (least sorted k).isLt) axes

end Axis

/-- The axes of a matrix in tridiagonal form. -/
def Reduction.axes (R : Reduction α n) : List (Axis α n) :=
  (List.finRange n).map fun j =>
    ⟨R.matrix j j, R.link j, Vector.ofFn fun i => if i = j then 1 else 0⟩

theorem Reduction.length_axes (R : Reduction α n) : R.axes.length = n := by
  simp [Reduction.axes]

namespace SquareMatrix

/-- The eigenvalues in ascending order and the matching eigenvectors, without scaling. -/
def diagonalize (M : SquareMatrix α n) : Except (Fault α) (Spectrum α n) :=
  let R := Reduction.tridiagonal M
  match h : Axis.diagonalize R.axes with
  | .error fault => throw fault
  | .ok axes =>
    have length_axes : axes.length = n := (Axis.length_diagonalize h).trans R.length_axes
    let sorted := Axis.ascending ⟨axes.toArray, length_axes⟩
    pure
      { eigenvalues := sorted.map Axis.value
        eigenvectors := transpose (sorted.map fun axis => R.restore axis.direction) }

/-- The largest absolute value of an entry; a NaN in the matrix makes it a NaN. -/
def size (M : SquareMatrix α n) : α :=
  Scalar.maximum (M.toList.flatMap fun row => row.toList.map Scalar.abs)

/--
The factor by which a matrix is brought to a size at which its eigenvalues can be found, if it needs
one.
-/
def eigenScale (M : SquareMatrix α n) : Option α :=
  let least := Scalar.sqrt (Scalar.smallestNormal / Scalar.machineEpsilon : α)
  if 0 < M.size ∧ M.size < least then some (least / M.size)
  else if 1 / least < M.size then some (1 / least / M.size)
  else none

/-- Eigenvalues in ascending order and the matching eigenvectors. -/
def eigh (M : SquareMatrix α n) : Except (Fault α) (Spectrum α n) :=
  if 1 < n then
    match M.eigenScale with
    | some factor => do
      let spectrum ← diagonalize (ofFn fun i j => M i j * factor)
      pure { spectrum with eigenvalues := spectrum.eigenvalues.map fun a => a * (1 / factor) }
    | none => diagonalize M
  else diagonalize M

end SquareMatrix

end TrustRegion
