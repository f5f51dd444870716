/-
  Cholesky factorization, Gaussian elimination, and the linear algebra that runs.

  A Cholesky pivot that is zero or negative is refused; a NaN compares with nothing, so it passes
  and spreads. Elimination chooses the pivot of largest absolute value, the first of several, and
  refuses a system whose pivot is exactly zero.

  Both divide the column below a pivot by it. An infinite pivot outweighs all that stands below it,
  so it clears its column, a NaN included.
-/
import TrustRegion.LinearAlgebra.Eigenvalues

namespace TrustRegion

variable {α : Type} [Scalar α] {n : Nat}

/-- An entry below a pivot, divided by the pivot; zero if the pivot is infinite. -/
def pivotQuotient (a pivot : α) : α := if Scalar.isZero (1 / pivot) then 0 else a / pivot

namespace SquareMatrix

/-- The entry of row `i` and column `j ≤ i` of the factor, from the rows and entries before it. -/
def choleskyEntry (M L : SquareMatrix α n) (row : Vector α n) (i j : Fin n) :
    Except (Fault α) α :=
  let rest := Fin.foldl n
    (fun acc k => if k < j then acc - row k * (if i = j then row k else L j k) else acc) (M i j)
  if i = j then
    if rest ≤ 0 then throw .notPositiveDefinite else pure (Scalar.sqrt rest)
  else pure (pivotQuotient rest (L j j))

/-- The lower triangular `L` with `L Lᵀ = M`, row by row. -/
def cholesky (M : SquareMatrix α n) : Except (Fault α) (SquareMatrix α n) :=
  (List.finRange n).foldlM (fun L i => do
    let row ← ((List.finRange n).filter fun j => decide (j ≤ i)).foldlM
      (fun (row : Vector α n) j => do
        let entry ← choleskyEntry M L row i j
        pure (row.set j.val entry j.isLt)) (L.get i)
    pure (L.set i.val row i.isLt)) (Vector.ofFn fun _ => Vector.ofFn fun _ => 0)

end SquareMatrix

/-- One linear equation: coefficients and right-hand side. -/
structure Equation (α : Type) (n : Nat) where
  /-- The coefficients of the unknowns. -/
  coefficients : Vector α n
  /-- The right-hand side. -/
  rhs : α

namespace Equation

/-- The row at or below `k` with the largest coefficient in column `k`, the first of several. -/
def pivotRow (rows : Vector (Equation α n) n) (k : Fin n) : Fin n :=
  (List.finRange n).foldl
    (fun best i =>
      if k < i ∧ Scalar.abs ((rows best).coefficients k) < Scalar.abs ((rows i).coefficients k)
      then i else best) k

/-- The unknown `k` eliminated from the equations below row `k`. -/
def eliminate (rows : Vector (Equation α n) n) (k : Fin n) :
    Except (Fault α) (Vector (Equation α n) n) :=
  let rows := rows.swap k.val (pivotRow rows k).val k.isLt (pivotRow rows k).isLt
  let pivot := rows k
  if Scalar.isZero (pivot.coefficients k) then throw .singularSystem
  else pure (Vector.ofFn fun i =>
    if k < i then
      let factor := pivotQuotient ((rows i).coefficients k) (pivot.coefficients k)
      { coefficients := Vector.ofFn fun j =>
          if k < j then (rows i).coefficients j - factor * pivot.coefficients j
          else if j = k then 0 else (rows i).coefficients j
        rhs := (rows i).rhs - factor * pivot.rhs }
    else rows i)

/-- The unknowns of a triangular system, from the last one backwards. -/
def backSubstitute (rows : Vector (Equation α n) n) : Vector α n :=
  (List.finRange n).foldr (fun i (x : Vector α n) =>
    let rest := Fin.foldl n
      (fun acc j => if i < j then acc - (rows i).coefficients j * x j else acc) (rows i).rhs
    x.set i.val (rest / (rows i).coefficients i) i.isLt) (Vector.ofFn fun _ => 0)

end Equation

namespace SquareMatrix

/-- The solution of `M x = b` by elimination with row exchanges. -/
def solve (M : SquareMatrix α n) (b : Vector α n) : Except (Fault α) (Vector α n) := do
  let rows : Vector (Equation α n) n := Vector.ofFn fun i => ⟨M i, b i⟩
  let reduced ← (List.finRange n).foldlM Equation.eliminate rows
  pure (Equation.backSubstitute reduced)

end SquareMatrix

namespace LinearAlgebra

/-- Reflections and rotations, Cholesky factorization and Gaussian elimination. -/
def direct : LinearAlgebra α where
  eigh := SquareMatrix.eigh
  cholesky := SquareMatrix.cholesky
  solve := SquareMatrix.solve

end LinearAlgebra

end TrustRegion
