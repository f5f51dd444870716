/-
  Reflections, and the reduction of a symmetric matrix to tridiagonal form by them.

  One reflection for each column moves all that stands below the subdiagonal into the subdiagonal
  entry. A column with nothing but zeros there is left alone, so a matrix that is tridiagonal
  already, a diagonal one among them, keeps its entries exactly. A NaN is not a zero.
-/
import TrustRegion.LinearAlgebra.Basic

namespace TrustRegion

variable {α : Type} [Scalar α] {n : Nat}

/--
The Euclidean length of a list of entries. Where the squares are too small to keep their digits,
the entries are first divided by the largest one.
-/
def entriesLength (entries : List α) : α :=
  let squares (xs : List α) : α := xs.foldl (fun acc x => acc + x * x) 0
  let total := squares entries
  if 1e-280 ≤ total then Scalar.sqrt total
  else
    let largest := Scalar.maximum (entries.map Scalar.abs)
    largest * Scalar.sqrt (squares (entries.map fun x => x / largest))

/--
The map `x ↦ x - factor (axis · x) axis` on the coordinates from number `start` on, which leaves
the coordinates before alone.
-/
structure Reflection (α : Type) (n : Nat) where
  /-- The first coordinate that is moved. -/
  start : Nat
  /-- How much of the component along the axis is taken away, in units of the axis. -/
  factor : α
  /-- The direction that is reflected. -/
  axis : Vector α n

namespace Reflection

/-- The reflection of a vector. -/
def apply (h : Reflection α n) (x : Vector α n) : Vector α n :=
  let amount := h.factor * Scalar.sumFrom h.start fun i : Fin n => h.axis i * x i
  Vector.ofFn fun i => if h.start ≤ i.val then x i - amount * h.axis i else x i

/--
The symmetric matrix `h A h`, in the rows and columns from number `start` on. With
`w = factor A v - ½ factor (factor A v · v) v` for the axis `v` it is `A - v wᵀ - w vᵀ`.
-/
def conjugate (h : Reflection α n) (A : SquareMatrix α n) : SquareMatrix α n :=
  let image : Vector α n := Vector.ofFn fun i =>
    h.factor * Scalar.sumFrom h.start fun j : Fin n => A i j * h.axis j
  let share := -0.5 * h.factor * Scalar.sumFrom h.start fun i : Fin n => image i * h.axis i
  let w : Vector α n := Vector.ofFn fun i => image i + share * h.axis i
  SquareMatrix.ofFn fun i j =>
    if h.start ≤ i.val ∧ h.start ≤ j.val then A i j - (h.axis i * w j + w i * h.axis j) else A i j

/--
The reflection that moves column `j` of a matrix, from row `k` on, into row `k`; `beta` is what
stands there afterwards.
-/
def clearing (A : SquareMatrix α n) (k j : Fin n) (beta : α) : Reflection α n :=
  { start := k.val
    factor := (beta - A k j) / beta
    axis := Vector.ofFn fun i => if i < k then 0 else if i = k then 1 else A i j / (A k j - beta) }

end Reflection

/-- A matrix on its way to tridiagonal form, and the reflections that led there. -/
structure Reduction (α : Type) (n : Nat) where
  /--
  The matrix after the reflections. Of the columns already reduced, only the diagonal and the
  entries just below it are kept up to date.
  -/
  matrix : SquareMatrix α n
  /-- The reflections, the latest one first. -/
  reflections : List (Reflection α n)

namespace Reduction

/-- Column `j` reduced to its diagonal entry and the one in row `k` below it. -/
def clear (R : Reduction α n) (k j : Fin n) : Reduction α n :=
  let A := R.matrix
  let below := ((List.finRange n).filter fun i => decide (k < i)).map fun i => A i j
  if below.all Scalar.isZero then R
  else
    let beta := -Scalar.withSign (Scalar.hypotenuse (A k j) (entriesLength below)) (A k j)
    let h := Reflection.clearing A k j beta
    { matrix := (h.conjugate A).setEntry k j beta
      reflections := h :: R.reflections }

/-- Column `j` reduced, if there is a row below its diagonal entry. -/
def step (R : Reduction α n) (j : Fin n) : Reduction α n :=
  if below : j.val + 1 < n then R.clear ⟨j.val + 1, below⟩ j else R

/-- The columns of a symmetric matrix reduced one after the other. -/
def tridiagonal (M : SquareMatrix α n) : Reduction α n := (List.finRange n).foldl step ⟨M, []⟩

/-- A vector in the reduced coordinates, in the coordinates of the matrix that was reduced. -/
def restore (R : Reduction α n) (x : Vector α n) : Vector α n :=
  R.reflections.foldl (fun y h => h.apply y) x

/-- The entry below the diagonal entry of column `j`; zero for the last column. -/
def link (R : Reduction α n) (j : Fin n) : α :=
  if below : j.val + 1 < n then R.matrix ⟨j.val + 1, below⟩ j else 0

end Reduction

end TrustRegion
