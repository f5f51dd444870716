/-
  Derivatives by central differences.

  A gradient takes two values per coordinate, a Hessian one value at the point, two per coordinate
  and four per pair of coordinates. Only entries on and above the diagonal are differenced and the
  others copied across it, so the matrix is symmetric exactly. The functions run in any monad with
  faults, so that an objective may keep account of its calls; the number of values asked for is
  returned with the derivative.

  Points have any shape; the displacement along an entry is a row of the identity matrix, and adding
  it stretches both to each other.
-/
import TrustRegion.LinearAlgebra.Basic
import TrustRegion.Tensor.Broadcast

namespace TrustRegion

namespace Tensor

variable {α : Type} {n : Nat}

/-- A function applied to matching entries of two arrays; shapes that do not fit are refused. -/
def combine {φ : Type} (f : α → α → α) (t u : Tensor α) : Except (Fault φ) (Tensor α) :=
  match zipWith? f t u with
  | some result => pure result
  | none => throw .shapeMismatch

theorem combine_ofVector {φ : Type} (f : α → α → α) (v w : Vector α n) :
    (ofVector v).combine f (ofVector w) =
      (.ok (ofVector (v.zipWith f w)) : Except (Fault φ) (Tensor α)) := by
  rw [combine, zipWith?_ofVector]
  rfl

/-- The number in an array without axes, as an entry of a matrix. -/
def entry {φ : Type} (t : Tensor α) : Except (Fault φ) α :=
  match t.toScalar? with
  | some a => pure a
  | none => throw .entryNotScalar

end Tensor

/-- A derivative and the number of values of the objective that it took. -/
structure Differenced (α : Type) where
  /-- The entries of the derivative. -/
  derivative : Tensor α
  /-- How often the objective was called. -/
  evaluations : Nat

namespace Difference

variable {α : Type} [Scalar α] {n : Nat} {m : Type → Type} [Monad m] [MonadExceptOf (Fault α) m]

/-- The displacement by `eps` along entry `i`: a row of the identity times `eps`. -/
def displacement (eps : α) (i : Fin n) : Vector α n :=
  Vector.ofFn fun j => (if i = j then 1 else 0) * eps

/-- The value of `f` at `x + e`, the point and the displacement being stretched to each other. -/
def ahead (f : Tensor α → m (Tensor α)) (x : Tensor α) (e : Vector α n) : m (Tensor α) := do
  f (← MonadExcept.ofExcept (x.combine (· + ·) (.ofVector e)))

/-- The value of `f` at `x - e`. -/
def behind (f : Tensor α → m (Tensor α)) (x : Tensor α) (e : Vector α n) : m (Tensor α) := do
  f (← MonadExcept.ofExcept (x.combine (· - ·) (.ofVector e)))

/-- `(f(x + e) - f(x - e)) / (2 eps)`, entry by entry. -/
def first (f : Tensor α → m (Tensor α)) (x : Tensor α) (e : Vector α n) (eps : α) :
    m (Tensor α) := do
  let high ← ahead f x e
  let low ← behind f x e
  let change ← MonadExcept.ofExcept (high.combine (· - ·) low)
  pure (change.map (· / (2.0 * eps)))

/--
The gradient at a point of `n` entries by central differences, or the Jacobian of an objective with
several values.
-/
def gradientOfSize (n : Nat) (f : Tensor α → m (Tensor α)) (x : Tensor α) (eps : α) :
    m (Differenced α) := do
  if eps ≤ 0 then throw .differenceStep
  let rows ← (List.finRange n).mapM fun i => first f x (displacement eps i) eps
  match Tensor.stack? rows with
  | none => throw .shapeMismatch
  | some derivative => pure ⟨derivative, 2 * n⟩

/-- The gradient by central differences, one component for every entry of the point. -/
def gradient (f : Tensor α → m (Tensor α)) (x : Tensor α) (eps : α) : m (Differenced α) :=
  gradientOfSize x.data.size f x eps

/-- `(f(x + e) - 2 f(x) + f(x - e)) / eps²`, where `fx` is the value at `x`. -/
def second (f : Tensor α → m (Tensor α)) (x : Tensor α) (e : Vector α n) (fx : Tensor α)
    (eps : α) : m α := do
  let high ← ahead f x e
  let bent ← MonadExcept.ofExcept (high.combine (· - ·) (fx.map (2.0 * ·)))
  let low ← behind f x e
  let change ← MonadExcept.ofExcept (bent.combine (· + ·) low)
  let squared ← MonadExcept.ofExcept (checkedSquare eps)
  MonadExcept.ofExcept (change.map (· / squared)).entry

/-- `(f(x + d + e) - f(x + d - e) - f(x - d + e) + f(x - d - e)) / (4 eps²)`. -/
def mixed (f : Tensor α → m (Tensor α)) (x : Tensor α) (d e : Vector α n) (eps : α) : m α := do
  let up ← MonadExcept.ofExcept (x.combine (· + ·) (.ofVector d))
  let here ← ahead f up e
  let right ← behind f up e
  let change ← MonadExcept.ofExcept (here.combine (· - ·) right)
  let down ← MonadExcept.ofExcept (x.combine (· - ·) (.ofVector d))
  let left ← ahead f down e
  let change ← MonadExcept.ofExcept (change.combine (· - ·) left)
  let there ← behind f down e
  let change ← MonadExcept.ofExcept (change.combine (· + ·) there)
  let squared ← MonadExcept.ofExcept (checkedSquare eps)
  MonadExcept.ofExcept (change.map (· / (4.0 * squared))).entry

/-- Row `i` of the Hessian from the diagonal on, copied into column `i`. -/
def hessianRow (f : Tensor α → m (Tensor α)) (x fx : Tensor α) (eps : α)
    (acc : SquareMatrix α n × Nat) (i : Fin n) : m (SquareMatrix α n × Nat) := do
  let a ← second f x (displacement eps i) fx eps
  let acc := (SquareMatrix.setEntry acc.1 i i a, acc.2 + 2)
  ((List.finRange n).filter fun j => decide (i < j)).foldlM (fun acc j => do
    let a ← mixed f x (displacement eps i) (displacement eps j) eps
    pure (SquareMatrix.setEntry (SquareMatrix.setEntry acc.1 i j a) j i a, acc.2 + 4)) acc

/-- The Hessian at a point of `n` entries by second central differences. -/
def hessianOfSize (n : Nat) (f : Tensor α → m (Tensor α)) (x : Tensor α) (eps : α) :
    m (Differenced α) := do
  if eps ≤ 0 then throw .differenceStep
  let zero : SquareMatrix α n := Vector.ofFn fun _ => Vector.ofFn fun _ => 0
  let fx ← f x
  let (M, evaluations) ← (List.finRange n).foldlM (hessianRow f x fx eps) (zero, 1)
  pure ⟨.ofSquare M, evaluations⟩

/-- The Hessian by second central differences, one row for every entry of the point. -/
def hessian (f : Tensor α → m (Tensor α)) (x : Tensor α) (eps : α) : m (Differenced α) :=
  hessianOfSize x.data.size f x eps

theorem gradient_ofVector (f : Tensor α → m (Tensor α)) (x : Vector α n) (eps : α) :
    gradient f (.ofVector x) eps = gradientOfSize n f (.ofVector x) eps := by
  rw [gradient, Tensor.ofVector, Vector.size_toArray]

theorem hessian_ofVector (f : Tensor α → m (Tensor α)) (x : Vector α n) (eps : α) :
    hessian f (.ofVector x) eps = hessianOfSize n f (.ofVector x) eps := by
  rw [hessian, Tensor.ofVector, Vector.size_toArray]

end Difference

end TrustRegion
