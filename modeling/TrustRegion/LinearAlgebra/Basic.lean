/-
  Vectors and square matrices of numbers, and the three factorizations the solver relies on.

  Sums are taken from the left, starting at zero, over all terms: no term is left out because a
  factor is zero, so an infinite or undefined entry shows in the result.

  `LinearAlgebra` names the three operations that the solver takes from elsewhere, a symmetric
  eigendecomposition, a Cholesky factorization and the solution of a linear system. The solver is
  written against this interface; `LinearAlgebra.Direct` has a realization that runs.
-/
import TrustRegion.Scalar
import TrustRegion.Fault

namespace TrustRegion

variable {α : Type} [Scalar α] {n : Nat}

/-- The second power of a number; a finite one whose second power is not finite is refused. -/
def checkedSquare (a : α) : Except (Fault α) α :=
  let square := Scalar.secondPower a
  if Scalar.isFinite a && !Scalar.isFinite square then throw .squareOverflow else pure square

/-- A quotient; a divisor that is exactly zero is refused. -/
def checkedQuotient (a b : α) : Except (Fault α) α :=
  if Scalar.isZero b then throw .zeroDivision else pure (a / b)

namespace Scalar

/-- The sum of all `f i`, from the left. -/
def sum (f : Fin n → α) : α := Fin.foldl n (fun acc i => acc + f i) 0

/-- The sum of the `f i` with `start ≤ i`, from the left. -/
def sumFrom (start : Nat) (f : Fin n → α) : α :=
  Fin.foldl n (fun acc i => if start ≤ i.val then acc + f i else acc) 0

end Scalar

/-- A vector is read as the function of its indices, and so a matrix as one of two indices. -/
instance instCoeFunVector {τ : Type} : CoeFun (Vector τ n) fun _ => Fin n → τ := ⟨Vector.get⟩

theorem get_vectorOfFn {τ : Type} (f : Fin n → τ) (i : Fin n) : (Vector.ofFn f).get i = f i :=
  Vector.getElem_ofFn i.isLt

/-- The inner product of two vectors. -/
def dot (u v : Vector α n) : α := Scalar.sum fun i : Fin n => u i * v i

/-- The first entry of a vector. -/
def first (pos : 0 < n) (v : Vector α n) : α := v[0]

/-- The last entry of a vector. -/
def last (pos : 0 < n) (v : Vector α n) : α :=
  have inside : n - 1 < n := Nat.sub_lt pos Nat.zero_lt_one
  v[n - 1]

/-- The Euclidean length of a vector. -/
def norm (v : Vector α n) : α := Scalar.sqrt (dot v v)

namespace SquareMatrix

/-- The matrix with the given entries. -/
def ofFn (f : Fin n → Fin n → α) : SquareMatrix α n :=
  Vector.ofFn fun i => Vector.ofFn fun j => f i j

theorem get_ofFn {τ : Type} (f : Fin n → Fin n → τ) (i j : Fin n) : (ofFn f).get i j = f i j := by
  rw [ofFn, get_vectorOfFn, get_vectorOfFn]

/-- The matrix with one entry replaced. -/
def setEntry (M : SquareMatrix α n) (i j : Fin n) (a : α) : SquareMatrix α n :=
  M.set i.val ((M.get i).set j.val a j.isLt) i.isLt

/-- The product of a matrix and a vector. -/
def mulVec (M : SquareMatrix α n) (v : Vector α n) : Vector α n :=
  Vector.ofFn fun i => dot (M.get i) v

theorem get_mulVec (M : SquareMatrix α n) (v : Vector α n) (i : Fin n) :
    (M.mulVec v).get i = dot (M.get i) v :=
  get_vectorOfFn _ i

/-- Rows and columns exchanged. -/
def transpose (M : SquareMatrix α n) : SquareMatrix α n := ofFn fun i j => M j i

theorem get_transpose {τ : Type} (M : SquareMatrix τ n) (i j : Fin n) :
    M.transpose.get i j = M j i :=
  get_ofFn _ i j

/-- The identity matrix. -/
def identity : SquareMatrix α n := ofFn fun i j => if i = j then 1 else 0

theorem get_identity (i j : Fin n) :
    (identity : SquareMatrix α n).get i j = if i = j then 1 else 0 :=
  get_ofFn _ i j

/-- The mean of a matrix and its transpose. -/
def symmetricPart (M : SquareMatrix α n) : SquareMatrix α n :=
  ofFn fun i j => 0.5 * (M i j + M j i)

theorem get_symmetricPart (M : SquareMatrix α n) (i j : Fin n) :
    M.symmetricPart.get i j = 0.5 * (M i j + M j i) :=
  get_ofFn _ i j

/-- Whether every entry off the diagonal is zero. -/
def isDiagonal (M : SquareMatrix α n) : Bool :=
  (List.finRange n).all fun i => (List.finRange n).all fun j => i == j || Scalar.isZero (M i j)

/-- The matrix with a multiple of the identity added. -/
def shift (M : SquareMatrix α n) (c : α) : SquareMatrix α n :=
  ofFn fun i j => M i j + c * (if i = j then 1 else 0)

theorem get_shift (M : SquareMatrix α n) (c : α) (i j : Fin n) :
    (M.shift c).get i j = M i j + c * (if i = j then 1 else 0) :=
  get_ofFn _ i j

end SquareMatrix

/-- Eigenvalues and eigenvectors of a symmetric matrix. -/
structure Spectrum (α : Type) (n : Nat) where
  /-- The eigenvalues, in ascending order. -/
  eigenvalues : Vector α n
  /-- The matrix whose columns are the eigenvectors, in the order of the eigenvalues. -/
  eigenvectors : SquareMatrix α n

/--
The part of a vector in the span of the eigenvectors whose eigenvalues lie within `width` of the
smallest one. It depends on the span only, not on the choice of the eigenvectors.
-/
def Spectrum.leastPart (pos : 0 < n) (S : Spectrum α n) (width : α) (v : Vector α n) :
    Vector α n :=
  let spans (k : Fin n) : Bool :=
    decide (Scalar.abs (S.eigenvalues k - first pos S.eigenvalues) ≤ width)
  let coefficients : Vector α n := Vector.ofFn fun k =>
    if spans k then Scalar.sum fun i : Fin n => S.eigenvectors i k * v i else 0
  Vector.ofFn fun i => Scalar.sum fun k : Fin n =>
    if spans k then S.eigenvectors i k * coefficients k else 0

/-- The factorizations that the subproblem solver takes from elsewhere. -/
structure LinearAlgebra (α : Type) where
  /-- Eigenvalues, ascending, and orthonormal eigenvectors of a symmetric matrix. -/
  eigh : {n : Nat} → SquareMatrix α n → Except (Fault α) (Spectrum α n)
  /-- The lower triangular `L` with `L Lᵀ = M` of a positive definite matrix `M`. -/
  cholesky : {n : Nat} → SquareMatrix α n → Except (Fault α) (SquareMatrix α n)
  /-- The vector `x` with `M x = b`. -/
  solve : {n : Nat} → SquareMatrix α n → Vector α n → Except (Fault α) (Vector α n)

end TrustRegion
