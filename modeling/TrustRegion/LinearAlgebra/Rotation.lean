/-
  Plane rotations, and the symmetric matrix of two rows.

  Two rotations are used: the one that turns a pair of entries into a single one, and the one that
  turns the first unit vector to an eigenvector of a symmetric matrix of two rows.
-/
import TrustRegion.LinearAlgebra.Basic

namespace TrustRegion

variable {α : Type} [Scalar α] {n : Nat}

/-- A rotation in a plane, by its cosine and sine. -/
structure Rotation (α : Type) where
  /-- The cosine of the angle. -/
  cosine : α
  /-- The sine of the angle. -/
  sine : α

namespace Rotation

/--
The rotation that turns the pair `(f, g)` to `(r, 0)`, and `r`, which has the sign of `f`. A pair
whose squares could leave the range is divided by its larger entry first.
-/
def toward (f g : α) : Rotation α × α :=
  let least := Scalar.sqrt (Scalar.smallestNormal : α)
  let greatest := Scalar.sqrt (0.5 / Scalar.smallestNormal : α)
  let ordinary (a : α) : Bool := decide (least < a) && decide (a < greatest)
  let turned (f g : α) : Rotation α × α :=
    let length := Scalar.sqrt (f * f + g * g)
    let r := Scalar.withSign length f
    (⟨Scalar.abs f / length, g / r⟩, r)
  if Scalar.isZero g then (⟨1, 0⟩, f)
  else if Scalar.isZero f then (⟨0, Scalar.withSign 1 g⟩, Scalar.abs g)
  else if ordinary (Scalar.abs f) && ordinary (Scalar.abs g) then turned f g
  else
    let unit := Scalar.maxStep (Scalar.abs f) (Scalar.abs g)
    let (rotation, r) := turned (f / unit) (g / unit)
    (rotation, r * unit)

/-- The direction `cosine u + sine v`. -/
def combine (rotation : Rotation α) (u v : Vector α n) : Vector α n :=
  Vector.ofFn fun i => rotation.cosine * u i + rotation.sine * v i

/-- The direction `cosine v - sine u`, at right angles to the combination of `u` and `v`. -/
def combineAcross (rotation : Rotation α) (u v : Vector α n) : Vector α n :=
  Vector.ofFn fun i => rotation.cosine * v i - rotation.sine * u i

end Rotation

/-- The symmetric matrix with rows `(a, b)` and `(b, c)`. -/
structure SymmetricPair (α : Type) where
  /-- The first diagonal entry. -/
  a : α
  /-- The entry off the diagonal. -/
  b : α
  /-- The second diagonal entry. -/
  c : α

namespace SymmetricPair

/--
The distance `√((a - c)² + (2 b)²)` of the eigenvalues, through the larger of its two parts. Parts
that compare with nothing are taken for equal.
-/
def gap (M : SymmetricPair α) : α :=
  let difference := Scalar.abs (M.a - M.c)
  let double := Scalar.abs (M.b + M.b)
  if double < difference then difference * Scalar.sqrt (1 + Scalar.square (double / difference))
  else if difference < double then double * Scalar.sqrt (1 + Scalar.square (difference / double))
  else double * Scalar.sqrt 2.0

/--
The eigenvalues, the one of larger absolute value first. The other one is the determinant divided
by it.
-/
def eigenvalues (M : SymmetricPair α) : α × α :=
  let (larger, smaller) := if Scalar.abs M.c < Scalar.abs M.a then (M.a, M.c) else (M.c, M.a)
  let withOther (first : α) : α × α := (first, larger / first * smaller - M.b / first * M.b)
  if M.a + M.c < 0 then withOther (0.5 * (M.a + M.c - M.gap))
  else if 0 < M.a + M.c then withOther (0.5 * (M.a + M.c + M.gap))
  else (0.5 * M.gap, -0.5 * M.gap)

/-- The rotation of the first unit vector to the eigenvector of the first eigenvalue. -/
def rotation (M : SymmetricPair α) : Rotation α :=
  let falling := decide (0 ≤ M.a - M.c)
  let reach := if falling then M.a - M.c + M.gap else M.a - M.c - M.gap
  let double := M.b + M.b
  let other : Rotation α :=
    if Scalar.abs double < Scalar.abs reach then
      let cotangent := -double / reach
      let sine := 1 / Scalar.sqrt (1 + cotangent * cotangent)
      ⟨cotangent * sine, sine⟩
    else if Scalar.isZero double then ⟨1, 0⟩
    else
      let tangent := -reach / double
      let cosine := 1 / Scalar.sqrt (1 + tangent * tangent)
      ⟨cosine, tangent * cosine⟩
  if falling == !decide (M.a + M.c < 0) then ⟨-other.sine, other.cosine⟩ else other

end SymmetricPair

end TrustRegion
