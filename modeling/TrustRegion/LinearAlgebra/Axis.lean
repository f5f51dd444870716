/-
  The axes of a symmetric tridiagonal matrix.

  A tridiagonal matrix is kept as the list of its axes. Each axis has a diagonal entry, the entry
  that links it to the next axis, and its direction. A sweep of plane rotations, begun with a shift
  close to an eigenvalue, makes the link at the front small. Two axes that are linked to each other
  only are settled by one rotation. None of this changes the number of axes.
-/
import TrustRegion.LinearAlgebra.Rotation

namespace TrustRegion

variable {α : Type} [Scalar α] {n : Nat}

/-- One axis of a tridiagonal matrix. -/
structure Axis (α : Type) (n : Nat) where
  /-- The diagonal entry. -/
  value : α
  /-- The entry between this axis and the next one. -/
  link : α
  /-- The direction of the axis. -/
  direction : Vector α n

namespace Axis

/-- The axis of a matrix multiplied by a number. -/
def scale (factor : α) (axis : Axis α n) : Axis α n :=
  { axis with value := axis.value * factor, link := axis.link * factor }

/-- The axis as the last one of its block. -/
def unlinked (axis : Axis α n) : Axis α n := { axis with link := 0 }

/-- Two axes that are linked to each other turned to the eigenvectors of their matrix. -/
def settlePair (first second : Axis α n) : List (Axis α n) :=
  let M : SymmetricPair α := ⟨first.value, first.link, second.value⟩
  [⟨M.eigenvalues.1, 0, M.rotation.combine first.direction second.direction⟩,
    ⟨M.eigenvalues.2, 0, M.rotation.combineAcross first.direction second.direction⟩]

theorem length_settlePair (first second : Axis α n) : (settlePair first second).length = 2 := rfl

/-- Whether the link from the first of two neighbours to the second is negligible. -/
def negligible (first second : Axis α n) : Bool :=
  let precision : α := Scalar.square Scalar.roundoff
  decide (Scalar.square (Scalar.abs first.link)
    ≤ precision * Scalar.abs first.value * Scalar.abs second.value + Scalar.smallestNormal)

/-- The axes up to the first negligible link, which is cut, and the axes after it. -/
def leadingBlock : List (Axis α n) → List (Axis α n) × List (Axis α n)
  | [] => ([], [])
  | [axis] => ([axis], [])
  | first :: second :: rest =>
    if negligible first second then ([first.unlinked], second :: rest)
    else
      let (block, others) := leadingBlock (second :: rest)
      (first :: block, others)

theorem length_leadingBlock (axes : List (Axis α n)) :
    (leadingBlock axes).1.length + (leadingBlock axes).2.length = axes.length := by
  fun_induction leadingBlock axes with
  | case1 => rfl
  | case2 => rfl
  | case3 => simp; omega
  | case4 first second rest _ block others h ih => simp [h] at ih; simp; omega

/-- A sweep on its way from the last axis of a block to the first. -/
structure Chase (α : Type) (n : Nat) where
  /-- The entry that the next rotation turns the bulge of the matrix into. -/
  pivot : α
  /-- The rotation that was done last. -/
  rotation : Rotation α
  /-- What the last rotation moved from one diagonal entry to the next. -/
  moved : α
  /-- The axis that the next rotation turns with the one before it. -/
  current : Axis α n
  /-- The axes after it. -/
  done : List (Axis α n)

/-- The rotation of the current axis with the axis before it. -/
def Chase.step (chase : Chase α n) (before : Axis α n) : Chase α n :=
  let bulge := chase.rotation.sine * before.link
  let beside := chase.rotation.cosine * before.link
  let (rotation, link) := Rotation.toward chase.pivot bulge
  let value := chase.current.value - chase.moved
  let turned :=
    (before.value - value) * rotation.sine + 2.0 * rotation.cosine * beside
  let moved := rotation.sine * turned
  { pivot := rotation.cosine * turned - beside
    rotation := rotation
    moved := moved
    current :=
      { before with
        direction := rotation.combineAcross chase.current.direction before.direction }
    done :=
      { value := value + moved
        link := if chase.done.isEmpty then chase.current.link else link
        direction := rotation.combine chase.current.direction before.direction } :: chase.done }

/-- The axes after the last rotation of a sweep. -/
def Chase.axes (chase : Chase α n) : List (Axis α n) :=
  { chase.current with value := chase.current.value - chase.moved, link := chase.pivot }
    :: chase.done

theorem length_axes_foldl_step (chase : Chase α n) (axes : List (Axis α n)) :
    (axes.foldl Chase.step chase).axes.length = axes.length + chase.axes.length := by
  induction axes generalizing chase with
  | nil => simp
  | cons axis axes ih =>
    rw [List.foldl_cons, ih]
    simp [Chase.axes, Chase.step]
    omega

/--
The entry that a sweep begins with: the last diagonal entry less the shift, which is the eigenvalue
of the first two axes that is closer to the first diagonal entry.
-/
def firstPivot (first second last : Axis α n) : α :=
  let ratio := (second.value - first.value) / (2.0 * first.link)
  let root := Scalar.withSign (Scalar.hypotenuse ratio 1) ratio
  last.value - first.value + first.link / (ratio + root)

/-- One sweep over a block, from its last axis to its first. -/
def sweep (block : List (Axis α n)) : List (Axis α n) :=
  match block, block.reverse with
  | first :: second :: _, last :: before =>
    let chase : Chase α n := ⟨firstPivot first second last, ⟨1, 1⟩, 0, last, []⟩
    (before.foldl Chase.step chase).axes
  | _, _ => block

theorem length_sweep (block : List (Axis α n)) : (sweep block).length = block.length := by
  unfold sweep
  split
  · next first second rest last before h =>
    have reversed := congrArg List.length h
    rw [List.length_reverse] at reversed
    rw [length_axes_foldl_step, reversed]
    rfl
  · rfl

end Axis

end TrustRegion
