/-
  Eigenvalues and eigenvectors of a symmetric tridiagonal matrix.

  The axes are taken apart where a link is negligible, and each block is settled by sweeps: an axis
  whose link has become negligible is settled, and its diagonal entry is an eigenvalue. The number
  of sweeps is limited. Nothing compares with a NaN, so three or more axes that a NaN links never
  come to rest, and the search fails.
-/
import TrustRegion.LinearAlgebra.Axis

namespace TrustRegion

variable {α : Type} [Scalar α] {n : Nat}

namespace Axis

/-- Axes, those that are settled apart from the remaining ones. -/
structure Front (α : Type) (n : Nat) where
  /-- The settled axes. -/
  settled : List (Axis α n)
  /-- The axes after them. -/
  remaining : List (Axis α n)

/-- Settled axes put in front of those of a division. -/
def Front.behind (front : Front α n) (axes : List (Axis α n)) : Front α n :=
  { front with settled := axes ++ front.settled }

/--
The axes divided behind the settled ones at the front: those that are linked to nothing, and pairs
that are linked to nothing else.
-/
def settleFront : List (Axis α n) → Front α n
  | [] => ⟨[], []⟩
  | [axis] => ⟨[axis], []⟩
  | [first, second] =>
    ⟨if negligible first second then [first, second] else settlePair first second, []⟩
  | first :: second :: third :: rest =>
    if negligible first second then (settleFront (second :: third :: rest)).behind [first]
    else if negligible second third then
      (settleFront (third :: rest)).behind (settlePair first second)
    else ⟨[], first :: second :: third :: rest⟩

theorem length_settleFront (axes : List (Axis α n)) :
    (settleFront axes).settled.length + (settleFront axes).remaining.length = axes.length := by
  fun_induction settleFront axes with
  | case1 => rfl
  | case2 => rfl
  | case3 => split <;> rfl
  | case4 first second third rest _ ih => simp [Front.behind] at ih ⊢; omega
  | case5 first second third rest _ _ ih =>
    simp [Front.behind, length_settlePair] at ih ⊢
    omega
  | case6 => simp

/-- Axes that have been settled, and the sweeps that are left after that. -/
structure Settled (α : Type) (n : Nat) where
  /-- The number of sweeps that are left. -/
  left : Nat
  /-- The settled axes. -/
  axes : List (Axis α n)

/-- Sweeps over the front block until all axes are settled, `left` of them at most. -/
def settle : (left : Nat) → List (Axis α n) → Except (Fault α) (Settled α n)
  | 0, axes =>
    let front := settleFront axes
    if front.remaining.isEmpty then pure ⟨0, front.settled⟩ else throw .noConvergence
  | left + 1, axes =>
    let front := settleFront axes
    if front.remaining.isEmpty then pure ⟨left + 1, front.settled⟩
    else do
      let (block, others) := leadingBlock front.remaining
      let rest ← settle left (sweep block ++ others)
      pure ⟨rest.left, front.settled ++ rest.axes⟩

theorem length_settle {left : Nat} {axes : List (Axis α n)} {result : Settled α n}
    (h : settle left axes = .ok result) : result.axes.length = axes.length := by
  induction left generalizing axes result with
  | zero =>
    have front := length_settleFront axes
    simp only [settle] at h
    split at h
    · next none_left =>
      obtain rfl := Except.ok.inj h
      simpa [List.isEmpty_iff.1 none_left] using front
    · cases h
  | succ left ih =>
    have front := length_settleFront axes
    simp only [settle] at h
    split at h
    · next none_left =>
      obtain rfl := Except.ok.inj h
      simpa [List.isEmpty_iff.1 none_left] using front
    · have block := length_leadingBlock (settleFront axes).remaining
      obtain ⟨rest, swept, same⟩ := exists_of_bind_eq_ok h
      obtain rfl := Except.ok.inj same
      have kept := ih swept
      simp only [List.length_append, length_sweep] at kept ⊢
      omega

/-- The axes in the opposite order, `link` being the link of the last one. -/
def turnAround (link : α) (turned : List (Axis α n)) : List (Axis α n) → List (Axis α n)
  | [] => turned
  | axis :: rest => turnAround axis.link ({ axis with link } :: turned) rest

omit [Scalar α] in
theorem length_turnAround (link : α) (turned axes : List (Axis α n)) :
    (turnAround link turned axes).length = turned.length + axes.length := by
  induction axes generalizing link turned with
  | nil => rfl
  | cons axis axes ih =>
    rw [turnAround, ih]
    simp
    omega

/-- A block settled from its end with the smaller diagonal entry. -/
def settleFromSmaller (left : Nat) (block : List (Axis α n)) : Except (Fault α) (Settled α n) :=
  match block with
  | [] => pure ⟨left, []⟩
  | first :: rest =>
    if Scalar.abs (rest.getLastD first).value < Scalar.abs first.value then do
      let turned ← settle left (turnAround 0 [] (first :: rest))
      pure { turned with axes := turned.axes.reverse }
    else settle left (first :: rest)

theorem length_settleFromSmaller {left : Nat} {block : List (Axis α n)} {result : Settled α n}
    (h : settleFromSmaller left block = .ok result) : result.axes.length = block.length := by
  unfold settleFromSmaller at h
  split at h
  · obtain rfl := Except.ok.inj h
    rfl
  · next first rest =>
    split at h
    · obtain ⟨turned, settled, same⟩ := exists_of_bind_eq_ok h
      obtain rfl := Except.ok.inj same
      have kept := length_settle settled
      rw [length_turnAround] at kept
      simpa using kept
    · exact length_settle h

/-- A block settled after its entries have been brought from size `size` to size `target`. -/
def settleResized (left : Nat) (size target : α) (block : List (Axis α n)) :
    Except (Fault α) (Settled α n) := do
  let resized ← settleFromSmaller left (block.map (scale (target / size)))
  pure { resized with axes := resized.axes.map (scale (size / target)) }

theorem length_settleResized {left : Nat} {size target : α} {block : List (Axis α n)}
    {result : Settled α n} (h : settleResized left size target block = .ok result) :
    result.axes.length = block.length := by
  obtain ⟨resized, settled, same⟩ := exists_of_bind_eq_ok h
  obtain rfl := Except.ok.inj same
  simpa using length_settleFromSmaller settled

/-- The largest absolute value of an entry of a block. -/
def size (block : List (Axis α n)) : α :=
  Scalar.maximum (block.flatMap fun axis => [Scalar.abs axis.value, Scalar.abs axis.link])

/-- A block settled at a size at which the squares of its entries stay in the range. -/
def settleBlock (left : Nat) (block : List (Axis α n)) : Except (Fault α) (Settled α n) :=
  let greatest := Scalar.sqrt (1 / Scalar.smallestNormal : α) / 3.0
  let least := Scalar.sqrt Scalar.smallestNormal / Scalar.square (Scalar.roundoff : α)
  if greatest < size block then settleResized left (size block) greatest block
  else if size block < least then settleResized left (size block) least block
  else settleFromSmaller left block

theorem length_settleBlock {left : Nat} {block : List (Axis α n)} {result : Settled α n}
    (h : settleBlock left block = .ok result) : result.axes.length = block.length := by
  simp only [settleBlock] at h
  split at h
  · exact length_settleResized h
  · split at h
    · exact length_settleResized h
    · exact length_settleFromSmaller h

/--
Whether the link from the first of two neighbours to the second can be cut at the outset. One that
compares with nothing can be cut if `lenient` is set.
-/
def separates (lenient : Bool) (first second : Axis α n) : Bool :=
  let size := Scalar.abs first.link
  let bound := Scalar.sqrt (Scalar.abs first.value) * Scalar.sqrt (Scalar.abs second.value)
    * Scalar.roundoff
  if lenient then !decide (bound < size) else Scalar.isZero size || decide (size ≤ bound)

/-- An axis put in front of the first block. -/
def joinFirst (axis : Axis α n) : List (List (Axis α n)) → List (List (Axis α n))
  | [] => [[axis]]
  | block :: others => (axis :: block) :: others

omit [Scalar α] in
theorem flatten_joinFirst (axis : Axis α n) (parts : List (List (Axis α n))) :
    (joinFirst axis parts).flatten = axis :: parts.flatten := by
  cases parts <;> rfl

/-- The blocks that are left when the links that can be cut are cut. -/
def blocks (lenient : Bool) : List (Axis α n) → List (List (Axis α n))
  | [] => []
  | [axis] => [[axis.unlinked]]
  | first :: second :: rest =>
    if separates lenient first second then [first.unlinked] :: blocks lenient (second :: rest)
    else joinFirst first (blocks lenient (second :: rest))

theorem length_flatten_blocks (lenient : Bool) (axes : List (Axis α n)) :
    (blocks lenient axes).flatten.length = axes.length := by
  fun_induction blocks lenient axes with
  | case1 => rfl
  | case2 => rfl
  | case3 first second rest _ ih => simpa using ih
  | case4 first second rest _ ih => rw [flatten_joinFirst, List.length_cons, ih]; rfl

/-- Every block settled; a block of one axis is. -/
def settleBlocks : (left : Nat) → List (List (Axis α n)) → Except (Fault α) (List (Axis α n))
  | _, [] => pure []
  | left, [axis] :: rest => do
    let others ← settleBlocks left rest
    pure (axis :: others)
  | left, block :: rest => do
    let first ← settleBlock left block
    let others ← settleBlocks first.left rest
    pure (first.axes ++ others)

theorem length_settleBlocks {left : Nat} {parts : List (List (Axis α n))}
    {result : List (Axis α n)} (h : settleBlocks left parts = .ok result) :
    result.length = parts.flatten.length := by
  fun_induction settleBlocks left parts generalizing result with
  | case1 =>
    obtain rfl := Except.ok.inj h
    rfl
  | case2 left axis rest ih =>
    obtain ⟨others, settled, same⟩ := exists_of_bind_eq_ok h
    obtain rfl := Except.ok.inj same
    simp [ih settled]
  | case3 left block rest _ ih =>
    obtain ⟨first, settled, h⟩ := exists_of_bind_eq_ok h
    obtain ⟨others, others_settled, same⟩ := exists_of_bind_eq_ok h
    obtain rfl := Except.ok.inj same
    simp [ih _ others_settled, length_settleBlock settled]

/--
The eigenvalues and eigenvectors of a tridiagonal matrix, as its axes after the rotations. There are
30 sweeps for each axis. Up to 25 axes a NaN links its neighbours, above that it separates them.
-/
def diagonalize (axes : List (Axis α n)) : Except (Fault α) (List (Axis α n)) :=
  settleBlocks (30 * axes.length) (blocks (decide (25 < axes.length)) axes)

theorem length_diagonalize {axes result : List (Axis α n)} (h : diagonalize axes = .ok result) :
    result.length = axes.length :=
  (length_settleBlocks h).trans (length_flatten_blocks _ axes)

end Axis

end TrustRegion
