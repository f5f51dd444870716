/-
  Stretching an array to a larger shape.

  Two shapes are compared from their last axis backwards. An axis of extent 1 repeats its single
  slice as often as the other shape asks for, a missing leading axis counts as extent 1, and any
  other difference of extents is a mismatch.
-/
import TrustRegion.Tensor.Basic

namespace TrustRegion

namespace Tensor

variable {α β γ : Type}

/-- Row-major entries of shape `source` repeated to shape `target`; both have the same rank. -/
def stretch : (source target : Shape) → List α → Option (List α)
  | [], [], entries => some entries
  | d :: ds, e :: es, entries =>
    if d = e then
      let slices := (List.range d).map fun i =>
        stretch ds es ((entries.drop (i * Shape.volume ds)).take (Shape.volume ds))
      slices.foldr (fun slice rest => slice.bind fun xs => rest.map (xs ++ ·)) (some [])
    else if d = 1 then
      (stretch ds es entries).map fun slice => (List.replicate e slice).flatten
    else none
  | _, _, _ => none

/-- The shape brought to rank `rank` by leading axes of extent 1, if it has no more axes. -/
def padShape (rank : Nat) (shape : Shape) : Shape :=
  List.replicate (rank - shape.length) 1 ++ shape

/-- The array stretched to a shape, if the shapes agree up to repetition. -/
def broadcastTo? (target : Shape) (t : Tensor α) : Option (Tensor α) :=
  if t.shape = target then some t
  else (stretch (padShape target.length t.shape) target t.data.toList).bind fun entries =>
    ofData? target entries.toArray

/-- A shape without the leading axes of extent 1 that an array of rank `rank` has no room for. -/
def trimShape (rank : Nat) : Shape → Shape
  | 1 :: ds => if rank ≤ ds.length then trimShape rank ds else 1 :: ds
  | shape => shape

theorem volume_trimShape (rank : Nat) (shape : Shape) :
    (trimShape rank shape).volume = shape.volume := by
  fun_induction trimShape rank shape <;> simp_all

/--
The entries of `t` written over an array of shape `target`, stretched where that is needed.
Leading axes of extent 1 that the target lacks are dropped.
-/
def assignTo? (target : Shape) (t : Tensor α) : Option (Tensor α) :=
  let trimmed : Tensor α :=
    ⟨trimShape target.length t.shape, t.data, by rw [t.size_eq, volume_trimShape]⟩
  trimmed.broadcastTo? target

/-- The common shape of two arrays of equal rank that are stretched to each other. -/
def commonShape? : Shape → Shape → Option Shape
  | [], [] => some []
  | d :: ds, e :: es =>
    (commonShape? ds es).bind fun rest =>
      if d = e then some (d :: rest)
      else if d = 1 then some (e :: rest)
      else if e = 1 then some (d :: rest)
      else none
  | _, _ => none

/-- The common shape of two arrays that are stretched to each other. -/
def stretchedShape? (s t : Shape) : Option Shape :=
  let rank := Nat.max s.length t.length
  commonShape? (padShape rank s) (padShape rank t)

/--
The shape of the matrix product of two arrays. A vector counts as one row on the left and as one
column on the right, which the product lacks; axes before the last two are stretched to each other.
Arrays without axes have no product.
-/
def productShape? (s t : Shape) : Option Shape :=
  match s.reverse, t.reverse with
  | [], _ | _, [] => none
  | [k], [l] => if k = l then some [] else none
  | [k], columns :: l :: slices => if k = l then some (slices.reverse ++ [columns]) else none
  | k :: rows :: slices, [l] => if k = l then some (slices.reverse ++ [rows]) else none
  | k :: rows :: slices, columns :: l :: slices' =>
    if k = l then (stretchedShape? slices.reverse slices'.reverse).map (· ++ [rows, columns])
    else none

/-- A function applied to matching entries of two arrays, each stretched to the other. -/
def zipWith? (f : α → β → γ) (t : Tensor α) (u : Tensor β) : Option (Tensor γ) :=
  if same : t.shape = u.shape then
    some ⟨t.shape, t.data.zipWith f u.data, by simp [t.size_eq, u.size_eq, same]⟩
  else
    (stretchedShape? t.shape u.shape).bind fun shape =>
      (t.broadcastTo? shape).bind fun t' =>
        (u.broadcastTo? shape).bind fun u' =>
          ofData? shape (t'.data.zipWith f u'.data)

theorem zipWith?_ofVector {n : Nat} (f : α → β → γ) (v : Vector α n) (w : Vector β n) :
    zipWith? f (ofVector v) (ofVector w) = some (ofVector (v.zipWith f w)) :=
  dif_pos rfl

theorem zipWith?_scalar (f : α → β → γ) (a : α) (b : β) :
    zipWith? f (scalar a) (scalar b) = some (scalar (f a b)) := by
  simp [zipWith?, scalar]

end Tensor

end TrustRegion
