/-
  The test for the hard case.

  Root finding cannot reach the boundary where the gradient is orthogonal to all eigenvectors of
  the smallest, negative eigenvalue. The test walks along the eigenvalues as long as they are tied
  with the first one and looks at the projection of the gradient on each.

  `candidate` takes both as arrays of any shape; on vectors it is `detect` (`candidate_ofVector`).
-/
import TrustRegion.Subproblem.Basic

namespace TrustRegion

namespace HardCase

variable {α : Type} [Scalar α]

/--
Walks along pairs of an eigenvalue and a projection. It ends at the first eigenvalue that is not
tied with `first`, at the first tied one whose projection is not negligible, which answers `false`,
or with the list. The number counts the pairs that were looked at.
-/
def scan (first : α) : List (α × α) → Nat → Bool × Nat
  | [], count => (true, count)
  | (eigenvalue, projection) :: rest, count =>
    if tieThreshold < Scalar.abs (first - eigenvalue) then (true, count)
    else if tieThreshold < Scalar.abs projection then (false, count + 1)
    else scan first rest (count + 1)

/--
Whether the gradient is orthogonal to the eigenvectors of a negative smallest eigenvalue, and how
many eigenvalues are tied with it. The first eigenvalue is taken as the smallest.
-/
def detect (first : α) (pairs : List (α × α)) : Bool × Nat :=
  if 0 ≤ first then (false, 1) else scan first pairs 0

end HardCase

namespace Tensor

variable {α : Type}

/-- How many slices an array has along its first axis. -/
def length (t : Tensor α) : Except (Fault α) Nat :=
  match t.shape with
  | [] => throw .noLength
  | d :: _ => pure d

/-- The slices along the first axis as numbers, if each holds exactly one. -/
def numbers (t : Tensor α) : Except (Fault α) (List α) :=
  if Shape.volume (t.shape.drop 1) = 1 then pure t.data.toList else throw .ambiguousTruth

theorem length_ofVector {n : Nat} (v : Vector α n) : (ofVector v).length = .ok n := rfl

theorem numbers_ofVector {n : Nat} (v : Vector α n) : (ofVector v).numbers = .ok v.toList := by
  simp [numbers, ofVector, Vector.toList, pure, Except.pure]

end Tensor

namespace HardCase

variable {α : Type} [Scalar α]

/--
The test on eigenvalues and projections given apart, in arrays of equal length. The projections are
looked at only if the first eigenvalue is not zero or positive.
-/
def candidate (eigenvalues projections : Tensor α) : Except (Fault α) (Bool × Nat) := do
  let count ← eigenvalues.length
  let count' ← projections.length
  if count ≠ count' then throw (.spectrumLengths count count')
  else if count = 0 then throw .emptySpectrum
  else
    let values ← eigenvalues.numbers
    match values with
    | [] => throw .emptySpectrum
    | first :: _ =>
      if 0 ≤ first then pure (false, 1)
      else pure (detect first (values.zip (← projections.numbers)))

theorem candidate_ofVector {n : Nat} (eigenvalues projections : Vector α n) (pos : 0 < n) :
    candidate (.ofVector eigenvalues) (.ofVector projections) =
      .ok (detect (first pos eigenvalues) (eigenvalues.toList.zip projections.toList)) := by
  have nonempty : ∃ rest, eigenvalues.toList = first pos eigenvalues :: rest := by
    refine ⟨eigenvalues.toList.tail, ?_⟩
    rw [first, ← Vector.getElem_toList (by simpa using pos)]
    exact (List.cons_head_tail (List.ne_nil_of_length_pos (by simpa using pos))).symm.trans
      (by rw [List.head_eq_getElem])
  obtain ⟨rest, cons⟩ := nonempty
  have notZero : n ≠ 0 := Nat.ne_of_gt pos
  simp only [candidate, Tensor.length_ofVector, Tensor.numbers_ofVector, cons, bind, Except.bind]
  simp only [ne_eq, not_true_eq_false, if_false, notZero]
  by_cases h : 0 ≤ first pos eigenvalues
  · simp [h, detect, pure, Except.pure]
  · simp [h, pure, Except.pure]

end HardCase

/-- The test on the eigenvalues of a model and the projections of its gradient. -/
def Model.hardCase {α : Type} [Scalar α] {n : Nat} (pos : 0 < n) (M : Model α n) : Bool × Nat :=
  HardCase.detect (M.least pos) (M.spectrum.eigenvalues.toList.zip M.projections.toList)

end TrustRegion
