/-
  The library at the real numbers.

  `Scalar ℝ` gives every algorithm its exact meaning: arithmetic without rounding, no infinities
  and no NaN. The lemmas turn the library's own operations into the usual ones: sums from the left
  into `∑`, `dot` and `norm` into sums and roots of sums, the comparisons that decide into
  propositions. Proofs about an exact run start from here and do not unfold those operations again.
-/
import Mathlib
import TrustRegion.Subproblem.Solve

namespace TrustRegion

noncomputable instance : Scalar ℝ where
  abs := fun a => |a|
  sqrt := Real.sqrt
  isFinite := fun _ => true
  decLt := inferInstance
  decLe := inferInstance

namespace Scalar

theorem real_square (a : ℝ) : Scalar.square a = a ^ 2 := (sq a).symm

theorem real_max (a b : ℝ) : Scalar.max a b = Max.max a b := by
  unfold Scalar.max
  split
  · next h => exact (max_eq_right h.le).symm
  · next h => exact (max_eq_left (not_lt.1 h)).symm

theorem real_min (a b : ℝ) : Scalar.min a b = Min.min a b := by
  unfold Scalar.min
  split
  · next h => exact (min_eq_right h.le).symm
  · next h => exact (min_eq_left (not_lt.1 h)).symm

theorem real_isZero (a : ℝ) : Scalar.isZero a = decide (a = 0) := by
  unfold Scalar.isZero
  rw [← Bool.decide_and]
  exact decide_eq_decide.2 (le_antisymm_iff (a := a) (b := 0)).symm

theorem real_sum {n : Nat} (f : Fin n → ℝ) : Scalar.sum f = ∑ i, f i := by
  induction n with
  | zero => rfl
  | succ n ih =>
    have head : Scalar.sum f = Scalar.sum (fun i => f i.castSucc) + f (Fin.last n) :=
      Fin.foldl_succ_last _ _
    rw [head, ih, Fin.sum_univ_castSucc]

theorem real_sumFrom {n : Nat} (start : Nat) (f : Fin n → ℝ) :
    Scalar.sumFrom start f = ∑ i : Fin n, if start ≤ i.val then f i else 0 := by
  rw [← real_sum]
  unfold Scalar.sumFrom Scalar.sum
  congr 1
  funext acc i
  show _ = acc + if start ≤ i.val then f i else 0
  split
  · rfl
  · exact (add_zero acc).symm

end Scalar

variable {n : Nat}

theorem real_dot (u v : Vector ℝ n) : dot u v = ∑ i, u i * v i := Scalar.real_sum _

theorem dot_self_nonneg (v : Vector ℝ n) : 0 ≤ dot v v := by
  rw [real_dot]
  exact Finset.sum_nonneg fun i _ => mul_self_nonneg (v i)

theorem norm_nonneg (v : Vector ℝ n) : 0 ≤ norm v := Real.sqrt_nonneg _

theorem norm_sq (v : Vector ℝ n) : norm v ^ 2 = dot v v := Real.sq_sqrt (dot_self_nonneg v)

theorem norm_le_iff (v : Vector ℝ n) {bound : ℝ} (nonneg : 0 ≤ bound) :
    norm v ≤ bound ↔ dot v v ≤ bound ^ 2 := by
  rw [← norm_sq]
  exact (sq_le_sq₀ (norm_nonneg v) nonneg).symm

theorem get_add {n : Nat} (u v : Vector ℝ n) (i : Fin n) : (u + v).get i = u i + v i :=
  Vector.getElem_add u v i i.isLt

theorem get_neg {n : Nat} (v : Vector ℝ n) (i : Fin n) : (-v).get i = -v i :=
  Vector.getElem_neg v i i.isLt

theorem get_sub (u v : Vector ℝ n) (i : Fin n) : (u - v).get i = u i - v i :=
  Vector.getElem_sub u v i i.isLt

theorem get_mul (c : ℝ) (v : Vector ℝ n) (i : Fin n) : (c * v).get i = c * v i :=
  Vector.getElem_hmul c v i i.isLt

theorem get_add_eq (u v : Vector ℝ n) : (u + v).get = u.get + v.get := funext (get_add u v)

theorem get_neg_eq (v : Vector ℝ n) : (-v).get = -v.get := funext (get_neg v)

theorem get_sub_eq (u v : Vector ℝ n) : (u - v).get = u.get - v.get := funext (get_sub u v)

theorem vector_ext {u v : Vector ℝ n} (h : ∀ i, u.get i = v.get i) : u = v :=
  Vector.ext fun i hi => h ⟨i, hi⟩

theorem matrix_ext {A B : SquareMatrix ℝ n} (h : ∀ i j, A i j = B i j) : A = B :=
  Vector.ext fun i hi => vector_ext (h ⟨i, hi⟩)

theorem dot_mul_left (c : ℝ) (u v : Vector ℝ n) : dot (c * u) v = c * dot u v := by
  rw [real_dot, real_dot, Finset.mul_sum]
  refine Finset.sum_congr rfl fun i _ => ?_
  rw [get_mul, mul_assoc]

theorem norm_mul (c : ℝ) (v : Vector ℝ n) : norm (c * v) = |c| * norm v := by
  have square : dot (c * v) (c * v) = c ^ 2 * dot v v := by
    rw [real_dot, real_dot, Finset.mul_sum]
    refine Finset.sum_congr rfl fun i _ => ?_
    rw [get_mul]
    ring
  show √(dot (c * v) (c * v)) = |c| * √(dot v v)
  rw [square, Real.sqrt_mul (sq_nonneg c), Real.sqrt_sq_eq_abs]

theorem norm_singleton (a : ℝ) : norm #v[a] = |a| := by
  show √(dot #v[a] #v[a]) = |a|
  rw [real_dot, Fin.sum_univ_one]
  exact Real.sqrt_mul_self_eq_abs a

theorem add_singleton (a b : ℝ) : (#v[a] + #v[b] : Vector ℝ 1) = #v[a + b] := by
  refine vector_ext fun i => ?_
  rw [get_add, Subsingleton.elim i 0]
  rfl

theorem checkedSquare_real (a : ℝ) : checkedSquare a = .ok (a ^ 2) := by
  show Except.ok (a * a) = _
  rw [sq]

theorem checkedQuotient_real {a b : ℝ} (nonzero : b ≠ 0) : checkedQuotient a b = .ok (a / b) := by
  unfold checkedQuotient
  rw [Scalar.real_isZero, decide_eq_false nonzero]
  rfl

theorem definiteThreshold_eq : (definiteThreshold : ℝ) = 1 / 10 ^ 8 := by
  norm_num [definiteThreshold]

theorem tieThreshold_eq : (tieThreshold : ℝ) = 1 / 10 ^ 10 := by
  norm_num [tieThreshold]

theorem definiteThreshold_pos : (0 : ℝ) < definiteThreshold := by
  rw [definiteThreshold_eq]
  positivity

theorem tieThreshold_pos : (0 : ℝ) < tieThreshold := by
  rw [tieThreshold_eq]
  positivity

end TrustRegion
