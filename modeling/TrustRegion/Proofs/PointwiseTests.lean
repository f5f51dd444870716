/-
  The convergence tests, entry by entry.

  A test folds a maximum over an array that starts at zero and that a NaN does not leave again. It
  holds exactly if the tolerance is positive and every entry is below it, and an entry that is below
  anything is not a NaN (`Tolerances.allBelow_iff`). So the three tests are strict bounds on every
  change and every component, infinities and NaNs included, and looser tolerances keep them. The
  test before the first iteration starts its maximum at the first component instead of zero, which
  makes no difference where there is a component (`assess_pointwise`).
-/
import TrustRegion.Proofs.Verdict

namespace TrustRegion

/-- Looser tolerances keep a test. -/
theorem Tolerances.allBelow_mono {α : Type} [Scalar α] [LawfulComparison α] {bound bound' : α}
    {xs : List α} (le : bound ≤ bound') (below : allBelow bound xs = true) :
    allBelow bound' xs = true := by
  obtain ⟨pos, entries⟩ := allBelow_iff.1 below
  refine allBelow_iff.2 ⟨LawfulOrder.lt_of_lt_of_le pos le, fun a mem => ?_⟩
  exact LawfulOrder.lt_of_lt_of_le (entries a mem) le

namespace Extended

/-- A NaN is not below anything. -/
theorem ne_nan_of_abs_lt {a bound : Extended} (below : Scalar.abs a < bound) : a ≠ nan := by
  intro same
  subst same
  cases bound <;> exact below

/-- In absolute value nothing is below a bound that is not positive. -/
theorem pos_of_abs_lt {a bound : Extended} (below : Scalar.abs a < bound) : 0 < bound := by
  cases a <;> cases bound
  case number.number a b => exact (abs_nonneg a).trans_lt (show |a| < b from below)
  case infinity.infinity => exact absurd below.1 Bool.false_ne_true
  case infinity.number => exact absurd below Bool.false_ne_true
  case number.infinity => exact below
  all_goals exact below.elim

theorem abs_lt_iff {a bound : Extended} :
    Scalar.abs a < bound ↔ a ≠ nan ∧ Scalar.abs a < bound := by
  constructor
  · intro below
    exact ⟨ne_nan_of_abs_lt below, below⟩
  · intro ⟨_, below⟩
    exact below

end Extended

namespace Tolerances

variable {tol tol' : Tolerances Extended} {x y g : Tensor Extended} {f fPrevious : Extended}

theorem assess_eq_ok {c : Convergence} : tol.assess x y f fPrevious g = .ok c ↔
    x.shape = y.shape ∧
      c = tol.test (x.data.zipWith (· - ·) y.data).toList f fPrevious g.data.toList := by
  unfold assess
  split
  · next same =>
    constructor
    · intro assessed
      exact ⟨same, (Except.ok.inj assessed).symm⟩
    · intro ⟨_, tests⟩
      rw [tests]
      rfl
  · next different =>
    constructor
    · intro assessed
      cases assessed
    · intro ⟨same, _⟩
      exact absurd same different

/-- Bounds on all changes are bounds on the differences of entries at the same place. -/
theorem forall_changes_iff {P : Extended → Prop} {x y : Array Extended} :
    (∀ d ∈ (x.zipWith (· - ·) y).toList, P d) ↔
      ∀ (i : Nat) (a b : Extended), x[i]? = some a → y[i]? = some b → P (a - b) := by
  constructor
  · intro changes i a b found found'
    refine changes (a - b) ?_
    rw [Array.mem_toList_iff, Array.mem_iff_getElem?]
    refine ⟨i, ?_⟩
    rw [Array.getElem?_zipWith, found, found']
  · intro places d mem
    rw [Array.mem_toList_iff, Array.mem_iff_getElem?] at mem
    obtain ⟨i, found⟩ := mem
    rw [Array.getElem?_zipWith] at found
    cases left : x[i]? <;> cases right : y[i]? <;> rw [left, right] at found
    case some.some a b =>
      cases found
      exact places i a b left right
    all_goals cases found

/-- A looser tolerance keeps its test. -/
theorem test_mono {changes gradient : List Extended} :
    (tol.point ≤ tol'.point → (tol.test changes f fPrevious gradient).point = true →
      (tol'.test changes f fPrevious gradient).point = true) ∧
    (tol.value ≤ tol'.value → (tol.test changes f fPrevious gradient).value = true →
      (tol'.test changes f fPrevious gradient).value = true) ∧
    (tol.gradient ≤ tol'.gradient → (tol.test changes f fPrevious gradient).gradient = true →
      (tol'.test changes f fPrevious gradient).gradient = true) := by
  refine ⟨allBelow_mono, fun le small => ?_, allBelow_mono⟩
  have below : Scalar.abs (f - fPrevious) < tol.value := of_decide_eq_true small
  exact decide_eq_true (LawfulOrder.lt_of_lt_of_le below le)

/-- Where there is a gradient, the test before the first iteration is the one after an iteration. -/
theorem assessStart_eq (nonempty : g.data.size ≠ 0) :
    tol.assessStart g = .ok (allBelow tol.gradient g.data.toList) := by
  rw [← Array.length_toList] at nonempty
  obtain ⟨first, rest, entries⟩ := List.exists_cons_of_length_pos (Nat.pos_of_ne_zero nonempty)
  have assessed : tol.assessStart g = .ok _ := assessStart_eq_ok.2 ⟨first, rest, entries, rfl⟩
  rw [assessed]
  congr 1
  rw [Bool.eq_iff_iff, assessStart_iff assessed, allBelow_iff]
  simp only [Array.mem_toList_iff]
  constructor
  · intro below
    have mem : first ∈ g.data := by
      rw [← Array.mem_toList_iff, entries]
      exact List.mem_cons_self
    exact ⟨Extended.pos_of_abs_lt (below first mem), below⟩
  · intro ⟨_, below⟩
    exact below

end Tolerances

/--
Each test is a strict bound on every entry that it looks at, the tolerance itself being above zero;
a NaN fails it. Some test holds if one of the three does, a looser tolerance keeps a test, and the
test before the first iteration is the gradient test.
-/
theorem assess_pointwise (tol : Tolerances Extended) (x xPrevious g : Tensor Extended)
    (f fPrevious : Extended) (same : x.shape = xPrevious.shape) :
    ∃ c, tol.assess x xPrevious f fPrevious g = .ok c ∧
      (c.point = true ↔ 0 < tol.point ∧ ∀ (i : Nat) (a b : Extended),
        x.data[i]? = some a → xPrevious.data[i]? = some b →
          a - b ≠ .nan ∧ Scalar.abs (a - b) < tol.point) ∧
      (c.value = true ↔ Scalar.abs (f - fPrevious) < tol.value) ∧
      (c.gradient = true ↔ 0 < tol.gradient ∧
        ∀ a ∈ g.data, a ≠ .nan ∧ Scalar.abs a < tol.gradient) ∧
      (c.any = true ↔ c.point = true ∨ c.value = true ∨ c.gradient = true) ∧
      (∀ (tol' : Tolerances Extended) (c' : Convergence),
        tol'.assess x xPrevious f fPrevious g = .ok c' →
          (tol.point ≤ tol'.point → c.point = true → c'.point = true) ∧
          (tol.value ≤ tol'.value → c.value = true → c'.value = true) ∧
          (tol.gradient ≤ tol'.gradient → c.gradient = true → c'.gradient = true)) ∧
      (g.data.size ≠ 0 → tol.assessStart g = .ok c.gradient) := by
  refine ⟨_, Tolerances.assess_eq_ok.2 ⟨same, rfl⟩, ?_, decide_eq_true_iff, ?_,
    Convergence.any_eq_true_iff _, fun tol' c' assessed => ?_, Tolerances.assessStart_eq⟩
  · simp only [← Extended.abs_lt_iff]
    exact Tolerances.allBelow_iff.trans (and_congr_right fun _ => Tolerances.forall_changes_iff
      (P := fun d => Scalar.abs d < tol.point))
  · simp only [← Extended.abs_lt_iff, ← Array.mem_toList_iff]
    exact Tolerances.allBelow_iff
  · obtain ⟨-, rfl⟩ := Tolerances.assess_eq_ok.1 assessed
    exact Tolerances.test_mono

/-- A coordinate that stays infinite has no change, so the point has not settled. -/
theorem assess_pointwise_infinite :
    (Tensor.ofVector #v[Extended.number 1, .infinity false]).shape =
      (Tensor.ofVector #v[Extended.number 1, .infinity false]).shape ∧
    ∃ c, Tolerances.assess (β := Extended) ⟨.infinity false, .infinity false, .number 1⟩
        (.ofVector #v[Extended.number 1, .infinity false])
        (.ofVector #v[Extended.number 1, .infinity false]) (.infinity false) (.number 0)
        (.ofVector #v[Extended.number 0]) = .ok c ∧
      c.point = false ∧ c.value = false ∧ c.gradient = true ∧ c.any = true := by
  obtain ⟨c, assessed, point, value, gradient, any, -⟩ := assess_pointwise
    ⟨.infinity false, .infinity false, .number 1⟩
    (.ofVector #v[Extended.number 1, .infinity false])
    (.ofVector #v[Extended.number 1, .infinity false]) (.ofVector #v[Extended.number 0])
    (.infinity false) (.number 0) rfl
  have settled : c.gradient = true := by
    refine gradient.2 ⟨zero_lt_one (α := ℝ), fun a mem => ?_⟩
    obtain rfl : a = Extended.number 0 := by simpa [Tensor.ofVector] using mem
    refine Extended.abs_lt_iff.1 (show |(0 : ℝ)| < 1 from ?_)
    norm_num
  refine ⟨rfl, c, assessed, ?_, ?_, settled, any.2 (Or.inr (Or.inr settled))⟩
  · rw [Bool.eq_false_iff]
    intro holds
    obtain ⟨-, entries⟩ := point.1 holds
    exact (entries 1 (.infinity false) (.infinity false) rfl rfl).1 rfl
  · rw [Bool.eq_false_iff]
    intro holds
    exact absurd (value.1 holds).1 Bool.false_ne_true

end TrustRegion
