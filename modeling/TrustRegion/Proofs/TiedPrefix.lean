/-
  What the test for the hard case answers to any eigenvalues and projections.

  `tiedCount` is the length of the longest run of eigenvalues at the front that are tied with the
  first one, whatever comes after the run. With a negative first eigenvalue the test answers by the
  projections of this run alone: it counts the run if all of them are negligible, and otherwise
  gives the place of the first that is not (`candidate_answers_by_prefix`). Eigenvalues need not be
  sorted for that. If they ascend, the run holds every eigenvalue that is tied with the smallest,
  and the ones beyond it stay apart from it however the spectrum is shifted.
-/
import TrustRegion.Proofs.TiedBlock

namespace TrustRegion

namespace HardCase

/-- A scan ends at a tied pair that is not negligible, after a block of negligible ones. -/
theorem scan_of_large {first : ℝ} {block rest : List (ℝ × ℝ)} {pair : ℝ × ℝ} {count : Nat}
    (negligible : ∀ pair ∈ block, Negligible first pair) (tied : |first - pair.1| ≤ tieThreshold)
    (large : tieThreshold < |pair.2|) :
    scan first (block ++ pair :: rest) count = (false, count + block.length + 1) := by
  induction block generalizing count with
  | nil => exact (if_neg (not_lt.2 tied)).trans (if_pos large)
  | cons pair' block ih =>
    obtain ⟨tied', small⟩ := negligible pair' List.mem_cons_self
    have counted : scan first (block ++ pair :: rest) (count + 1) =
        (false, count + 1 + block.length + 1) :=
      ih fun pair mem => negligible pair (List.mem_cons_of_mem _ mem)
    rw [List.cons_append, scan]
    refine (if_neg (not_lt.2 tied')).trans ((if_neg (not_lt.2 small)).trans ?_)
    rw [counted, List.length_cons]
    congr 1
    omega

variable {n : Nat} (pos : 0 < n) (eigenvalues projections : Vector ℝ n)

/-- How many eigenvalues there are before the first that is not tied with the one at the front. -/
noncomputable def tiedCount : Nat :=
  eigenvalues.toList.findIdx fun e => decide (tieThreshold < |first pos eigenvalues - e|)

theorem tiedCount_le : tiedCount pos eigenvalues ≤ n := by
  have le : tiedCount pos eigenvalues ≤ eigenvalues.toList.length := List.findIdx_le_length
  simpa using le

variable {pos eigenvalues projections}

/-- An index is in the run if no index up to it has an eigenvalue that is not tied. -/
theorem lt_tiedCount_iff {i : Fin n} : i.val < tiedCount pos eigenvalues ↔
    ∀ j ≤ i, |first pos eigenvalues - eigenvalues j| ≤ tieThreshold := by
  unfold tiedCount
  rw [List.lt_findIdx_iff]
  constructor
  · intro ⟨_, tied⟩ j le
    simpa [Vector.get] using tied j.val le
  · intro tied
    refine ⟨by simp, fun j le => ?_⟩
    simpa [Vector.get] using tied ⟨j, le.trans_lt i.isLt⟩ le

/-- The eigenvalue after the run is not tied. -/
theorem apart_of_eq_tiedCount {i : Fin n} (last : i.val = tiedCount pos eigenvalues) :
    tieThreshold < |first pos eigenvalues - eigenvalues i| := by
  by_contra tied
  have inside : i.val < tiedCount pos eigenvalues := by
    rw [lt_tiedCount_iff]
    intro j le
    rcases le.lt_or_eq with lt | rfl
    · exact lt_tiedCount_iff.1 (last ▸ lt) j (le_refl j)
    · exact not_lt.1 tied
  omega

/-- The pairs before an index are negligible if the projections are, as far as the run goes. -/
theorem negligible_of_le {k : Nat} (le : k ≤ tiedCount pos eigenvalues)
    (small : ∀ i : Fin n, i.val < k → |projections i| ≤ tieThreshold) (i : Fin n) (lt : i.val < k) :
    Negligible (first pos eigenvalues) (eigenvalues i, projections i) :=
  ⟨lt_tiedCount_iff.1 (lt.trans_le le) i (le_refl i), small i lt⟩

/-- Negligible projections on the whole run: the test counts the run. -/
theorem detect_of_small (negative : first pos eigenvalues < 0)
    (small : ∀ i : Fin n, i.val < tiedCount pos eigenvalues → |projections i| ≤ tieThreshold) :
    detect (first pos eigenvalues) (eigenvalues.toList.zip projections.toList) =
      (true, tiedCount pos eigenvalues) :=
  detect_of_block negative (tiedCount_le pos eigenvalues) (negligible_of_le (le_refl _) small)
    fun _ last => apart_of_eq_tiedCount last

/-- The first projection on the run that is not negligible: the test gives its place. -/
theorem detect_of_large (negative : first pos eigenvalues < 0) {j : Fin n}
    (inside : j.val < tiedCount pos eigenvalues) (large : tieThreshold < |projections j|)
    (small : ∀ i < j, |projections i| ≤ tieThreshold) :
    detect (first pos eigenvalues) (eigenvalues.toList.zip projections.toList) =
      (false, j.val + 1) := by
  have within : j.val < (eigenvalues.toList.zip projections.toList).length := by
    rw [length_zip]
    exact j.isLt
  have cut : eigenvalues.toList.zip projections.toList =
      (eigenvalues.toList.zip projections.toList).take j ++ (eigenvalues j, projections j) ::
        (eigenvalues.toList.zip projections.toList).drop (j + 1) := by
    rw [← getElem_zip j within, ← List.drop_eq_getElem_cons within, List.take_append_drop]
  have scanned : scan (first pos eigenvalues) (_ ++ (eigenvalues j, projections j) ::
      (eigenvalues.toList.zip projections.toList).drop (j + 1)) 0 = (false, 0 + _ + 1) :=
    scan_of_large (negligible_of_mem_take (negligible_of_le inside.le fun i lt => small i lt))
      (lt_tiedCount_iff.1 inside j (le_refl j)) large
  rw [← cut, List.length_take, length_zip, min_eq_left j.isLt.le, Nat.zero_add] at scanned
  unfold detect
  rw [if_neg negative.not_ge]
  exact scanned

/-- With ascending eigenvalues the run holds all that are tied. -/
theorem lt_tiedCount_iff_of_monotone (ascending : Monotone eigenvalues.get) {i : Fin n} :
    i.val < tiedCount pos eigenvalues ↔
      |first pos eigenvalues - eigenvalues i| ≤ tieThreshold := by
  rw [lt_tiedCount_iff]
  constructor
  · intro tied
    exact tied i (le_refl i)
  · intro tied j le
    have least : first pos eigenvalues ≤ eigenvalues j := ascending (Nat.zero_le j.val)
    have below : eigenvalues j ≤ eigenvalues i := ascending le
    rw [abs_sub_comm, abs_of_nonneg (by linarith)] at tied ⊢
    linarith

/-- Beyond the run of ascending eigenvalues there is a gap. -/
theorem gap_of_monotone (ascending : Monotone eigenvalues.get) {i : Fin n}
    (beyond : tiedCount pos eigenvalues ≤ i.val) :
    tieThreshold + first pos eigenvalues < eigenvalues i := by
  have least : first pos eigenvalues ≤ eigenvalues i := ascending (Nat.zero_le i.val)
  have apart : ¬ |first pos eigenvalues - eigenvalues i| ≤ tieThreshold := by
    rw [← lt_tiedCount_iff_of_monotone ascending]
    exact beyond.not_gt
  rw [abs_sub_comm, abs_of_nonneg (by linarith)] at apart
  linarith

end HardCase

open HardCase

variable {n : Nat}

/--
The test answers by the run of eigenvalues at the front that are tied with the first one. It finds
the hard case if that eigenvalue is negative and all projections on the run are negligible, and
counts the run; it gives the place, counted from one, of the first projection on the run that is
not; and with an eigenvalue at the front that is not negative it looks no further.
-/
theorem candidate_answers_by_prefix (pos : 0 < n) (eigenvalues projections : Vector ℝ n) :
    ∃ answer, candidate (.ofVector eigenvalues) (.ofVector projections) = .ok answer ∧
      (∀ k, answer = (true, k) ↔ first pos eigenvalues < 0 ∧ k = tiedCount pos eigenvalues ∧
        ∀ i : Fin n, i.val < k → |projections i| ≤ tieThreshold) ∧
      (first pos eigenvalues < 0 →
        (∃ i : Fin n, i.val < tiedCount pos eigenvalues ∧ tieThreshold < |projections i|) →
        ∃ j : Fin n, j.val < tiedCount pos eigenvalues ∧ tieThreshold < |projections j| ∧
          (∀ i < j, |projections i| ≤ tieThreshold) ∧ answer = (false, j.val + 1)) ∧
      (0 ≤ first pos eigenvalues → answer = (false, 1)) ∧
      (Monotone eigenvalues.get →
        (∀ i : Fin n, i.val < tiedCount pos eigenvalues ↔
          |eigenvalues i - first pos eigenvalues| ≤ tieThreshold) ∧
        ∀ (i : Fin n) (lam : ℝ), tiedCount pos eigenvalues ≤ i.val →
          tieThreshold + (first pos eigenvalues + lam) < eigenvalues i + lam) := by
  have of_large (negative : first pos eigenvalues < 0)
      (some_large : ∃ i : Fin n,
        i.val < tiedCount pos eigenvalues ∧ tieThreshold < |projections i|) :
      ∃ j : Fin n, j.val < tiedCount pos eigenvalues ∧ tieThreshold < |projections j| ∧
        (∀ i < j, |projections i| ≤ tieThreshold) ∧
        detect (first pos eigenvalues) (eigenvalues.toList.zip projections.toList) =
          (false, j.val + 1) := by
    obtain ⟨j, ⟨inside, large⟩, least⟩ := wellFounded_lt.has_min
      {i : Fin n | i.val < tiedCount pos eigenvalues ∧ tieThreshold < |projections i|} some_large
    have small : ∀ i < j, |projections i| ≤ tieThreshold := by
      intro i lt
      by_contra large'
      exact least i ⟨(Fin.lt_def.1 lt).trans inside, not_le.1 large'⟩ lt
    exact ⟨j, inside, large, small, detect_of_large negative inside large small⟩
  refine ⟨_, candidate_ofVector eigenvalues projections pos, fun k => ?_, of_large,
    fun nonneg => if_pos nonneg, fun ascending => ⟨fun i => ?_, fun i lam beyond => ?_⟩⟩
  · constructor
    · intro hard
      have negative : first pos eigenvalues < 0 := by
        by_contra nonneg
        have answer := hard.symm.trans (if_pos (not_lt.1 nonneg))
        simp at answer
      have small : ∀ i : Fin n, i.val < tiedCount pos eigenvalues →
          |projections i| ≤ tieThreshold := by
        intro i inside
        by_contra large
        obtain ⟨j, -, -, -, answer⟩ := of_large negative ⟨i, inside, not_le.1 large⟩
        rw [hard] at answer
        simp at answer
      have counted := hard.symm.trans (detect_of_small negative small)
      obtain rfl : k = tiedCount pos eigenvalues := by simpa using counted
      exact ⟨negative, rfl, small⟩
    · intro ⟨negative, count, small⟩
      subst count
      exact detect_of_small negative small
  · rw [lt_tiedCount_iff_of_monotone ascending, abs_sub_comm]
  · have gap := gap_of_monotone ascending beyond
    linarith

/-- Two eigenvalues that are just tied, with projections that are just negligible. -/
theorem candidate_answers_by_prefix_just_tied : 0 < 3 ∧
    candidate (.ofVector #v[(-1 : ℝ), -1 + tieThreshold, 2])
      (.ofVector #v[(tieThreshold : ℝ), -tieThreshold, 5]) = .ok (true, 2) := by
  have pos : 0 < 3 := by norm_num
  obtain ⟨answer, answered, hard, -⟩ := candidate_answers_by_prefix pos
    #v[-1, -1 + tieThreshold, 2] #v[tieThreshold, -tieThreshold, 5]
  have negative : first pos #v[(-1 : ℝ), -1 + tieThreshold, 2] < 0 := by
    show (-1 : ℝ) < 0
    norm_num
  have counted : tiedCount pos #v[(-1 : ℝ), -1 + tieThreshold, 2] = 2 := by
    have front : |(-1 : ℝ) - -1| ≤ tieThreshold := by norm_num [tieThreshold_eq]
    have second : |(-1 : ℝ) - (-1 + tieThreshold)| ≤ tieThreshold := by norm_num [tieThreshold_eq]
    have third : tieThreshold < |(-1 : ℝ) - 2| := by norm_num [tieThreshold_eq]
    refine (List.findIdx_eq (by simp)).2 ⟨decide_eq_true third, fun j lt => ?_⟩
    match j with
    | 0 => exact decide_eq_false front.not_gt
    | 1 => exact decide_eq_false second.not_gt
  have small : ∀ i : Fin 3, i.val < 2 →
      |(#v[(tieThreshold : ℝ), -tieThreshold, 5]).get i| ≤ tieThreshold := by
    have self : |(tieThreshold : ℝ)| ≤ tieThreshold := (abs_of_pos tieThreshold_pos).le
    intro i lt
    match i with
    | 0 => exact self
    | 1 => exact (abs_neg _).trans_le self
    | 2 => omega
  refine ⟨pos, answered.trans (congrArg Except.ok ?_)⟩
  exact (hard 2).2 ⟨negative, counted.symm, small⟩

end TrustRegion
