/-
  What the test for the hard case has seen when it answers.

  The scan cuts its list in two: the eigenvalues tied with the first one, whose projections are all
  negligible, and the rest, which starts with an eigenvalue that is not tied (`scan_eq_true`); and
  such a list is scanned up to that cut (`scan_of_block`, by index `detect_of_block`). Read at the
  indices of a model this bounds the projections on the tied block (`block_of_hardCase`). With
  ascending eigenvalues nothing beyond the block is tied, so the verdict depends on the projections
  of the tied eigenvalues only, each compared on its own (`Exact.hardCase_iff`).
-/
import TrustRegion.Proofs.Multipliers

namespace TrustRegion

namespace HardCase

/-- A pair whose eigenvalue is tied with `first` and whose projection is negligible. -/
def Negligible (first : ℝ) (pair : ℝ × ℝ) : Prop :=
  |first - pair.1| ≤ tieThreshold ∧ |pair.2| ≤ tieThreshold

/-- A scan that answers `true` has counted a block of negligible pairs up to its end. -/
theorem scan_eq_true {first : ℝ} {pairs : List (ℝ × ℝ)} {count k : Nat}
    (h : scan first pairs count = (true, k)) :
    ∃ block rest, pairs = block ++ rest ∧ k = count + block.length ∧
      (∀ pair ∈ block, Negligible first pair) ∧
      ∀ pair ∈ rest.head?, tieThreshold < |first - pair.1| := by
  induction pairs generalizing count with
  | nil =>
    obtain rfl : count = k := by
      rw [scan, Prod.mk.injEq] at h
      exact h.2
    exact ⟨[], [], rfl, rfl, by simp, by simp⟩
  | cons pair rest ih =>
    obtain ⟨eigenvalue, projection⟩ := pair
    rw [scan] at h
    split at h
    · next apart =>
      obtain rfl : count = k := by
        rw [Prod.mk.injEq] at h
        exact h.2
      refine ⟨[], (eigenvalue, projection) :: rest, rfl, rfl, by simp, ?_⟩
      intro pair mem
      obtain rfl : (eigenvalue, projection) = pair := by simpa using mem
      exact apart
    · next tied =>
      split at h
      · rw [Prod.mk.injEq] at h
        exact absurd h.1 Bool.false_ne_true
      · next small =>
        obtain ⟨block, rest', split, count_eq, negligible, apart⟩ := ih h
        refine ⟨(eigenvalue, projection) :: block, rest', by rw [split]; rfl, ?_, ?_, apart⟩
        · rw [count_eq, List.length_cons]
          omega
        · intro pair mem
          rcases List.mem_cons.1 mem with rfl | mem
          · exact ⟨not_lt.1 tied, not_lt.1 small⟩
          · exact negligible pair mem

/-- A scan counts a block of negligible pairs, and ends where the block does. -/
theorem scan_of_block {first : ℝ} {block rest : List (ℝ × ℝ)} {count : Nat}
    (negligible : ∀ pair ∈ block, Negligible first pair)
    (apart : ∀ pair ∈ rest.head?, tieThreshold < |first - pair.1|) :
    scan first (block ++ rest) count = (true, count + block.length) := by
  induction block generalizing count with
  | nil =>
    cases rest with
    | nil => rfl
    | cons pair rest => exact if_pos (apart pair rfl)
  | cons pair block ih =>
    obtain ⟨eigenvalue, projection⟩ := pair
    obtain ⟨tied, small⟩ := negligible (eigenvalue, projection) List.mem_cons_self
    have counted : scan first (block ++ rest) (count + 1) = (true, count + 1 + block.length) :=
      ih fun pair mem => negligible pair (List.mem_cons_of_mem _ mem)
    rw [List.cons_append, scan]
    refine (if_neg (not_lt.2 tied)).trans ((if_neg (not_lt.2 small)).trans ?_)
    rw [counted, List.length_cons, Nat.add_assoc, Nat.add_comm 1]

/-- Where the projections of all tied eigenvalues are negligible, a scan answers `true`. -/
theorem scan_of_negligible {first : ℝ} {pairs : List (ℝ × ℝ)} {count : Nat}
    (small : ∀ pair ∈ pairs, |first - pair.1| ≤ tieThreshold → |pair.2| ≤ tieThreshold) :
    (scan first pairs count).1 = true := by
  induction pairs generalizing count with
  | nil => rfl
  | cons pair rest ih =>
    obtain ⟨eigenvalue, projection⟩ := pair
    rw [scan]
    split
    · rfl
    · next tied =>
      have negligible : ¬ tieThreshold < Scalar.abs projection :=
        not_lt.2 (small (eigenvalue, projection) List.mem_cons_self (not_lt.1 tied))
      rw [if_neg negligible]
      exact ih fun pair mem => small pair (List.mem_cons_of_mem _ mem)

variable {n : Nat} {eigenvalues projections : Vector ℝ n}

theorem length_zip : (eigenvalues.toList.zip projections.toList).length = n := by
  simp

theorem getElem_zip (i : Fin n)
    (inside : i.val < (eigenvalues.toList.zip projections.toList).length) :
    (eigenvalues.toList.zip projections.toList)[i.val] = (eigenvalues i, projections i) := by
  simp [Vector.get]

/-- The first pairs are negligible if they are at every index. -/
theorem negligible_of_mem_take {e : ℝ} {k : Nat}
    (negligible : ∀ i : Fin n, i.val < k → Negligible e (eigenvalues i, projections i)) :
    ∀ pair ∈ (eigenvalues.toList.zip projections.toList).take k, Negligible e pair := by
  intro pair mem
  obtain ⟨i, inside, rfl⟩ := List.getElem_of_mem mem
  rw [List.length_take, length_zip, lt_min_iff] at inside
  obtain ⟨lt, within⟩ := inside
  rw [List.getElem_take, getElem_zip ⟨i, within⟩]
  exact negligible ⟨i, within⟩ lt

/-- With a negative eigenvalue the test counts a block of negligible pairs. -/
theorem detect_of_block {e : ℝ} {k : Nat} (negative : e < 0) (le : k ≤ n)
    (negligible : ∀ i : Fin n, i.val < k → Negligible e (eigenvalues i, projections i))
    (apart : ∀ i : Fin n, i.val = k → tieThreshold < |e - eigenvalues i|) :
    detect e (eigenvalues.toList.zip projections.toList) = (true, k) := by
  have rest : ∀ pair ∈ ((eigenvalues.toList.zip projections.toList).drop k).head?,
      tieThreshold < |e - pair.1| := by
    intro pair mem
    rw [List.head?_drop, Option.mem_def, List.getElem?_eq_some_iff] at mem
    obtain ⟨inside, rfl⟩ := mem
    have within : k < n := by simpa using inside
    rw [getElem_zip ⟨k, within⟩]
    exact apart ⟨k, within⟩ rfl
  have scanned : scan e (_ ++ _) 0 = (true, 0 + _) :=
    scan_of_block (negligible_of_mem_take negligible) rest
  rw [List.take_append_drop, List.length_take, length_zip, min_eq_left le,
    Nat.zero_add] at scanned
  unfold detect
  rw [if_neg negative.not_ge]
  exact scanned

end HardCase

namespace Model

open HardCase

variable {n : Nat} {M : Model ℝ n} {pos : 0 < n} {k : Nat}

/-- The pairs that the test walks along. -/
def pairs (M : Model ℝ n) : List (ℝ × ℝ) :=
  M.spectrum.eigenvalues.toList.zip M.projections.toList

theorem length_pairs (M : Model ℝ n) : M.pairs.length = n := length_zip

theorem getElem_pairs (M : Model ℝ n) (j : Fin n) (inside : j.val < M.pairs.length) :
    M.pairs[j.val] = (M.spectrum.eigenvalues j, M.projections j) :=
  getElem_zip j inside

theorem pairs_eq_cons (pos : 0 < n) (M : Model ℝ n) :
    ∃ rest, M.pairs = (M.least pos, M.projections ⟨0, pos⟩) :: rest := by
  have inside : 0 < M.pairs.length := by
    rw [length_pairs]
    exact pos
  refine ⟨M.pairs.tail, ?_⟩
  have head := getElem_pairs M ⟨0, pos⟩ inside
  rw [← List.cons_head_tail (List.ne_nil_of_length_pos inside), List.head_eq_getElem, List.tail_cons]
  exact congrArg (· :: M.pairs.tail) head

/-- In the hard case the test has seen a block of negligible pairs, up to its end. -/
theorem block_of_hardCase (h : M.hardCase pos = (true, k)) :
    M.least pos < 0 ∧ k ≤ n ∧
      (∀ j : Fin n, j.val < k →
        Negligible (M.least pos) (M.spectrum.eigenvalues j, M.projections j)) ∧
      ∀ j : Fin n, j.val = k → tieThreshold < |M.least pos - M.spectrum.eigenvalues j| := by
  unfold hardCase detect at h
  split at h
  · rw [Prod.mk.injEq] at h
    exact absurd h.1 Bool.false_ne_true
  · next negative =>
    obtain ⟨block, rest, split, count_eq, negligible, apart⟩ := scan_eq_true h
    rw [Nat.zero_add] at count_eq
    change M.pairs = block ++ rest at split
    have total : block.length + rest.length = n := by
      rw [← List.length_append, ← split, length_pairs]
    refine ⟨not_le.1 negative, by omega, fun j lt => ?_, fun j last => ?_⟩
    · rw [count_eq] at lt
      have inside : j.val < M.pairs.length := by
        rw [length_pairs]
        exact j.isLt
      refine negligible _ ?_
      rw [← getElem_pairs M j inside]
      simp only [split, List.getElem_append_left lt]
      exact List.getElem_mem lt
    · rw [count_eq] at last
      refine apart (M.spectrum.eigenvalues j, M.projections j) ?_
      have found : M.pairs[j.val]? = some (M.spectrum.eigenvalues j, M.projections j) := by
        rw [List.getElem?_eq_some_iff]
        exact ⟨M.length_pairs.symm ▸ j.isLt, getElem_pairs M j _⟩
      rw [split, last, List.getElem?_append_right (le_refl _), Nat.sub_self] at found
      rwa [List.head?_eq_getElem?]

/-- The hard case: a negative smallest eigenvalue, and a negligible gradient on its tied block. -/
theorem hardCase_eq_true (h : M.hardCase pos = (true, k)) :
    M.least pos < 0 ∧ 0 < k ∧ k ≤ n ∧
      ∀ j : Fin n, j.val < k → |M.projections j| ≤ tieThreshold := by
  obtain ⟨negative, le, negligible, apart⟩ := block_of_hardCase h
  refine ⟨negative, Nat.pos_of_ne_zero fun empty => ?_, le, fun j lt => (negligible j lt).2⟩
  -- The first eigenvalue is tied with itself, so the block is not empty.
  have far : tieThreshold < |M.least pos - M.least pos| := apart ⟨0, pos⟩ empty.symm
  rw [sub_self, abs_zero] at far
  exact absurd far tieThreshold_pos.not_gt

/-- A negligible gradient on the block that is tied with a negative eigenvalue: the hard case. -/
theorem hardCase_of_block (negative : M.least pos < 0) (le : k ≤ n)
    (negligible : ∀ j : Fin n, j.val < k →
      Negligible (M.least pos) (M.spectrum.eigenvalues j, M.projections j))
    (apart : ∀ j : Fin n, j.val = k → tieThreshold < |M.least pos - M.spectrum.eigenvalues j|) :
    M.hardCase pos = (true, k) :=
  detect_of_block negative le negligible apart

/-- A gradient that is not negligible along the first eigenvector rules the hard case out. -/
theorem hardCase_of_first (large : tieThreshold < |M.projections ⟨0, pos⟩|) :
    (M.hardCase pos).1 = false := by
  obtain ⟨rest, cons⟩ := M.pairs_eq_cons pos
  unfold hardCase detect
  split
  · rfl
  · have tied : ¬ tieThreshold < |M.least pos - M.least pos| := by
      rw [sub_self, abs_zero]
      exact tieThreshold_pos.not_gt
    show (scan (M.least pos) M.pairs 0).1 = false
    rw [cons, scan]
    exact congrArg Prod.fst ((if_neg tied).trans (if_pos large))

/-! ## The verdict -/

/-- A number that is tied with the smallest eigenvalue. -/
def Tied (pos : 0 < n) (M : Model ℝ n) (e : ℝ) : Prop := |M.least pos - e| ≤ tieThreshold

/-- Where all tied projections are negligible and the smallest eigenvalue is negative: the hard case. -/
theorem hardCase_of_tied (negative : M.least pos < 0)
    (small : ∀ j, M.Tied pos (M.spectrum.eigenvalues j) → |M.projections j| ≤ tieThreshold) :
    (M.hardCase pos).1 = true := by
  unfold hardCase detect
  rw [if_neg negative.not_ge]
  refine scan_of_negligible fun pair mem tied => ?_
  obtain ⟨j, inside, rfl⟩ := List.getElem_of_mem mem
  have inside' : j < n := by
    rw [← M.length_pairs]
    exact inside
  have entry : M.pairs[j] = (M.spectrum.eigenvalues ⟨j, inside'⟩, M.projections ⟨j, inside'⟩) :=
    M.getElem_pairs ⟨j, inside'⟩ inside
  change |M.least pos - M.pairs[j].1| ≤ tieThreshold at tied
  change |M.pairs[j].2| ≤ tieThreshold
  rw [entry] at tied ⊢
  exact small ⟨j, inside'⟩ tied

/-- No gradient at all and a negative smallest eigenvalue: the hard case. -/
theorem hardCase_of_flat (negative : M.least pos < 0) (flat : ∀ j, M.projections j = 0) :
    (M.hardCase pos).1 = true := by
  refine hardCase_of_tied negative fun j _ => ?_
  rw [flat, abs_zero]
  exact tieThreshold_pos.le

theorem Exact.tied_of_le (E : M.Exact) {i j : Fin n} (le : i ≤ j)
    (tied : M.Tied pos (M.spectrum.eigenvalues j)) : M.Tied pos (M.spectrum.eigenvalues i) := by
  have ascends : M.spectrum.eigenvalues i ≤ M.spectrum.eigenvalues j := E.diagonalizes.ascending le
  have bounds := abs_le.1 tied
  refine abs_le.2 ⟨by linarith, ?_⟩
  linarith [E.least_le pos i, tieThreshold_pos]

/-- In the hard case the block that is counted consists of the tied eigenvalues. -/
theorem Exact.lt_iff_tied (E : M.Exact) (h : M.hardCase pos = (true, k)) (j : Fin n) :
    j.val < k ↔ M.Tied pos (M.spectrum.eigenvalues j) := by
  obtain ⟨-, -, negligible, apart⟩ := block_of_hardCase h
  refine ⟨fun lt => (negligible j lt).1, fun tied => ?_⟩
  by_contra beyond
  have le := not_lt.1 beyond
  exact absurd (E.tied_of_le (i := ⟨k, le.trans_lt j.isLt⟩) le tied) (apart _ rfl).not_ge

/-- The verdict looks at the tied projections one by one. -/
theorem Exact.hardCase_iff (E : M.Exact) : (M.hardCase pos).1 = true ↔ M.least pos < 0 ∧
    ∀ j, M.Tied pos (M.spectrum.eigenvalues j) → |M.projections j| ≤ tieThreshold := by
  constructor
  · intro hard
    have h : M.hardCase pos = (true, (M.hardCase pos).2) := Prod.ext hard rfl
    obtain ⟨negative, -, negligible, -⟩ := block_of_hardCase h
    exact ⟨negative, fun j tied => (negligible j ((E.lt_iff_tied h j).2 tied)).2⟩
  · rintro ⟨negative, small⟩
    exact hardCase_of_tied negative small

end Model

end TrustRegion
