/-
  The least value of a model in a region, from below.

  Every multiplier that leaves no eigenvalue negative bounds the model from below on the region
  (`dual_le_value`), and one of them does so exactly (`exists_dual_eq`). So a value `v` is
  at most the least value in the region if and only if some multiplier says so
  (`lowerBound_iff`): a statement about all steps in the region becomes one about a single number.
-/
import TrustRegion.Proofs.Steps

namespace TrustRegion

open Matrix

namespace Model

variable {n : Nat} {M : Model ℝ n} {lam mu δ v : ℝ} {pos : 0 < n} {s t : Vector ℝ n}

/-! ## The dual value -/

/-- A multiplier that leaves no eigenvalue negative, and none zero that the gradient meets. -/
structure DualFeasible (M : Model ℝ n) (mu : ℝ) : Prop where
  /-- The multiplier itself is not negative. -/
  nonneg : 0 ≤ mu
  /-- No eigenvalue stays negative. -/
  lifted_nonneg : ∀ j, 0 ≤ M.lifted mu j
  /-- Where an eigenvalue becomes zero, the gradient has no component. -/
  flat : ∀ j, M.lifted mu j = 0 → M.projections j = 0

/-- The lower bound that a multiplier gives for the model in the region of radius `δ`. -/
noncomputable def dual (M : Model ℝ n) (δ mu : ℝ) : ℝ :=
  -0.5 * (∑ j, M.projections j ^ 2 / M.lifted mu j + mu * δ ^ 2)

theorem Definite.flat (definite : M.Definite mu) (j : Fin n) (zero : M.lifted mu j = 0) :
    M.projections j = 0 :=
  absurd zero (definite j).ne'

theorem Definite.dualFeasible (definite : M.Definite mu) (nonneg : 0 ≤ mu) : M.DualFeasible mu where
  nonneg := nonneg
  lifted_nonneg := fun j => (definite j).le
  flat := definite.flat

/-- A step whose coordinates solve `(H + μ I) t = -g`. -/
def Solves (M : Model ℝ n) (mu : ℝ) (t : Vector ℝ n) : Prop :=
  ∀ j, M.lifted mu j * M.spectrum.coordinates t j = -M.projections j

theorem Exact.solves_stepAt (E : M.Exact) (flat : ∀ j, M.lifted mu j = 0 → M.projections j = 0) :
    M.Solves mu (M.stepAt mu) := by
  intro j
  rw [E.coordinates_stepAt]
  by_cases zero : M.lifted mu j = 0
  · rw [zero, flat j zero]
    ring
  · field_simp

/-- How far a step is from solving the shifted system, coordinate by coordinate. -/
def residual (M : Model ℝ n) (mu : ℝ) (s : Vector ℝ n) (j : Fin n) : ℝ :=
  M.projections j + M.lifted mu j * M.spectrum.coordinates s j

theorem Solves.sum_residual (solves : M.Solves mu s) (weight : Fin n → ℝ) :
    ∑ j, M.residual mu s j * weight j = 0 := by
  refine Finset.sum_eq_zero fun j _ => ?_
  rw [residual, solves j, add_neg_cancel, zero_mul]

/-- The curvature of a step that solves the shifted system, by the projections. -/
theorem Solves.sum_lifted_mul_sq (solves : M.Solves mu s)
    (flat : ∀ j, M.lifted mu j = 0 → M.projections j = 0) :
    ∑ j, M.lifted mu j * M.spectrum.coordinates s j ^ 2 =
      ∑ j, M.projections j ^ 2 / M.lifted mu j := by
  refine Finset.sum_congr rfl fun j _ => ?_
  by_cases zero : M.lifted mu j = 0
  · rw [zero, flat j zero]
    ring
  · rw [← neg_sq (M.projections j), ← solves j]
    field_simp

/-- The model around a step: a square, the residual, and the difference of the lengths. -/
theorem Exact.value_sub_value (E : M.Exact) (mu : ℝ) (s t : Vector ℝ n) :
    M.value t - M.value s =
      (∑ j, M.lifted mu j * (M.spectrum.coordinates t j - M.spectrum.coordinates s j) ^ 2) / 2 +
        ∑ j, M.residual mu s j * (M.spectrum.coordinates t j - M.spectrum.coordinates s j) +
        mu * (dot s s - dot t t) / 2 := by
  rw [E.value_eq, E.value_eq, E.diagonalizes.dot_self_eq, E.diagonalizes.dot_self_eq,
    ← Finset.sum_sub_distrib, ← Finset.sum_sub_distrib, Finset.mul_sum, Finset.sum_div,
    Finset.sum_div, ← Finset.sum_add_distrib, ← Finset.sum_add_distrib]
  refine Finset.sum_congr rfl fun j _ => ?_
  unfold residual lifted
  ring

theorem Exact.value_eq_residual (E : M.Exact) (mu : ℝ) (s : Vector ℝ n) :
    M.value s = ∑ j, M.residual mu s j * M.spectrum.coordinates s j -
      ((∑ j, M.lifted mu j * M.spectrum.coordinates s j ^ 2) + mu * dot s s) / 2 := by
  rw [E.value_eq, E.diagonalizes.dot_self_eq, Finset.mul_sum, ← Finset.sum_add_distrib,
    Finset.sum_div, ← Finset.sum_sub_distrib]
  refine Finset.sum_congr rfl fun j _ => ?_
  unfold residual lifted
  ring

/-- Compared with a step that solves the shifted system, any other is worse by a square. -/
theorem Exact.value_sub_of_solves (E : M.Exact) (solves : M.Solves mu s) (t : Vector ℝ n) :
    M.value t - M.value s =
      (∑ j, M.lifted mu j * (M.spectrum.coordinates t j - M.spectrum.coordinates s j) ^ 2) / 2 +
        mu * (dot s s - dot t t) / 2 := by
  rw [E.value_sub_value mu s t, solves.sum_residual, add_zero]

/-- The value of a step that solves the shifted system. -/
theorem Exact.value_of_solves (E : M.Exact) (solves : M.Solves mu s) :
    M.value s =
      -((∑ j, M.lifted mu j * M.spectrum.coordinates s j ^ 2) + mu * dot s s) / 2 := by
  rw [E.value_eq_residual mu s, solves.sum_residual]
  ring

/-- A step that gains nothing by the term of the multiplier is worse than the multiplier's own. -/
theorem Exact.value_stepAt_lt (E : M.Exact) (definite : M.Definite mu)
    (room : 0 ≤ mu * (dot (M.stepAt mu) (M.stepAt mu) - dot t t)) (other : t ≠ M.stepAt mu) :
    M.value (M.stepAt mu) < M.value t := by
  have worse := E.value_sub_of_solves (E.solves_stepAt definite.flat) t
  have apart : ∃ j, M.spectrum.coordinates t j - M.spectrum.coordinates (M.stepAt mu) j ≠ 0 := by
    by_contra same
    push Not at same
    exact other (E.diagonalizes.ext (funext fun j => sub_eq_zero.1 (same j)))
  obtain ⟨j, apart⟩ := apart
  have squares : 0 < ∑ j, M.lifted mu j *
      (M.spectrum.coordinates t j - M.spectrum.coordinates (M.stepAt mu) j) ^ 2 :=
    Finset.sum_pos' (fun i _ => mul_nonneg (definite i).le (sq_nonneg _))
      ⟨j, Finset.mem_univ j, mul_pos (definite j) (by positivity)⟩
  linarith

/-- The dual value, by any step that solves the shifted system. -/
theorem Exact.dual_eq (E : M.Exact) (feasible : M.DualFeasible mu) (solves : M.Solves mu s) (δ : ℝ) :
    M.dual δ mu = M.value s + mu * (dot s s - δ ^ 2) / 2 := by
  rw [E.value_of_solves solves, dual, solves.sum_lifted_mul_sq feasible.flat]
  ring

/-- No step in the region goes below a dual value. -/
theorem Exact.dual_le_value (E : M.Exact) (feasible : M.DualFeasible mu)
    (inside : dot t t ≤ δ ^ 2) : M.dual δ mu ≤ M.value t := by
  have solves := E.solves_stepAt feasible.flat
  have worse := E.value_sub_of_solves solves t
  have squares : 0 ≤ ∑ j, M.lifted mu j *
      (M.spectrum.coordinates t j - M.spectrum.coordinates (M.stepAt mu) j) ^ 2 :=
    Finset.sum_nonneg fun j _ => mul_nonneg (feasible.lifted_nonneg j) (sq_nonneg _)
  have room := mul_le_mul_of_nonneg_left inside feasible.nonneg
  rw [E.dual_eq feasible solves]
  linarith

/-! ## The multiplier of the minimizer -/

theorem DualFeasible.mono (feasible : M.DualFeasible mu) (le : mu ≤ lam) : M.DualFeasible lam := by
  refine ⟨feasible.nonneg.trans le, fun j => (feasible.lifted_nonneg j).trans (lifted_mono le j), ?_⟩
  intro j zero
  refine feasible.flat j (le_antisymm ?_ (feasible.lifted_nonneg j))
  rw [← zero]
  exact lifted_mono le j

/-- The length changes continuously, also where it starts at a singular matrix. -/
theorem DualFeasible.continuousOn_squaredLength (feasible : M.DualFeasible mu) :
    ContinuousOn (fun lam => M.squaredLength lam 0) (Set.Ici mu) := by
  simp only [squaredLength_zero]
  refine continuousOn_finsetSum _ fun j _ => ?_
  by_cases zero : M.projections j = 0
  · rw [zero]
    simp only [zero_pow two_ne_zero, zero_div]
    exact continuousOn_const
  · have lifted_pos : 0 < M.lifted mu j :=
      (feasible.lifted_nonneg j).lt_of_ne' fun h => zero (feasible.flat j h)
    refine continuousOn_const.div ?_ ?_
    · unfold lifted
      fun_prop
    · intro lam le
      exact pow_ne_zero 2 (lifted_pos.trans_le (lifted_mono (Set.mem_Ici.1 le) j)).ne'

/-- If all eigenvalues are lifted far enough, the step is short. -/
theorem Exact.squaredLength_le_of_far (E : M.Exact) {c : ℝ} (c_pos : 0 < c)
    (far : ∀ j, c ≤ M.lifted lam j) (weak : dot M.gradient M.gradient ≤ (c * δ) ^ 2) :
    M.squaredLength lam 0 ≤ δ ^ 2 := by
  have bounded := pow_le_pow_left₀ (mul_nonneg c_pos.le (M.stepLength_nonneg lam))
    (E.mul_stepLength_le c_pos far) 2
  rw [mul_pow, stepLength_sq, norm_sq] at bounded
  rw [mul_pow] at weak
  exact le_of_mul_le_mul_left (bounded.trans weak) (by positivity)

/-- From a long step on, some larger multiplier has a step that ends on the boundary. -/
theorem Exact.exists_squaredLength_eq (E : M.Exact) (delta_pos : 0 < δ)
    (feasible : M.DualFeasible mu) (long : δ ^ 2 ≤ M.squaredLength mu 0) :
    ∃ lam, mu ≤ lam ∧ M.squaredLength lam 0 = δ ^ 2 := by
  set c := norm M.gradient / δ + 1 with c_def
  have c_pos : 0 < c := by
    have : 0 ≤ norm M.gradient / δ := div_nonneg (norm_nonneg _) delta_pos.le
    linarith
  have short : M.squaredLength (mu + c) 0 ≤ δ ^ 2 := by
    refine E.squaredLength_le_of_far c_pos (fun j => ?_) ?_
    · rw [lifted_add]
      linarith [feasible.lifted_nonneg j]
    · have scaled : c * δ = norm M.gradient + δ := by
        rw [c_def]
        field_simp
      rw [← norm_sq, scaled]
      exact pow_le_pow_left₀ (norm_nonneg _) (by linarith) 2
  have continuous : ContinuousOn (fun lam => M.squaredLength lam 0) (Set.Icc mu (mu + c)) :=
    feasible.continuousOn_squaredLength.mono Set.Icc_subset_Ici_self
  obtain ⟨lam, within, hit⟩ :=
    intermediate_value_Icc' (by linarith : mu ≤ mu + c) continuous ⟨short, long⟩
  exact ⟨lam, within.1, hit⟩

/-- The least multiplier that leaves no eigenvalue negative. -/
noncomputable def leastMultiplier (pos : 0 < n) (M : Model ℝ n) : ℝ := max 0 (-M.least pos)

theorem Exact.lifted_leastMultiplier (E : M.Exact) (pos : 0 < n) (j : Fin n) :
    0 ≤ M.lifted (M.leastMultiplier pos) j := by
  have lifts : -M.least pos ≤ M.leastMultiplier pos := le_max_right _ _
  linarith [E.add_least_le_lifted pos (M.leastMultiplier pos) j]

/-- A multiplier whose step ends on the boundary bounds the model exactly. -/
theorem Exact.dual_eq_of_boundary (E : M.Exact) (delta_pos : 0 < δ) (feasible : M.DualFeasible mu)
    (long : δ ^ 2 ≤ M.squaredLength mu 0) :
    ∃ lam t, M.DualFeasible lam ∧ dot t t ≤ δ ^ 2 ∧ M.dual δ lam = M.value t := by
  obtain ⟨lam, le, hit⟩ := E.exists_squaredLength_eq delta_pos feasible long
  have feasible' := feasible.mono le
  refine ⟨lam, M.stepAt lam, feasible', ?_, ?_⟩
  · rw [E.dot_stepAt, hit]
  · rw [E.dual_eq feasible' (E.solves_stepAt feasible'.flat), E.dot_stepAt, hit]
    ring

/-- Where the first eigenvalue is lifted to zero, steps along its eigenvector change no residual. -/
theorem Exact.solves_completion (E : M.Exact) (pos : 0 < n)
    (feasible : M.DualFeasible (-M.least pos)) (tau : ℝ) :
    M.Solves (-M.least pos) (M.eigenvectorStep pos (-M.least pos) tau 1) := by
  have lifted_first : M.lifted (-M.least pos) ⟨0, pos⟩ = 0 := neg_add_cancel _
  intro j
  rw [E.coordinates_eigenvectorStep]
  by_cases start : j = ⟨0, pos⟩
  · rw [start, lifted_first, feasible.flat _ lifted_first]
    ring
  · have le : 1 ≤ j.val := Nat.one_le_iff_ne_zero.2 fun h => start (Fin.ext h)
    rw [completed_of_le start le]
    by_cases zero : M.lifted (-M.least pos) j = 0
    · rw [zero, feasible.flat j zero]
      ring
    · field_simp

/-- A flat negative eigenvalue: the step is completed to the boundary along its eigenvector. -/
theorem Exact.dual_eq_of_completion (E : M.Exact) (pos : 0 < n)
    (feasible : M.DualFeasible (-M.least pos)) (short : M.squaredLength (-M.least pos) 0 ≤ δ ^ 2) :
    ∃ t, dot t t ≤ δ ^ 2 ∧ M.dual δ (-M.least pos) = M.value t := by
  set mu := -M.least pos
  have flat_first : M.projections ⟨0, pos⟩ = 0 := feasible.flat _ (neg_add_cancel _)
  have rest : M.squaredLength mu 1 = M.squaredLength mu 0 := by
    rw [squaredLength_eq, squaredLength_zero]
    refine Finset.sum_congr rfl fun j _ => ?_
    split
    · rfl
    · next before =>
      have start : j = ⟨0, pos⟩ := Fin.ext (by simpa using before)
      rw [start, flat_first]
      ring
  set tau := √(δ ^ 2 - M.squaredLength mu 0)
  have tau_sq : tau ^ 2 = δ ^ 2 - M.squaredLength mu 0 := Real.sq_sqrt (sub_nonneg.2 short)
  have boundary : dot (M.eigenvectorStep pos mu tau 1) (M.eigenvectorStep pos mu tau 1) = δ ^ 2 := by
    rw [E.dot_eigenvectorStep Nat.one_pos, rest, tau_sq]
    ring
  refine ⟨_, boundary.le, ?_⟩
  rw [E.dual_eq feasible (E.solves_completion pos feasible tau), boundary]
  ring

/-- The gradient meets an eigenvalue that is lifted to zero, so steps of any length occur. -/
theorem Exact.dual_eq_of_pole (E : M.Exact) (delta_pos : 0 < δ) (nonneg : 0 ≤ mu)
    (lifted_nonneg : ∀ j, 0 ≤ M.lifted mu j) {j : Fin n} (zero : M.lifted mu j = 0)
    (nonzero : M.projections j ≠ 0) :
    ∃ lam t, M.DualFeasible lam ∧ dot t t ≤ δ ^ 2 ∧ M.dual δ lam = M.value t := by
  have lift_pos : 0 < |M.projections j| / δ := div_pos (abs_pos.2 nonzero) delta_pos
  have definite : M.Definite (mu + |M.projections j| / δ) := by
    intro i
    rw [lifted_add]
    linarith [lifted_nonneg i]
  have term : M.projections j ^ 2 / M.lifted (mu + |M.projections j| / δ) j ^ 2 = δ ^ 2 := by
    rw [lifted_add, zero, zero_add, div_pow, sq_abs]
    field_simp
  refine E.dual_eq_of_boundary delta_pos (definite.dualFeasible (by linarith)) ?_
  rw [squaredLength_zero, ← term]
  exact Finset.single_le_sum (f := fun i => M.projections i ^ 2 /
    M.lifted (mu + |M.projections j| / δ) i ^ 2) (fun i _ => by positivity) (Finset.mem_univ j)

/-- Some multiplier bounds the model exactly: its bound is the value of a step in the region. -/
theorem Exact.exists_dual_eq (E : M.Exact) (pos : 0 < n) (delta_pos : 0 < δ) :
    ∃ mu t, M.DualFeasible mu ∧ dot t t ≤ δ ^ 2 ∧ M.dual δ mu = M.value t := by
  set mu := M.leastMultiplier pos with mu_def
  have nonneg : 0 ≤ mu := le_max_left _ _
  have lifted_nonneg := E.lifted_leastMultiplier pos
  by_cases flat : ∀ j, M.lifted mu j = 0 → M.projections j = 0
  · have feasible : M.DualFeasible mu := ⟨nonneg, lifted_nonneg, flat⟩
    by_cases long : δ ^ 2 ≤ M.squaredLength mu 0
    · exact E.dual_eq_of_boundary delta_pos feasible long
    · rw [not_le] at long
      by_cases negative : M.least pos < 0
      · have lifts : mu = -M.least pos := max_eq_right (by linarith)
        rw [lifts] at feasible long
        obtain ⟨t, inside, same⟩ := E.dual_eq_of_completion pos feasible long.le
        exact ⟨_, t, feasible, inside, same⟩
      · have free : mu = 0 := max_eq_left (by linarith)
        refine ⟨mu, M.stepAt mu, feasible, ?_, ?_⟩
        · rw [E.dot_stepAt]
          exact long.le
        · rw [E.dual_eq feasible (E.solves_stepAt flat), free]
          ring
  · push Not at flat
    obtain ⟨j, zero, nonzero⟩ := flat
    exact E.dual_eq_of_pole delta_pos nonneg lifted_nonneg zero nonzero

/-- A lower bound of the model in the region is one that some multiplier gives. -/
theorem Exact.lowerBound_iff (E : M.Exact) (pos : 0 < n) (delta_pos : 0 < δ) :
    (∀ t, norm t ≤ δ → v ≤ M.value t) ↔ ∃ mu, M.DualFeasible mu ∧ v ≤ M.dual δ mu := by
  constructor
  · intro below
    obtain ⟨mu, t, feasible, inside, same⟩ := E.exists_dual_eq pos delta_pos
    refine ⟨mu, feasible, ?_⟩
    rw [same]
    exact below t ((norm_le_iff t delta_pos.le).2 inside)
  · rintro ⟨mu, feasible, below⟩ t inside
    exact below.trans (E.dual_le_value feasible ((norm_le_iff t delta_pos.le).1 inside))

end Model

end TrustRegion
