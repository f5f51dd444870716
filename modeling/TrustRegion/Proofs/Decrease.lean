/-
  How far the objective comes down in a run.

  A step is kept only if it lowers the objective by more than `eta` times what the model predicts,
  as long as the prediction is not negligible and `rhoLower ≤ 1 + eta` lets failed trials fail.
  Added up over a run, the value has come down by at least `eta` times the sum of the predictions of
  the steps that were kept, and it is a number after every update (`updates_decrease`).
-/
import TrustRegion.Proofs.Rejection

namespace TrustRegion

namespace Extended

theorem number_sub_number (a b : ℝ) : (number a - number b : Extended) = number (a - b) :=
  congrArg number (sub_eq_add_neg a b).symm

theorem number_div_number (a : ℝ) {b : ℝ} (nonzero : b ≠ 0) :
    (number a / number b : Extended) = number (a / b) :=
  if_pos nonzero

end Extended

/-- A ratio above the acceptance threshold comes from a decrease of that size. -/
theorem lt_sub_of_reductionRatio {method : Method ℝ} (threshold : method.rhoLower ≤ 1 + method.eta)
    {m f : ℝ} {trial : Extended} (noticed : Scalar.machineEpsilon < |m|)
    (high : ¬ reductionRatio method m (.number f) trial ≤ Embeds.embed method.eta) :
    ∃ f', trial = .number f' ∧ method.eta * |m| < f - f' := by
  have low : (Embeds.embed (method.rhoLower - 1) : Extended) ≤ Embeds.embed method.eta := by
    rw [LawfulEmbeds.embed_le_embed]
    linarith
  have not_negligible : negligibleModel m = false := decide_eq_false (not_le.2 noticed)
  unfold reductionRatio at high
  cases trial with
  | infinity negative => exact absurd low high
  | nan => exact absurd low high
  | number f' =>
    have finite : Scalar.isFinite (Extended.number f') = true := rfl
    rw [if_neg (not_not.2 finite), not_negligible, if_neg Bool.false_ne_true] at high
    by_cases increase : 0 < m
    · rw [if_pos increase] at high
      exact absurd low high
    · have nonzero : m ≠ 0 := abs_pos.1 (LawfulOrder.machineEpsilon_pos.trans noticed)
      have negative : 0 < -m := neg_pos.2 (lt_of_le_of_ne (not_lt.1 increase) nonzero)
      have quotient : (.number f - .number f' : Extended) / Embeds.embed (-m) =
          Embeds.embed ((f - f') / -m) := by
        rw [Extended.number_sub_number]
        exact Extended.number_div_number _ negative.ne'
      rw [if_neg increase, quotient, LawfulEmbeds.embed_le_embed, not_le, lt_div_iff₀ negative] at high
      refine ⟨f', rfl, ?_⟩
      rwa [abs_of_neg (neg_pos.1 negative)]

variable {σ : Type} {n : Nat} {evaluator : Evaluator ℝ Extended σ} {method : Method ℝ}
  {solver : StepSolver ℝ Extended} {S S' : Session ℝ Extended σ n}

/-- An update keeps the value or, if it keeps the step, lowers it by part of the prediction. -/
theorem Turn.decrease (turn : Turn evaluator method solver S S')
    (threshold : method.rhoLower ≤ 1 + method.eta) {f : ℝ} (value : S.state.f = .number f)
    (noticed : S'.state.accepted = true → Scalar.machineEpsilon < |S'.state.m|) :
    ∃ f', S'.state.f = .number f' ∧
      (S'.state.accepted = true → method.eta * |S'.state.m| < f - f') ∧
      (S'.state.accepted = false → f' = f) := by
  cases turn with
  | takenBack happens low state =>
    rw [state]
    refine ⟨f, value, ?_, fun _ => rfl⟩
    intro accepted
    cases accepted
  | @kept T ledger H happens high evaluated state =>
    rw [state] at noticed ⊢
    unfold Trial.ratio at high
    rw [value] at high
    obtain ⟨f', trial, decrease⟩ := lt_sub_of_reductionRatio threshold (noticed rfl) high
    refine ⟨f', trial, fun _ => decrease, ?_⟩
    intro rejected
    cases rejected

/-- What the model predicted for the steps that were kept, in all. -/
def predicted (states : List (State ℝ Extended n)) : ℝ :=
  ((states.filter State.accepted).map fun st => |st.m|).sum

theorem predicted_cons (st : State ℝ Extended n) (states : List (State ℝ Extended n)) :
    predicted (st :: states) = (if st.accepted then |st.m| else 0) + predicted states := by
  unfold predicted
  rw [List.filter_cons]
  split
  · rw [List.map_cons, List.sum_cons]
  · rw [zero_add]

/-- The value of a state is a number that is not above the one before, and below it after a step. -/
def State.Descends (st st' : State ℝ Extended n) : Prop :=
  ∃ f f' : ℝ, st.f = .number f ∧ st'.f = .number f' ∧ f' ≤ f ∧ (st'.accepted = true → f' < f)

/--
After every update of a run that starts with a finite value, the value is finite and has come down
by at least `eta` times the predictions of the steps kept so far; it never grows, and every step
that is kept lowers it.
-/
theorem updates_decrease (valid : method.check = .ok ())
    (threshold : method.rhoLower ≤ 1 + method.eta) {f₀ : ℝ} (start : S.state.f = .number f₀)
    {solvers : List (StepSolver ℝ Extended)} {states : List (State ℝ Extended n)}
    (ran : updates evaluator (solvers.map fun solver => (method, solver)) S = .ok states S')
    (noticed : ∀ st ∈ states, st.accepted = true → Scalar.machineEpsilon < |st.m|) :
    (∀ k (inside : k < states.length), ∃ f, states[k].f = .number f ∧
      method.eta * predicted (states.take (k + 1)) ≤ f₀ - f) ∧
    List.IsChain State.Descends (S.state :: states) := by
  have eta_nonneg : 0 ≤ method.eta := ((Method.check_eq_ok_iff method).1 valid).2.2.1.1
  induction solvers generalizing S states f₀ with
  | nil =>
    cases ran
    exact ⟨fun k inside => absurd inside (Nat.not_lt_zero k), List.isChain_singleton _⟩
  | cons solver solvers ih =>
    obtain ⟨T, later, updated, ran', rfl⟩ := updates_cons_eq_ok.1 ran
    obtain ⟨f₁, value, kept, takenBack⟩ :=
      (turn_of_update updated).decrease threshold start (noticed _ List.mem_cons_self)
    obtain ⟨decrease, chain⟩ :=
      ih value ran' fun st mem => noticed st (List.mem_cons_of_mem _ mem)
    -- The first update alone lowers the value by its share.
    have first : method.eta * (if T.state.accepted then |T.state.m| else 0) ≤ f₀ - f₁ := by
      cases accepted : T.state.accepted with
      | true => exact (kept accepted).le
      | false =>
        rw [takenBack accepted]
        simp
    refine ⟨fun k inside => ?_, List.isChain_cons_cons.2 ⟨⟨f₀, f₁, start, value, ?_, ?_⟩, chain⟩⟩
    · cases k with
      | zero =>
        refine ⟨f₁, value, ?_⟩
        rw [List.take_succ_cons, List.take_zero, predicted_cons]
        simpa [predicted] using first
      | succ k =>
        obtain ⟨f, value', rest⟩ := decrease k (Nat.lt_of_succ_lt_succ inside)
        refine ⟨f, value', ?_⟩
        rw [List.take_succ_cons, predicted_cons, mul_add]
        linarith
    · have share : 0 ≤ method.eta * (if T.state.accepted then |T.state.m| else 0) :=
        mul_nonneg eta_nonneg (by split <;> positivity)
      linarith
    · intro accepted
      have share : 0 ≤ method.eta * |T.state.m| := mul_nonneg eta_nonneg (abs_nonneg _)
      linarith [kept accepted]

theorem updates_decrease_root : ∃ (states : List (State ℝ Extended 1))
    (S' : Session ℝ Extended Unit 1),
    (Method.standard : Method ℝ).check = .ok () ∧
    (Method.standard : Method ℝ).rhoLower ≤ 1 + Method.standard.eta ∧
    (atOne Method.standard).state.f = .number 1 ∧
    updates root.toEvaluator ([.always #v[-2] (-1), .always #v[-0.75] (-0.5)].map fun solver =>
      (Method.standard, solver)) (atOne Method.standard) = .ok states S' ∧
    (∀ st ∈ states, st.accepted = true → Scalar.machineEpsilon < |st.m|) ∧
    (∀ k (inside : k < states.length), ∃ f, states[k].f = .number f ∧
      (Method.standard : Method ℝ).eta * predicted (states.take (k + 1)) ≤ 1 - f) ∧
    List.IsChain State.Descends ((atOne Method.standard).state :: states) := by
  have valid : (Method.standard : Method ℝ).check = .ok () := by
    rw [Method.check_eq_ok_iff]
    norm_num [Method.standard]
  have threshold : (Method.standard : Method ℝ).rhoLower ≤ 1 + Method.standard.eta := by
    norm_num [Method.standard]
  have answering : ∀ choice ∈ ([.always #v[-2] (-1), .always #v[-0.75] (-0.5)].map fun solver =>
        (Method.standard, solver) : List (Method ℝ × StepSolver ℝ Extended)),
      ∀ st : State ℝ Extended 1, ∃ (proposal : Proposal ℝ) (s : Vector ℝ 1),
        choice.2.propose st = .ok proposal ∧ proposal.step = .ofVector s := by
    intro choice mem st
    rcases List.mem_pair.1 mem with rfl | rfl
    · exact ⟨_, #v[-2], rfl, rfl⟩
    · exact ⟨_, #v[-0.75], rfl, rfl⟩
  obtain ⟨states, S', ran⟩ := exists_updates root (S := atOne Method.standard)
    (fun x => ⟨_, rfl⟩) answering rfl rfl
  -- Both predictions are far above the machine epsilon, whichever step is kept.
  obtain ⟨T, later, first, ran', rfl⟩ := updates_cons_eq_ok.1 ran
  obtain ⟨_, later', second, ran'', rfl⟩ := updates_cons_eq_ok.1 ran'
  cases ran''
  have m_first : T.state.m = -1 :=
    ((turn_of_update first).step_eq (s := #v[-2]) rfl rfl).2
  have m_second : S'.state.m = -0.5 :=
    ((turn_of_update second).step_eq (s := #v[-0.75]) rfl rfl).2
  have noticed : ∀ st ∈ [T.state, S'.state], st.accepted = true →
      Scalar.machineEpsilon < |st.m| := by
    intro st mem _
    rcases List.mem_pair.1 mem with rfl | rfl
    · rw [m_first, machineEpsilon_eq]
      norm_num
    · rw [m_second, machineEpsilon_eq]
      norm_num
  exact ⟨_, _, valid, threshold, rfl, ran, noticed,
    updates_decrease valid threshold rfl ran noticed⟩

end TrustRegion
