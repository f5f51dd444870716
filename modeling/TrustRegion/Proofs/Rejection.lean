/-
  When a failed trial is taken back.

  A trial whose value is not a number, or whose model predicts an increase, gets the ratio that is
  one less than the lower threshold. That ratio is below the lower threshold, but it need not be
  below the acceptance threshold: the trial is taken back, with a quarter of the radius, if and only
  if `rhoLower - 1 ≤ eta` (`rolledBack_iff`). `nan_trial_kept` is a run of valid parameters that
  goes on from a point where the objective has no value.
-/
import TrustRegion.Proofs.Consistency
import TrustRegion.Proofs.Extended

namespace TrustRegion

variable {α β σ : Type} {n : Nat}

/-- The state is what it was but for the record of the trial, with a quarter of the radius. -/
structure State.RolledBack [Scalar α] (st st' : State α β n) : Prop where
  /-- The trial is not kept. -/
  rejected : st'.accepted = false
  /-- The point is the same. -/
  x : st'.x = st.x
  /-- The value is the same. -/
  f : st'.f = st.f
  /-- The gradient is the same. -/
  g : st'.g = st.g
  /-- The Hessian is the same. -/
  H : st'.H = st.H
  /-- The radius is divided by four. -/
  delta : st'.delta = st.delta * 0.25

variable [Scalar α] {evaluator : Evaluator α β σ} {method : Method α} {solver : StepSolver α β}
  {S S' : Session α β σ n}

/-- The evaluator has the value `f` at the trial point of an iteration from `S` to `S'`. -/
def TrialValue (evaluator : Evaluator α β σ) (S S' : Session α β σ n) (f : β) : Prop :=
  ∃ value g ledger, evaluator.valueAndGradient (.ofVector (S.state.x + S'.state.s)) S.ledger =
      .ok (value, g) ledger ∧ (value.value : Except (Fault α) β) = .ok f

theorem Trial.Happens.value_eq {T : Trial α β n} {ledger : σ} {f : β}
    (happens : T.Happens evaluator solver S ledger) (step : S'.state.s = T.s)
    (trial : TrialValue evaluator S S' f) : T.f = f := by
  obtain ⟨value, g, evaluated, read, -⟩ := happens.evaluated
  obtain ⟨value', g', ledger', evaluated', read'⟩ := trial
  rw [step, evaluated] at evaluated'
  cases evaluated'
  rw [read] at read'
  exact Except.ok.inj read'

variable [Scalar β]

/-- The value at the trial point is not finite, or the model predicts an increase there. -/
def TrialFails (evaluator : Evaluator α β σ) (S S' : Session α β σ n) : Prop :=
  (∃ f, TrialValue evaluator S S' f ∧ Scalar.isFinite f = false) ∨
    Scalar.machineEpsilon < S'.state.m

variable [Embeds α β]

/-- The model predicts an increase that is not negligible. -/
theorem not_negligibleModel [LawfulOrder α] {m : α} (increase : Scalar.machineEpsilon < m) :
    negligibleModel m = false ∧ 0 < m := by
  constructor
  · refine decide_eq_false fun small => ?_
    exact LawfulOrder.lt_irrefl _ (LawfulOrder.lt_of_lt_of_le (LawfulOrder.lt_abs increase) small)
  · exact LawfulOrder.lt_of_lt_of_le LawfulOrder.machineEpsilon_pos (LawfulOrder.le_of_lt increase)

/-- A failed trial has the ratio one below the lower threshold. -/
theorem Trial.Happens.ratio_of_fails [LawfulOrder α] {T : Trial α β n} {ledger : σ}
    (happens : T.Happens evaluator solver S ledger) (step : S'.state.s = T.s)
    (model : S'.state.m = T.proposal.outcome.m) (fails : TrialFails evaluator S S') :
    T.ratio method S.state = Embeds.embed (method.rhoLower - 1) := by
  unfold Trial.ratio reductionRatio
  rcases fails with ⟨f, trial, infinite⟩ | increase
  · rw [happens.value_eq step trial, infinite]
    exact if_pos Bool.false_ne_true
  · rw [model] at increase
    obtain ⟨noticed, positive⟩ := not_negligibleModel increase
    rw [noticed, if_neg Bool.false_ne_true, if_pos positive, ite_self]

/-- A ratio below the lower threshold divides the radius by four. -/
theorem Trial.delta_judged {T : Trial α β n} {st : State α β n}
    (low : T.ratio method st < Embeds.embed method.rhoLower) :
    (T.judged method st).delta = st.delta * 0.25 :=
  if_pos low

theorem Turn.rolledBack_iff_of_fails [LawfulOrder α] [LawfulEmbeds α β] (valid : method.check = .ok ())
    (turn : Turn evaluator method solver S S') (fails : TrialFails evaluator S S') :
    S.state.RolledBack S'.state ↔ method.rhoLower - 1 ≤ method.eta := by
  have eta_lt := ((Method.check_eq_ok_iff method).1 valid).2.2.1.2
  cases turn with
  | @takenBack T happens low state =>
    have ratio : T.ratio method S.state = Embeds.embed (method.rhoLower - 1) :=
      happens.ratio_of_fails (by rw [state]; rfl) (by rw [state]; rfl) fails
    rw [ratio] at low
    have below := LawfulEmbeds.embed_le_embed.1 low
    refine ⟨fun _ => below, fun _ => ?_⟩
    have radius : (T.judged method S.state).delta = S.state.delta * 0.25 := by
      refine Trial.delta_judged ?_
      rw [ratio]
      exact LawfulEmbeds.embed_lt_embed.2 (LawfulOrder.lt_of_le_of_lt below eta_lt)
    rw [state]
    exact ⟨rfl, rfl, rfl, rfl, rfl, radius⟩
  | @kept T ledger H happens high evaluated state =>
    have ratio : T.ratio method S.state = Embeds.embed (method.rhoLower - 1) :=
      happens.ratio_of_fails (by rw [state]; rfl) (by rw [state]; rfl) fails
    rw [ratio] at high
    constructor
    · intro rolledBack
      have rejected := rolledBack.rejected
      rw [state] at rejected
      cases rejected
    · intro below
      exact absurd (LawfulEmbeds.embed_le_embed.2 below) high

/-- A failed trial is rolled back if and only if its ratio is low enough for that. -/
theorem rolledBack_iff [LawfulOrder α] [LawfulEmbeds α β] (valid : method.check = .ok ())
    (returned : update evaluator method solver S = .ok () S')
    (fails : TrialFails evaluator S S') :
    S.state.RolledBack S'.state ↔ method.rhoLower - 1 ≤ method.eta :=
  (turn_of_update returned).rolledBack_iff_of_fails valid fails

/-- The square root of one number, with its derivatives; a negative number has none. -/
noncomputable def root : Answers ℝ Extended 1 where
  value := fun x => .scalar (Scalar.sqrt (Embeds.embed (x 0)))
  gradient := fun x => #v[0.5 / √(x 0)]
  hessian := fun x => #v[#v[-0.25 / (x 0 * √(x 0))]]

/-- A run at the point 1 of the square root. -/
noncomputable def atOne (method : Method ℝ) : Session ℝ Extended Unit 1 where
  state := State.start method #v[1] (.number 1) (.ofVector (root.gradient #v[1]))
    (.ofSquare (root.hessian #v[1]))
  ledger := ()
  journal := #[]

/-- A step of two to the left of 1 fails. -/
theorem exists_failed_trial (method : Method ℝ) :
    ∃ S', update root.toEvaluator method (.always #v[-2] (-1)) (atOne method) = .ok () S' ∧
      TrialFails root.toEvaluator (atOne method) S' := by
  have evaluated := root.valueAndGradient_toEvaluator ((atOne method).state.x + #v[-2])
  obtain ⟨proposal, proposed, step⟩ : ∃ proposal : Proposal ℝ,
      (StepSolver.always #v[-2] (-1)).propose (atOne method).state = .ok proposal ∧
        proposal.step = .ofVector #v[-2] :=
    ⟨_, rfl, rfl⟩
  obtain ⟨S', returned, -, -⟩ := exists_update method proposed step rfl rfl evaluated
    ⟨_, (), root.hessian_toEvaluator _⟩
  have point : ((atOne method).state.x + #v[-2]).get 0 = -1 := by
    rw [get_add]
    show (1 : ℝ) + -2 = -1
    norm_num
  have undefined : (root.value ((atOne method).state.x + #v[-2])).value =
      (.ok .nan : Except (Fault ℝ) Extended) := by
    show Except.ok (Extended.sqrt (.number (((atOne method).state.x + #v[-2]).get 0))) = _
    rw [point]
    exact congrArg Except.ok (if_pos (by norm_num))
  have trial : TrialValue root.toEvaluator (atOne method) S' .nan := by
    unfold TrialValue
    rw [((turn_of_update returned).step_eq (s := #v[-2]) rfl rfl).1]
    exact ⟨_, _, (), evaluated, undefined⟩
  exact ⟨S', returned, Or.inl ⟨.nan, trial, rfl⟩⟩

/-- Thresholds that pass every check, with the lower one far above the acceptance threshold. -/
noncomputable def lenient : Method ℝ where
  initialRadius := 1
  maxRadius := 100.0
  eta := 0.5
  rhoLower := 2.0
  rhoUpper := 3.0

/-- A trial without a value is kept. -/
theorem nan_trial_kept : ∃ S', lenient.check = .ok () ∧
    update root.toEvaluator lenient (.always #v[-2] (-1)) (atOne lenient) = .ok () S' ∧
    TrialFails root.toEvaluator (atOne lenient) S' ∧
    ¬ (atOne lenient).state.RolledBack S'.state := by
  have valid : lenient.check = .ok () := by
    rw [Method.check_eq_ok_iff]
    norm_num [lenient]
  obtain ⟨S', returned, fails⟩ := exists_failed_trial lenient
  refine ⟨S', valid, returned, fails, ?_⟩
  rw [(turn_of_update returned).rolledBack_iff_of_fails valid fails]
  norm_num [lenient]

theorem rolledBack_iff_standard : ∃ S', (Method.standard : Method ℝ).check = .ok () ∧
    update root.toEvaluator Method.standard (.always #v[-2] (-1)) (atOne Method.standard) =
      .ok () S' ∧
    TrialFails root.toEvaluator (atOne Method.standard) S' ∧
    ((atOne Method.standard).state.RolledBack S'.state ↔
      (Method.standard : Method ℝ).rhoLower - 1 ≤ Method.standard.eta) := by
  have valid : (Method.standard : Method ℝ).check = .ok () := by
    rw [Method.check_eq_ok_iff]
    norm_num [Method.standard]
  obtain ⟨S', returned, fails⟩ := exists_failed_trial Method.standard
  exact ⟨S', valid, returned, fails, rolledBack_iff valid returned fails⟩

end TrustRegion
