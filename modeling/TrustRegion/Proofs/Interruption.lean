/-
  What a fault in the middle of an iteration leaves behind.

  An iteration writes in its state as it goes along, and nothing takes that back when one of its
  parts fails. A fault of the step solver comes before everything is written. At a fault of value
  and gradient the point has moved already, and what belongs to the old point stays with the new
  one. At a fault of the Hessian the trial has been kept: point, value, gradient and radius are the
  new ones, the Hessian is the old one (`update_interrupted`). So an iteration that is repeated
  after a fault starts from where the fault has left it, not from where it began (`not_atomic`).

  Whether the state is consistent there depends on the function, not on the fault alone. After a
  fault of value and gradient it is if the answers at the trial point are those at the old one
  (`State.Displaced.consistent_iff`), after one of the Hessian if the Hessian there is the same
  (`State.HalfKept.consistent_iff`); only a fault of the step solver leaves it consistent always.
-/
import TrustRegion.Proofs.Rejection
import TrustRegion.Proofs.Stopping

namespace TrustRegion

theorem bind_of_error {ε σ τ υ : Type} {act : EStateM ε σ τ} {next : τ → EStateM ε σ υ} {s t : σ}
    {fault : ε} (failed : act s = .error fault t) : (act >>= next) s = .error fault t := by
  show EStateM.bind act next s = _
  unfold EStateM.bind
  rw [failed]

variable {α β σ : Type} {n : Nat} [Scalar α]

/-- The point has moved by `s`; value, derivatives and radius are those from before. -/
structure State.Displaced (st st' : State α β n) (s : Vector α n) : Prop where
  /-- The point is the trial point. -/
  x : st'.x = st.x + s
  /-- The old point is remembered. -/
  xPrevious : st'.xPrevious = st.x
  /-- The value is the one at the old point. -/
  f : st'.f = st.f
  /-- The gradient is the one at the old point. -/
  g : st'.g = st.g
  /-- The Hessian is the one at the old point. -/
  H : st'.H = st.H
  /-- The radius is the old one. -/
  delta : st'.delta = st.delta

/-- Value, gradient and Hessian are answered alike at two points. -/
structure Answers.SameAt (answers : Answers α β n) (x y : Vector α n) : Prop where
  /-- The values are read alike. -/
  value : ((answers.value x).value : Except (Fault α) β) = (answers.value y).value
  /-- The gradients are the same. -/
  gradient : answers.gradient x = answers.gradient y
  /-- The Hessians are the same. -/
  hessian : answers.hessian x = answers.hessian y

/-- What belongs to the old point belongs to the new one if the answers at both are the same. -/
theorem State.Displaced.consistent_iff {st st' : State α β n} {s : Vector α n}
    {answers : Answers α β n} (displaced : st.Displaced st' s)
    (consistent : st.Consistent answers) :
    st'.Consistent answers ↔ answers.SameAt (st.x + s) st.x := by
  obtain ⟨x, -, f, g, H, -⟩ := displaced
  constructor
  · intro ⟨value, gradient, hessian⟩
    rw [x, f] at value
    rw [x, g, consistent.gradient, Tensor.ofVector_inj] at gradient
    rw [x, H, consistent.hessian, Tensor.ofSquare_inj] at hessian
    exact ⟨value.trans consistent.value.symm, gradient.symm, hessian.symm⟩
  · intro same
    constructor
    · rw [x, f, same.value]
      exact consistent.value
    · rw [x, g, same.gradient]
      exact consistent.gradient
    · rw [x, H, same.hessian]
      exact consistent.hessian

variable [Scalar β] [Embeds α β]

/-- All but the Hessian is as after a trial that was kept. -/
structure State.HalfKept (st st' : State α β n) (method : Method α) (T : Trial α β n) : Prop where
  /-- The point is the trial point. -/
  x : st'.x = st.x + T.s
  /-- The old point is remembered. -/
  xPrevious : st'.xPrevious = st.x
  /-- The value is the one at the trial point. -/
  f : st'.f = T.f
  /-- The old value is remembered. -/
  fPrevious : st'.fPrevious = st.f
  /-- The gradient is the one at the trial point. -/
  g : st'.g = T.g
  /-- The radius is the one that follows from the trial. -/
  delta : st'.delta = (T.judged method st).delta
  /-- The Hessian is the one at the old point. -/
  H : st'.H = st.H

/-- The old Hessian belongs to the new point if the Hessian there is the same. -/
theorem State.HalfKept.consistent_iff {st st' : State α β n} {method : Method α}
    {T : Trial α β n} {answers : Answers α β n} (half : st.HalfKept st' method T)
    (consistent : st.Consistent answers)
    (value : ((answers.value (st.x + T.s)).value : Except (Fault α) β) = .ok T.f)
    (gradient : T.g = .ofVector (answers.gradient (st.x + T.s))) :
    st'.Consistent answers ↔ answers.hessian (st.x + T.s) = answers.hessian st.x := by
  obtain ⟨x, -, f, -, g, -, H⟩ := half
  constructor
  · intro ⟨_, _, hessian⟩
    rw [x, H, consistent.hessian, Tensor.ofSquare_inj] at hessian
    exact hessian.symm
  · intro same
    constructor
    · rw [x, f]
      exact value
    · rw [x, g]
      exact gradient
    · rw [x, H, same]
      exact consistent.hessian

/-- The session when the point has moved by the step `s` of a proposal. -/
def Session.moved (S : Session α β σ n) (proposal : Proposal α) (s : Vector α n)
    (gPrevious : Tensor α) : Session α β σ n where
  state := { S.state.propose s proposal.outcome with
    xPrevious := S.state.x
    gPrevious := gPrevious }.move
  ledger := S.ledger
  journal := Iteration.noted S.journal proposal.remark

variable {evaluator : Evaluator α β σ} {method : Method α} {solver : StepSolver α β}
  {S : Session α β σ n} {fault : Fault α}

/-! ## The parts of an iteration -/

omit [Scalar α] [Scalar β] [Embeds α β] in
theorem Iteration.evaluate_of_error {τ : Type} {act : Action α σ τ} {ledger : σ}
    (raised : act S.ledger = .error fault ledger) :
    evaluate act S = .error fault { S with ledger := ledger } := by
  unfold evaluate
  rw [raised]

omit [Scalar α] [Scalar β] [Embeds α β] in
theorem Iteration.propose_of_error (raised : solver.propose S.state = .error fault) :
    propose solver S = .error fault S := by
  unfold propose
  rw [state_bind, raised]
  rfl

/-- An iteration whose step has been tried: what is left to do. -/
theorem update_eq_of_move {proposal : Proposal α} {s : Vector α n} {gPrevious : Tensor α}
    (proposed : solver.propose S.state = .ok proposal)
    (written : proposal.step.writeOverVector n = .ok s)
    (saved : S.state.g.writeOver S.state.gPrevious.shape = .ok gPrevious) :
    update evaluator method solver S =
      (do
        Iteration.tryOut evaluator
        Iteration.judge method
        Iteration.conclude evaluator method : Iteration α β σ n Unit)
      (S.moved proposal s gPrevious) := by
  have proposing := Iteration.propose_eq_ok.2 ⟨proposal, s, proposed, written, rfl⟩
  have moving : Iteration.move { S with
      state := S.state.propose s proposal.outcome
      journal := Iteration.noted S.journal proposal.remark } =
        .ok () (S.moved proposal s gPrevious) :=
    Iteration.move_eq_ok.2 ⟨gPrevious, saved, rfl⟩
  unfold update
  exact (bind_of_ok proposing).trans (bind_of_ok moving)

/-! ## The three faults -/

/-- A fault of the step solver leaves everything as it is. -/
theorem update_of_propose_error (raised : solver.propose S.state = .error fault) :
    update evaluator method solver S = .error fault S :=
  bind_of_error (Iteration.propose_of_error raised)

/-- A fault of value and gradient leaves the point where it has moved to. -/
theorem update_of_value_error {proposal : Proposal α} {s : Vector α n} {gPrevious : Tensor α}
    {ledger : σ} (proposed : solver.propose S.state = .ok proposal)
    (written : proposal.step.writeOverVector n = .ok s)
    (saved : S.state.g.writeOver S.state.gPrevious.shape = .ok gPrevious)
    (raised : evaluator.valueAndGradient (.ofVector (S.state.x + s)) S.ledger =
      .error fault ledger) :
    update evaluator method solver S =
      .error fault { S.moved proposal s gPrevious with ledger := ledger } := by
  have failed : Iteration.tryOut evaluator (S.moved proposal s gPrevious) =
      .error fault { S.moved proposal s gPrevious with ledger := ledger } := by
    unfold Iteration.tryOut
    rw [Iteration.state_bind]
    exact bind_of_error (Iteration.evaluate_of_error raised)
  rw [update_eq_of_move proposed written saved]
  exact bind_of_error failed

/-- A fault of the Hessian leaves a trial that is kept in all but the Hessian. -/
theorem update_of_hessian_error {T : Trial α β n} {ledger ledger' : σ}
    (happens : T.Happens evaluator solver S ledger)
    (high : ¬ T.ratio method S.state ≤ Embeds.embed method.eta)
    (raised : evaluator.hessian (.ofVector (S.state.x + T.s)) ledger = .error fault ledger') :
    update evaluator method solver S = .error fault { T.session method S ledger with
      state := (T.judged method S.state).accept
      ledger := ledger' } := by
  obtain ⟨proposed, written, saved, value, g, evaluated, read, received⟩ := happens
  have trying : Iteration.tryOut evaluator (S.moved T.proposal T.s T.gPrevious) = .ok ()
      { S.moved T.proposal T.s T.gPrevious with
        state := ((S.moved T.proposal T.s T.gPrevious).state.setValue T.f).setGradient T.g
        ledger := ledger } :=
    Iteration.tryOut_eq_ok.2 ⟨value, g, ledger, T.f, T.g, evaluated, read, received, rfl⟩
  have failed : Iteration.conclude evaluator method (T.session method S ledger) = .error fault
      { T.session method S ledger with
        state := (T.judged method S.state).accept
        ledger := ledger' } := by
    unfold Iteration.conclude
    rw [Iteration.state_bind]
    refine (congrFun (if_neg high) _).trans ?_
    rw [Iteration.change_bind]
    exact bind_of_error (Iteration.evaluate_of_error raised)
  rw [update_eq_of_move proposed written saved, bind_of_ok trying, bind_of_ok Iteration.judge_run]
  exact failed

/--
An iteration raises what its step solver, value and gradient or the Hessian raise. A fault of the
step solver leaves everything as it is. A fault of value and gradient leaves the point displaced and
value, derivatives and radius as they are; they belong to that point if and only if the answers
there are those at the old one. A fault of the Hessian leaves point, value, gradient and radius of
the trial, and the Hessian from before; it belongs to that point if and only if it is the same there.
-/
theorem update_interrupted (evaluator : Evaluator α β σ) (method : Method α)
    (solver : StepSolver α β) (S : Session α β σ n) :
    (∀ fault, solver.propose S.state = .error fault →
      update evaluator method solver S = .error fault S) ∧
    (∀ proposal s gPrevious fault ledger, solver.propose S.state = .ok proposal →
      proposal.step.writeOverVector n = .ok s →
      S.state.g.writeOver S.state.gPrevious.shape = .ok gPrevious →
      evaluator.valueAndGradient (.ofVector (S.state.x + s)) S.ledger = .error fault ledger →
      ∃ S', update evaluator method solver S = .error fault S' ∧ S'.ledger = ledger ∧
        S.state.Displaced S'.state s ∧
        ∀ answers : Answers α β n, S.state.Consistent answers →
          (S'.state.Consistent answers ↔ answers.SameAt (S.state.x + s) S.state.x)) ∧
    ∀ (T : Trial α β n) ledger fault ledger', T.Happens evaluator solver S ledger →
      ¬ T.ratio method S.state ≤ Embeds.embed method.eta →
      evaluator.hessian (.ofVector (S.state.x + T.s)) ledger = .error fault ledger' →
      ∃ S', update evaluator method solver S = .error fault S' ∧ S'.ledger = ledger' ∧
        S.state.HalfKept S'.state method T ∧
        ∀ answers : Answers α β n, evaluator.Gives answers → S.state.Consistent answers →
          (S'.state.Consistent answers ↔
            answers.hessian (S.state.x + T.s) = answers.hessian S.state.x) := by
  refine ⟨fun fault raised => update_of_propose_error raised, ?_, ?_⟩
  · intro proposal s gPrevious fault ledger proposed written saved raised
    have displaced : S.state.Displaced (S.moved proposal s gPrevious).state s :=
      ⟨rfl, rfl, rfl, rfl, rfl, rfl⟩
    exact ⟨_, update_of_value_error proposed written saved raised, rfl, displaced,
      fun answers consistent => displaced.consistent_iff consistent⟩
  · intro T ledger fault ledger' happens high raised
    have half : S.state.HalfKept (T.judged method S.state).accept method T :=
      ⟨rfl, rfl, rfl, rfl, rfl, rfl, rfl⟩
    refine ⟨_, update_of_hessian_error happens high raised, rfl, half, ?_⟩
    intro answers gives consistent
    obtain ⟨value, gradient⟩ := happens.eq_answers gives consistent
    exact half.consistent_iff consistent value gradient

/-! ## An evaluator that fails at some points -/

/-- The evaluator with faults at some points. -/
def Evaluator.failingAt (evaluator : Evaluator α β σ) (value hessian : Tensor α → Bool) :
    Evaluator α β σ where
  valueAndGradient := fun x =>
    if value x then throw .valueNotScalar else evaluator.valueAndGradient x
  hessian := fun x => if hessian x then throw .entryNotScalar else evaluator.hessian x
  counts := evaluator.counts

section

variable {value hessian : Tensor α → Bool} {t : Tensor α} {ledger : σ}

omit [Scalar α] [Scalar β] [Embeds α β]

theorem Evaluator.failingAt_value (fails : value t = true) :
    (evaluator.failingAt value hessian).valueAndGradient t ledger = .error .valueNotScalar ledger :=
  congrFun (if_pos fails) ledger

theorem Evaluator.failingAt_value_of_not (answers : value t = false) :
    (evaluator.failingAt value hessian).valueAndGradient t = evaluator.valueAndGradient t :=
  if_neg (ne_true_of_eq_false answers)

theorem Evaluator.failingAt_hessian (fails : hessian t = true) :
    (evaluator.failingAt value hessian).hessian t ledger = .error .entryNotScalar ledger :=
  congrFun (if_pos fails) ledger

theorem Evaluator.failingAt_hessian_of_not (answers : hessian t = false) :
    (evaluator.failingAt value hessian).hessian t = evaluator.hessian t :=
  if_neg (ne_true_of_eq_false answers)

/-- Where it does not fail, it answers as before. -/
theorem Evaluator.Gives.failingAt {answers : Answers α β n} (gives : evaluator.Gives answers)
    (value hessian : Tensor α → Bool) : (evaluator.failingAt value hessian).Gives answers := by
  constructor
  · intro x ledger reply ledger' answered
    cases fails : value (.ofVector x) with
    | true =>
      rw [failingAt_value fails] at answered
      cases answered
    | false =>
      rw [failingAt_value_of_not fails] at answered
      exact gives.valueAndGradient answered
  · intro x ledger H ledger' answered
    cases fails : hessian (.ofVector x) with
    | true =>
      rw [failingAt_hessian fails] at answered
      cases answered
    | false =>
      rw [failingAt_hessian_of_not fails] at answered
      exact gives.hessian answered

end

/-- A run on half the squared length, at its start. -/
def onHalfSquare {α : Type} [Scalar α] {n : Nat} (x : Vector α n) : Session α α Unit n :=
  ⟨halfSquareAt x, (), #[]⟩

/-- The points whose first coordinate is less than 1.5. -/
noncomputable def isLeft (x : Tensor ℝ) : Bool := decide (x.data.getD 0 0 < 1.5)

theorem isLeft_one : isLeft (.ofVector #v[1]) = true := by
  refine decide_eq_true ?_
  show (1 : ℝ) < 1.5
  norm_num

theorem isLeft_two : isLeft (.ofVector #v[2]) = false := by
  refine decide_eq_false ?_
  show ¬ (2 : ℝ) < 1.5
  norm_num

theorem half_dot_singleton (a : ℝ) : 0.5 * dot #v[a] #v[a] = a ^ 2 / 2 := by
  rw [real_dot, Fin.sum_univ_one]
  show 0.5 * (a * a) = _
  ring

theorem two_add_neg_one : (#v[2] + #v[-1] : Vector ℝ 1) = #v[1] := by
  rw [add_singleton]
  norm_num

theorem one_ne_two_singleton : (#v[1] : Vector ℝ 1) ≠ #v[2] := by
  intro same
  have entry : (1 : ℝ) = 2 := congrArg (fun v : Vector ℝ 1 => v.get 0) same
  norm_num at entry

/-- The run can start at 2. -/
theorem initialState_failingAt {value : Tensor ℝ → Bool}
    (answers : value (.ofVector #v[2]) = false) :
    initialState ((halfSquare 1).toEvaluator.failingAt value isLeft) Method.standard #v[2] () =
      .ok (halfSquareAt #v[2]) () := by
  refine initialState_eq_ok.2 ⟨(halfSquare 1).value #v[2], _, (), _, 0.5 * dot #v[2] #v[2], ?_, ?_,
    rfl, rfl⟩
  · rw [Evaluator.failingAt_value_of_not answers]
    exact (halfSquare 1).valueAndGradient_toEvaluator _
  · rw [Evaluator.failingAt_hessian_of_not isLeft_two]
    exact (halfSquare 1).hessian_toEvaluator _

/-- A step from 2 to 1 whose ratio is low, but not too low for it to be kept. -/
theorem exists_trial_toOne (hessian : Tensor ℝ → Bool) : ∃ T : Trial ℝ ℝ 1,
    T.Happens ((halfSquare 1).toEvaluator.failingAt (fun _ => false) hessian) (.always #v[-1] (-10))
      (onHalfSquare #v[2]) () ∧
    T.s = #v[-1] ∧ T.f = 0.5 ∧ T.g = .ofVector #v[1] ∧
    ¬ T.ratio Method.standard (halfSquareAt #v[2]) ≤ Embeds.embed (Method.standard : Method ℝ).eta ∧
    (T.judged Method.standard (halfSquareAt #v[2])).delta = 0.25 := by
  obtain ⟨proposal, proposed, step, model⟩ : ∃ proposal : Proposal ℝ,
      (StepSolver.always #v[-1] (-10)).propose (onHalfSquare #v[2] : Session ℝ ℝ Unit 1).state =
        .ok proposal ∧ proposal.step = .ofVector #v[-1] ∧ proposal.outcome.m = -10 :=
    ⟨_, rfl, rfl, rfl⟩
  have written {v : Vector ℝ 1} : (Tensor.ofVector v).writeOver [1] = .ok (.ofVector v) :=
    Tensor.writeOver_shape (List.cons_ne_nil 1 [])
  have value : (0.5 : ℝ) * dot #v[1] #v[1] = 0.5 := by
    rw [half_dot_singleton]
    norm_num
  have evaluated := (halfSquare 1).valueAndGradient_toEvaluator (#v[1] : Vector ℝ 1)
  have ratio : reductionRatio Method.standard proposal.outcome.m (0.5 * dot #v[2] #v[2]) 0.5 =
      (0.15 : ℝ) := by
    have noticed : negligibleModel (-10 : ℝ) = false := by
      norm_num [negligibleModel, Scalar.machineEpsilon, Scalar.abs]
    rw [model, half_dot_singleton]
    unfold reductionRatio
    rw [noticed]
    norm_num [Scalar.isFinite, Embeds.embed]
  let T : Trial ℝ ℝ 1 := ⟨proposal, #v[-1], .ofVector #v[2], 0.5, .ofVector #v[1]⟩
  have same : T.ratio Method.standard (halfSquareAt #v[2]) = 0.15 := ratio
  refine ⟨T, ⟨proposed, ?_, written, (halfSquare 1).value #v[1], .ofVector #v[1], ?_, ?_, written⟩,
    rfl, rfl, rfl, ?_, ?_⟩
  · rw [step]
    exact Tensor.writeOverVector_ofVector _
  · rw [Evaluator.failingAt_value_of_not rfl]
    show (halfSquare 1).toEvaluator.valueAndGradient (.ofVector (#v[2] + #v[-1])) () = _
    rw [two_add_neg_one]
    exact evaluated
  · exact congrArg Except.ok value
  · rw [same]
    norm_num [Method.standard, Embeds.embed]
  · have low : T.ratio Method.standard (halfSquareAt #v[2]) <
        Embeds.embed (Method.standard : Method ℝ).rhoLower := by
      rw [same]
      norm_num [Method.standard, Embeds.embed]
    rw [Trial.delta_judged low]
    show (1.0 : ℝ) * 0.25 = 0.25
    norm_num

/-- A step from 2 to 1 to where there is no value. -/
theorem valueAndGradient_toOne (hessian : Tensor ℝ → Bool) :
    ((halfSquare 1).toEvaluator.failingAt isLeft hessian).valueAndGradient
      (.ofVector ((halfSquareAt #v[2]).x + #v[-1])) () = .error .valueNotScalar () := by
  refine Evaluator.failingAt_value ?_
  show isLeft (.ofVector (#v[2] + #v[-1])) = true
  rw [two_add_neg_one]
  exact isLeft_one

/-- A step from 2 to 1 to where there is no Hessian. -/
theorem hessian_toOne (value : Tensor ℝ → Bool) :
    ((halfSquare 1).toEvaluator.failingAt value isLeft).hessian
      (.ofVector ((halfSquareAt #v[2]).x + #v[-1])) () = .error .entryNotScalar () := by
  refine Evaluator.failingAt_hessian ?_
  show isLeft (.ofVector (#v[2] + #v[-1])) = true
  rw [two_add_neg_one]
  exact isLeft_one

theorem writeOver_atTwo : (halfSquareAt #v[2] : State ℝ ℝ 1).g.writeOver
    (halfSquareAt #v[2] : State ℝ ℝ 1).gPrevious.shape = .ok (.ofVector #v[2]) :=
  Tensor.writeOver_shape (List.cons_ne_nil 1 [])

/--
A fault of the value and one of the Hessian, each after the point has moved from 2 to 1. After the
second one value, gradient and radius differ from those before, too.
-/
theorem not_atomic : ∃ S₁ S₂ : Session ℝ ℝ Unit 1,
    initialState ((halfSquare 1).toEvaluator.failingAt isLeft isLeft) Method.standard #v[2] () =
      .ok (halfSquareAt #v[2]) () ∧
    update ((halfSquare 1).toEvaluator.failingAt isLeft isLeft) Method.standard
      (.always #v[-1] (-10)) (onHalfSquare #v[2]) = .error .valueNotScalar S₁ ∧
    S₁.state.x ≠ #v[2] ∧
    initialState ((halfSquare 1).toEvaluator.failingAt (fun _ => false) isLeft) Method.standard
      #v[2] () = .ok (halfSquareAt #v[2]) () ∧
    update ((halfSquare 1).toEvaluator.failingAt (fun _ => false) isLeft) Method.standard
      (.always #v[-1] (-10)) (onHalfSquare #v[2]) = .error .entryNotScalar S₂ ∧
    S₂.state.x ≠ #v[2] ∧ S₂.state.f ≠ (halfSquareAt #v[2]).f ∧ S₂.state.g ≠ .ofVector #v[2] ∧
    S₂.state.delta ≠ (halfSquareAt (#v[2] : Vector ℝ 1)).delta := by
  obtain ⟨T, happens, step, value, gradient, high, radius⟩ := exists_trial_toOne isLeft
  have moved : ((halfSquareAt #v[2]).x + #v[-1] : Vector ℝ 1) = #v[1] := two_add_neg_one
  have raised : update ((halfSquare 1).toEvaluator.failingAt isLeft isLeft) Method.standard
      (.always #v[-1] (-10)) (onHalfSquare #v[2]) = .error .valueNotScalar _ :=
    update_of_value_error rfl (Tensor.writeOverVector_ofVector _) writeOver_atTwo
      (valueAndGradient_toOne isLeft)
  have raised' : update ((halfSquare 1).toEvaluator.failingAt (fun _ => false) isLeft)
      Method.standard (.always #v[-1] (-10)) (onHalfSquare #v[2]) = .error .entryNotScalar _ :=
    update_of_hessian_error happens high (step ▸ hessian_toOne _)
  refine ⟨_, _, initialState_failingAt isLeft_two, raised, ?_, initialState_failingAt rfl, raised',
    ?_, ?_, ?_, ?_⟩
  · show ((halfSquareAt #v[2]).x + #v[-1] : Vector ℝ 1) ≠ _
    rw [moved]
    exact one_ne_two_singleton
  · show (halfSquareAt #v[2]).x + T.s ≠ _
    rw [step, moved]
    exact one_ne_two_singleton
  · show T.f ≠ 0.5 * dot #v[2] #v[2]
    rw [value, half_dot_singleton]
    norm_num
  · show T.g ≠ _
    rw [gradient, Ne, Tensor.ofVector_inj]
    exact one_ne_two_singleton
  · show (T.judged Method.standard (halfSquareAt #v[2])).delta ≠ 1.0
    rw [radius]
    norm_num

/-- The solver that refuses every state. -/
def StepSolver.refusing {α β : Type} : StepSolver α β := ⟨fun _ _ => throw .radius⟩

/--
One fault of each kind. Half the squared length has another gradient after the step, and the same
Hessian.
-/
theorem update_interrupted_atTwo :
    update (halfSquare 1).toEvaluator Method.standard .refusing
      (onHalfSquare (#v[2] : Vector ℝ 1)) = .error .radius (onHalfSquare #v[2]) ∧
    (∃ S' : Session ℝ ℝ Unit 1,
      update ((halfSquare 1).toEvaluator.failingAt isLeft isLeft) Method.standard
        (.always #v[-1] (-10)) (onHalfSquare #v[2]) = .error .valueNotScalar S' ∧
      (halfSquareAt #v[2]).Displaced S'.state #v[-1] ∧ ¬ S'.state.Consistent (halfSquare 1)) ∧
    ∃ (T : Trial ℝ ℝ 1) (S' : Session ℝ ℝ Unit 1),
      update ((halfSquare 1).toEvaluator.failingAt (fun _ => false) isLeft) Method.standard
        (.always #v[-1] (-10)) (onHalfSquare #v[2]) = .error .entryNotScalar S' ∧
      (halfSquareAt #v[2]).HalfKept S'.state Method.standard T ∧
      S'.state.Consistent (halfSquare 1) := by
  obtain ⟨T, happens, step, -, -, high, -⟩ := exists_trial_toOne isLeft
  have consistent : (onHalfSquare (#v[2] : Vector ℝ 1)).state.Consistent (halfSquare 1) :=
    ⟨rfl, rfl, rfl⟩
  refine ⟨?_, ?_, T, ?_⟩
  · exact (update_interrupted _ _ _ (onHalfSquare #v[2])).1 _ rfl
  · obtain ⟨S', raised, -, displaced, belongs⟩ :=
      (update_interrupted ((halfSquare 1).toEvaluator.failingAt isLeft isLeft) Method.standard
        (.always #v[-1] (-10)) (onHalfSquare #v[2])).2.1 _ _ _ _ _ rfl
          (Tensor.writeOverVector_ofVector _) writeOver_atTwo (valueAndGradient_toOne isLeft)
    refine ⟨S', raised, displaced, fun consistent' => one_ne_two_singleton ?_⟩
    have gradient := ((belongs _ consistent).1 consistent').gradient
    exact two_add_neg_one.symm.trans gradient
  · obtain ⟨S', raised, -, half, belongs⟩ :=
      (update_interrupted ((halfSquare 1).toEvaluator.failingAt (fun _ => false) isLeft)
        Method.standard (.always #v[-1] (-10)) (onHalfSquare #v[2])).2.2 T _ _ _ happens high
          (step ▸ hessian_toOne _)
    have gives := (halfSquare 1).toEvaluator_gives.failingAt (fun _ => false) isLeft
    exact ⟨S', raised, half, (belongs _ gives consistent).2 rfl⟩

end TrustRegion
