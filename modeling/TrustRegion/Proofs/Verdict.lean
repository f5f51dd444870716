/-
  What the verdict of a run is worth.

  A run says whether it succeeded, which tests held and why it ended. The tests are carried along
  the run and are not made after a step that was taken back, so what is reported at the end has to
  be followed through all iterations. Two facts hold along every course: a run has the reason to
  stop that its tests give, unless the observer has one (`Course.stop_eq`), and the gradient of a
  state has the entries of an answer that the evaluator gave at its point (`Course.askedFor`). So a
  test that is reported holds at the point that is returned (`minimize_verdict`).
-/
import TrustRegion.Proofs.Extended
import TrustRegion.Proofs.Stopping

namespace TrustRegion

/-! ## The largest entry -/

section Largest

variable {α : Type} [Scalar α]

/-- An array with entries, all of them below a bound in absolute value. -/
structure Tensor.Below (t : Tensor α) (bound : α) : Prop where
  /-- There are entries. -/
  nonempty : t.data.size ≠ 0
  /-- They are below the bound. -/
  entries : ∀ a ∈ t.data, Scalar.abs a < bound

theorem Tolerances.nonempty_of_assessStart {tol : Tolerances α} {g : Tensor α} {small : Bool}
    (assessed : tol.assessStart g = .ok small) : g.data.size ≠ 0 := by
  obtain ⟨first, rest, entries, -⟩ := assessStart_eq_ok.1 assessed
  rw [← Array.length_toList, entries]
  exact Nat.succ_ne_zero _

variable [LawfulComparison α] {acc a bound : α} {xs : List α}

theorem lt_of_maxStep_lt (below : Scalar.maxStep acc a < bound) : acc < bound ∧ a < bound := by
  have number {b : α} (lt : b < bound) : ¬ Scalar.isNaN b = true := by
    have le : b ≤ b := LawfulComparison.le_self_of_lt lt
    simp [Scalar.isNaN, le]
  unfold Scalar.maxStep at below
  split at below
  · next nan => exact absurd nan (number below)
  · next acc_number =>
    split at below
    · next nan => exact absurd nan (number below)
    · next a_number =>
      have acc_self : acc ≤ acc := by simpa [Scalar.isNaN] using acc_number
      have a_self : a ≤ a := by simpa [Scalar.isNaN] using a_number
      unfold Scalar.max at below
      split at below
      · next lt => exact ⟨LawfulOrder.lt_of_lt_of_le lt (LawfulOrder.le_of_lt below), below⟩
      · next not_lt =>
        have le := LawfulComparison.le_of_not_lt acc_self a_self not_lt
        exact ⟨below, LawfulOrder.lt_of_le_of_lt le below⟩

omit [LawfulComparison α] in
theorem maxStep_lt (acc_lt : acc < bound) (a_lt : a < bound) : Scalar.maxStep acc a < bound := by
  unfold Scalar.maxStep Scalar.max
  split
  · exact acc_lt
  · split
    · exact a_lt
    · split
      · exact a_lt
      · exact acc_lt

/-- A running maximum is below a bound if it starts below and meets only what is below. -/
theorem foldl_maxStep_lt_iff :
    xs.foldl Scalar.maxStep acc < bound ↔ acc < bound ∧ ∀ a ∈ xs, a < bound := by
  induction xs generalizing acc with
  | nil => simp
  | cons b xs ih =>
    have step : Scalar.maxStep acc b < bound ↔ acc < bound ∧ b < bound :=
      ⟨lt_of_maxStep_lt, fun ⟨acc_lt, b_lt⟩ => maxStep_lt acc_lt b_lt⟩
    rw [List.foldl_cons, ih, step, List.forall_mem_cons, and_assoc]

/-- The test is a bound on every entry, and the tolerance itself is above zero. -/
theorem Tolerances.allBelow_iff :
    allBelow bound xs = true ↔ 0 < bound ∧ ∀ a ∈ xs, Scalar.abs a < bound := by
  unfold allBelow Scalar.maximum
  rw [decide_eq_true_iff, foldl_maxStep_lt_iff]
  simp

/-- The test before the first iteration is a bound on every component. -/
theorem Tolerances.assessStart_iff {tol : Tolerances α} {g : Tensor α} {small : Bool}
    (assessed : tol.assessStart g = .ok small) :
    small = true ↔ ∀ a ∈ g.data, Scalar.abs a < tol.gradient := by
  obtain ⟨first, rest, entries, rfl⟩ := assessStart_eq_ok.1 assessed
  rw [decide_eq_true_iff, foldl_maxStep_lt_iff]
  simp [← Array.mem_toList_iff, entries]

end Largest

/-! ## Tests and reasons to stop -/

namespace Convergence

@[simp] theorem stop_none : Convergence.none.stop = .budget := rfl

theorem converged_stop (c : Convergence) : c.stop.converged = c.any := by
  obtain ⟨point, value, gradient⟩ := c
  cases point <;> cases value <;> cases gradient <;> rfl

theorem any_eq_true_iff (c : Convergence) :
    c.any = true ↔ c.point = true ∨ c.value = true ∨ c.gradient = true := by
  unfold any
  rw [Bool.or_eq_true, Bool.or_eq_true, or_assoc]

theorem eq_none {c : Convergence} (none_holds : c.any = false) : c = none := by
  obtain ⟨point, value, gradient⟩ := c
  cases point <;> cases value <;> cases gradient <;> first | rfl | cases none_holds

/-- The message about tests that hold: gradient before function before step. -/
theorem message_stop {c : Convergence} (holds : c.any = true) : c.stop.message =
    if c.gradient then "Gradient tolerance satisfied."
    else if c.value then "Function tolerance satisfied."
    else "Step tolerance satisfied." := by
  obtain ⟨point, value, gradient⟩ := c
  cases point <;> cases value <;> cases gradient <;> first | rfl | cases holds

end Convergence

variable {α β σ : Type} {n : Nat} [Scalar α] [Scalar β] [Embeds α β]
  {evaluator : Evaluator α β σ} {options : Options α β} {method : Method α}
  {solver : StepSolver α β} {x : Vector α n} {books books' : Books α β σ} {k : Nat}
  {T T' : Session α β σ n} {p : Progress α β n} {r : Result α β n} {S : Nat → State α β n}

theorem Turn.previous (turn : Turn evaluator method solver T T') :
    T'.state.xPrevious = T.state.x ∧ T'.state.fPrevious = T.state.f := by
  cases turn with
  | takenBack happens low state =>
    rw [state]
    exact ⟨rfl, rfl⟩
  | kept happens high evaluated state =>
    rw [state]
    exact ⟨rfl, rfl⟩

/-- The observer has been asked, and asks to stop. -/
def Options.Interrupts (options : Options α β) (k : Nat) (st : State α β n) : Prop :=
  0 < k ∧ Progress.observed options k st = true

/--
A run has the reason to stop that its tests give, unless the observer asks to stop; in that case no
test holds.
-/
theorem Course.stop_eq (course : Course evaluator options solver x books k T p) :
    (¬ options.Interrupts k T.state ∧ p.stop = p.convergence.stop) ∨
      (options.Interrupts k T.state ∧ p.stop = .observer ∧ p.convergence = .none) := by
  induction course with
  | start evaluated begun =>
    obtain ⟨small, -, rfl⟩ := Progress.begin_eq_ok.1 begun
    refine Or.inl ⟨fun interrupted => Nat.lt_irrefl 0 interrupted.1, ?_⟩
    cases small <;> rfl
  | @next k T T' p course going updated ih =>
    -- As the run goes on, no test held before.
    have none_held : p.convergence = .none := by
      rcases ih with ⟨-, stop⟩ | ⟨-, stop, -⟩
      · rw [going] at stop
        exact Convergence.eq_none ((Convergence.stop_eq_budget_iff _).1 stop.symm)
      · rw [going] at stop
        cases stop
    have number : p.iterations = k := course.iterations_eq
    by_cases observed : Progress.observed options (k + 1) T'.state = true
    · refine Or.inr ⟨⟨Nat.succ_pos k, observed⟩, ?_, ?_⟩
      · simp [Progress.after, Options.stopAt, number, observed]
      · simp [Progress.after, number, observed, none_held]
    · refine Or.inl ⟨fun interrupted => observed interrupted.2, ?_⟩
      cases accepted : T'.state.accepted with
      | true => simp [Progress.after, Options.stopAt, number, observed, accepted]
      | false => simp [Progress.after, Options.stopAt, number, observed, accepted, none_held]

theorem Course.converged_eq (course : Course evaluator options solver x books k T p) :
    p.stop.converged = p.convergence.any := by
  rcases course.stop_eq with ⟨-, stop⟩ | ⟨-, stop, none_holds⟩
  · rw [stop, Convergence.converged_stop]
  · rw [stop, none_holds]
    rfl

/-- Success comes from tests that were made in the last iteration, after a step that was kept. -/
theorem Course.tested (course : Course evaluator options solver x books (k + 1) T p)
    (converged : p.stop.converged = true) :
    T.state.accepted = true ∧ p.convergence = T.state.tests options.tolerances := by
  have stop := course.stop_succ
  unfold Options.stopAt at stop
  cases course with
  | @next _ T T' p course going updated =>
    have number : p.iterations = k := course.iterations_eq
    change _ = if Progress.observed options (k + 1) T'.state = true then _ else
      if T'.state.accepted = true then _ else _ at stop
    split at stop
    · rw [stop] at converged
      cases converged
    · next unobserved =>
      split at stop
      · next accepted =>
        refine ⟨accepted, ?_⟩
        show (p.after options T'.state).convergence = T'.state.tests options.tolerances
        simp [Progress.after, number, unobserved, accepted]
      · rw [stop] at converged
        cases converged

theorem Course.accepted_of_converged (course : Course evaluator options solver x books k T p)
    (converged : p.stop.converged = true) : T.state.accepted = true := by
  cases k with
  | zero =>
    cases course with
    | start evaluated begun =>
      obtain ⟨value, g, ledger₁, H, f, -, -, -, rfl⟩ := initialState_eq_ok.1 evaluated
      rfl
  | succ k => exact (course.tested converged).1

theorem Course.previous (course : Course evaluator options solver x books (k + 1) T p)
    (run : IsRun evaluator options.method solver x books.ledger S (k + 1)) :
    T.state.xPrevious = (S k).x ∧ T.state.fPrevious = (S k).f := by
  cases course with
  | next course going updated =>
    rw [← course.state_eq fun j le => run j (le.trans (Nat.le_succ k))]
    exact (turn_of_update updated).previous

/-! ## Where the gradient comes from -/

/-- A ledger that a run asks with: the one at its start, or one that it has after an iteration. -/
def AsksWith (evaluator : Evaluator α β σ) (method : Method α) (solver : StepSolver α β)
    (x : Vector α n) (ledger : σ) (k : Nat) (ledger' : σ) : Prop :=
  ledger' = ledger ∨
    ∃ j < k, ∃ st : State α β n, stateAfter evaluator method solver x j ledger = .ok st ledger'

/-- An answer to a question for the gradient at `y`, asked in a run of `k` iterations from `x`. -/
def AnsweredAt (evaluator : Evaluator α β σ) (method : Method α) (solver : StepSolver α β)
    (x : Vector α n) (ledger : σ) (k : Nat) (y : Vector α n) (g : Tensor α) : Prop :=
  ∃ before value after, AsksWith evaluator method solver x ledger k before ∧
    evaluator.valueAndGradient (.ofVector y) before = .ok (value, g) after

theorem AnsweredAt.succ {ledger : σ} {y : Vector α n} {g : Tensor α}
    (answered : AnsweredAt evaluator method solver x ledger k y g) :
    AnsweredAt evaluator method solver x ledger (k + 1) y g := by
  obtain ⟨before, value, after, first | ⟨j, lt, st, reached⟩, evaluated⟩ := answered
  · exact ⟨before, value, after, Or.inl first, evaluated⟩
  · exact ⟨before, value, after, Or.inr ⟨j, lt.trans (Nat.lt_succ_self k), st, reached⟩, evaluated⟩

/-- The gradient of a state has all entries of an answer that was given at its point. -/
theorem Course.askedFor (course : Course evaluator options solver x books k T p) :
    T.state.g.data.size ≠ 0 ∧ ∃ g : Tensor α,
      AnsweredAt evaluator options.method solver x books.ledger k T.state.x g ∧
      g.data.size ≠ 0 ∧ ∀ a ∈ g.data, a ∈ T.state.g.data := by
  induction course with
  | @start st ledger p evaluated begun =>
    obtain ⟨small, assessed, -⟩ := Progress.begin_eq_ok.1 begun
    have nonempty : st.g.data.size ≠ 0 := Tolerances.nonempty_of_assessStart assessed
    obtain ⟨value, g, ledger₁, H, f, answer, -, -, rfl⟩ := initialState_eq_ok.1 evaluated
    exact ⟨nonempty, g, ⟨books.ledger, value, ledger₁, Or.inl rfl, answer⟩, nonempty,
      fun a mem => mem⟩
  | @next k T T' p course going updated ih =>
    obtain ⟨nonempty, g, answered, nonempty', entries⟩ := ih
    show T'.state.g.data.size ≠ 0 ∧ ∃ g : Tensor α,
      AnsweredAt evaluator options.method solver x books.ledger (k + 1) T'.state.x g ∧
      g.data.size ≠ 0 ∧ ∀ a ∈ g.data, a ∈ T'.state.g.data
    cases turn_of_update updated with
    | takenBack happens low state =>
      rw [state]
      exact ⟨nonempty, g, answered.succ, nonempty', entries⟩
    | @kept trial ledger H happens high evaluated state =>
      obtain ⟨value, g', evaluated', -, received⟩ := happens.evaluated
      have places : T.state.g.shape.volume ≠ 0 := T.state.g.size_eq ▸ nonempty
      have filled : trial.g.data.size ≠ 0 := by
        rwa [trial.g.size_eq, Tensor.shape_writeOver received]
      have given : g'.data.size ≠ 0 := by
        intro empty
        rw [g'.size_eq] at empty
        exact places (Tensor.volume_eq_zero_of_assignTo? (Tensor.assignTo?_of_writeOver received) empty)
      rw [state]
      exact ⟨filled, g', ⟨T.ledger, value, ledger,
        Or.inr ⟨k, Nat.lt_succ_self k, T.state, course.stateAfter_eq⟩, evaluated'⟩, given,
        fun a mem => Tensor.mem_of_writeOver received places mem⟩

/-- Success without an iteration means that the evaluator's gradient at the start is small. -/
theorem Course.started [LawfulComparison α]
    (course : Course evaluator options solver x books 0 T p) (converged : p.stop.converged = true) :
    ∃ value g ledger, evaluator.valueAndGradient (.ofVector x) books.ledger =
      .ok (value, g) ledger ∧ g.Below options.tolerances.gradient := by
  cases course with
  | start evaluated begun =>
    obtain ⟨small, assessed, rfl⟩ := Progress.begin_eq_ok.1 begun
    obtain ⟨value, g, ledger, H, f, answer, -, -, rfl⟩ := initialState_eq_ok.1 evaluated
    cases small with
    | false => cases converged
    | true =>
      exact ⟨value, g, ledger, answer, Tolerances.nonempty_of_assessStart assessed,
        (Tolerances.assessStart_iff assessed).1 rfl⟩

/-- If the gradient test holds, the gradient of the state is small. -/
theorem Course.abs_lt_of_gradient [LawfulComparison α]
    (course : Course evaluator options solver x books k T p)
    (holds : p.convergence.gradient = true) {a : α} (mem : a ∈ T.state.g.data) :
    Scalar.abs a < options.tolerances.gradient := by
  cases k with
  | zero =>
    cases course with
    | start evaluated begun =>
      obtain ⟨small, assessed, rfl⟩ := Progress.begin_eq_ok.1 begun
      obtain rfl : small = true := holds
      exact (Tolerances.assessStart_iff assessed).1 rfl a mem
  | succ k =>
    have any : p.convergence.any = true :=
      (Convergence.any_eq_true_iff _).2 (Or.inr (Or.inr holds))
    obtain ⟨-, tests⟩ := course.tested (course.converged_eq.trans any)
    rw [tests] at holds
    exact (Tolerances.allBelow_iff.1 holds).2 a (Array.mem_toList_iff.2 mem)

/-! ## The verdict -/

omit [Scalar β] [Embeds α β] in
theorem Options.maxIterations_nonneg (admitted : options.check = .ok ()) :
    ¬ options.maxIterations < 0 := by
  intro negative
  unfold Options.check at admitted
  rw [if_pos negative] at admitted
  split at admitted <;> cases admitted

/-- What a result says holds of a run over the states `S`. -/
structure Result.Sound (r : Result α β n) (evaluator : Evaluator α β σ) (options : Options α β)
    (solver : StepSolver α β) (x : Vector α n) (ledger : σ) (S : Nat → State α β n) : Prop where
  /-- Success means that a test holds. -/
  success_iff : r.success = true ↔ r.convergence.point = true ∨ r.convergence.value = true ∨
    r.convergence.gradient = true
  /-- The tests were made on the last two points, after a step that was kept. -/
  tested : r.success = true → ∀ k, r.iterations = k + 1 → (S (k + 1)).accepted = true ∧
    options.tolerances.assess (.ofVector r.x) (.ofVector (S k).x) r.f (S k).f (S (k + 1)).g =
      .ok r.convergence
  /-- Without an iteration, the gradient is small at the start. -/
  started : r.success = true → r.iterations = 0 → ∃ value g ledger',
    evaluator.valueAndGradient (.ofVector x) ledger = .ok (value, g) ledger' ∧
      g.Below options.tolerances.gradient
  /-- If the gradient test holds, the evaluator's gradient at the point of the result is small. -/
  gradient : r.convergence.gradient = true → ∃ g : Tensor α,
    AnsweredAt evaluator options.method solver x ledger r.iterations r.x g ∧
      g.Below options.tolerances.gradient
  /-- The message of a success names the first test that holds. -/
  message : r.success = true → r.stop.message =
    if r.convergence.gradient then "Gradient tolerance satisfied."
    else if r.convergence.value then "Function tolerance satisfied."
    else "Step tolerance satisfied."
  /-- A failure has no tests that hold, and is the observer's doing or that of the budget. -/
  failed : r.success = false → r.convergence = .none ∧
    (options.Interrupts r.iterations (S r.iterations) →
      r.stop.message = "Stopped by callback.") ∧
    (¬ options.Interrupts r.iterations (S r.iterations) →
      (r.iterations : Int) = options.maxIterations ∧
        r.stop.message = "Maximum iterations reached.")
  /-- A step that was taken back is not the end of a success. -/
  takenBack : (S r.iterations).accepted = false → r.success = false

theorem Course.sound [LawfulComparison α]
    (course : Course evaluator options solver x books k T p)
    (run : IsRun evaluator options.method solver x books.ledger S k)
    (budget : p.stop = .budget → (k : Int) = options.maxIterations) (counts : Option Counts) :
    (p.result T.state counts).Sound evaluator options solver x books.ledger S := by
  have iterations := course.iterations_result counts
  have state : T.state = S k := course.state_eq run
  have success : (p.result T.state counts).success = p.convergence.any := course.converged_eq
  constructor
  case success_iff =>
    rw [success]
    exact Convergence.any_eq_true_iff _
  case tested =>
    intro succeeded k' last
    obtain rfl : k = k' + 1 := iterations.symm.trans last
    obtain ⟨accepted, tests⟩ := course.tested succeeded
    obtain ⟨point, value⟩ := course.previous run
    rw [← state, ← point, ← value]
    refine ⟨accepted, ?_⟩
    show _ = Except.ok p.convergence
    rw [tests]
    exact State.assess_eq _ _
  case started =>
    intro succeeded none_made
    obtain rfl : k = 0 := iterations.symm.trans none_made
    exact course.started succeeded
  case gradient =>
    intro holds
    obtain ⟨-, g, answered, nonempty, entries⟩ := course.askedFor
    rw [iterations]
    exact ⟨g, answered, nonempty, fun a mem => course.abs_lt_of_gradient holds (entries a mem)⟩
  case message =>
    intro succeeded
    rw [success] at succeeded
    rcases course.stop_eq with ⟨-, stop⟩ | ⟨-, -, none_holds⟩
    · exact (congrArg Stop.message stop).trans (Convergence.message_stop succeeded)
    · rw [none_holds] at succeeded
      cases succeeded
  case failed =>
    intro failed
    rw [success] at failed
    have none_holds := Convergence.eq_none failed
    rw [iterations, ← state]
    refine ⟨none_holds, fun interrupted => ?_, fun uninterrupted => ?_⟩
    · rcases course.stop_eq with ⟨uninterrupted, -⟩ | ⟨-, stop, -⟩
      · exact absurd interrupted uninterrupted
      · exact congrArg Stop.message stop
    · rcases course.stop_eq with ⟨-, stop⟩ | ⟨interrupted, -⟩
      · rw [none_holds, Convergence.stop_none] at stop
        exact ⟨budget stop, congrArg Stop.message stop⟩
      · exact absurd interrupted uninterrupted
  case takenBack =>
    intro rejected
    rw [iterations, ← state] at rejected
    refine Bool.eq_false_iff.2 fun succeeded => ?_
    rw [course.accepted_of_converged succeeded] at rejected
    cases rejected

/--
The verdict of every call that returns is sound: for the states of its run, its flags, its success
and its message say what the tests of the last iteration, the observer and the budget do.
-/
theorem minimize_verdict [LawfulComparison α] {la : LinearAlgebra α} {checked : Bool}
    {source : Source α β σ} {start : Tensor α}
    (returned : minimize la checked source options start books = .ok ⟨n, r⟩ books') :
    ∃ evaluator solver x S, source.toEvaluator = .ok evaluator ∧
      options.stepSolver la checked = .ok solver ∧ startingPoint start = .ok ⟨n, x⟩ ∧
      IsRun evaluator options.method solver x books.ledger S r.iterations ∧
      r.ReportsOn (S r.iterations) ∧ r.Sound evaluator options solver x books.ledger S := by
  obtain ⟨admitted, solver, evaluator, x, chosen, made, placed, ran⟩ := minimize_eq_ok.1 returned
  obtain ⟨k, T, p, course, le, budget, rfl, -⟩ := minimizeFrom_eq_ok.1 ran
  obtain ⟨S, run⟩ := course.exists_isRun
  have used (stop : p.stop = .budget) : (k : Int) = options.maxIterations := by
    rw [budget stop]
    exact Int.toNat_of_nonneg (not_lt.1 (Options.maxIterations_nonneg admitted))
  rw [course.iterations_result]
  exact ⟨evaluator, solver, x, S, made, chosen, placed, run, course.reportsOn run _,
    course.sound run used _⟩

theorem minimize_verdict_halfSquare : ∃ (r : Result ℝ ℝ 1) (books : Books ℝ ℝ Unit),
    minimize .exact false (.evaluator (halfSquare 1).toEvaluator)
      ((Options.always #v[-3]).withBudget 5) (.ofVector #v[3]) ⟨(), #[]⟩ = .ok ⟨1, r⟩ books ∧
    r.success = true ∧ r.iterations = 1 ∧
    ∃ (evaluator : Evaluator ℝ ℝ Unit) (solver : StepSolver ℝ ℝ) (x : Vector ℝ 1)
      (S : Nat → State ℝ ℝ 1),
      IsRun evaluator Method.standard solver x () S 1 ∧ r.ReportsOn (S 1) ∧
        r.Sound evaluator ((Options.always #v[-3]).withBudget 5) solver x () S := by
  obtain ⟨r, books, returned, success, iterations⟩ := exists_minimize_halfSquare
  obtain ⟨evaluator, solver, x, S, -, -, -, run, reports, sound⟩ := minimize_verdict returned
  rw [iterations] at run reports
  exact ⟨r, books, returned, success, iterations, evaluator, solver, x, S, run, reports, sound⟩

end TrustRegion
