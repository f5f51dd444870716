/-
  The books of an evaluation balance.

  The numbers that a result reports come from the evaluator, or from the state where the evaluator
  keeps none. A problem counts the values, gradients and Hessians that its functions compute, the
  values for differences included; its copy `Problem.counted` counts the calls of the objective
  themselves. Along every run both say the same, and what they say follows from the number of
  iterations and of steps that were kept (`minimize_accounts`).
-/
import TrustRegion.Proofs.Answering
import TrustRegion.Proofs.DifferenceCalls

namespace TrustRegion

namespace Problem

variable {α τ υ ω : Type}

/-- The problem with an objective that counts its calls; a call counts also if it fails. -/
def counted (p : Problem α τ) : Problem α (Nat × τ) where
  objective := fun x => noting (· + 1) (p.objective x)
  gradient := p.gradient.map fun gradient x => noting id (gradient x)
  hessian := p.hessian.map fun hessian x => noting id (hessian x)

/-- The calls of the objective for a value and a gradient. -/
def valueCost (p : Problem α τ) (n : Nat) : Nat := 1 + if p.gradient.isSome then 0 else 2 * n

/-- The calls of the objective for a Hessian. -/
def hessianCost (p : Problem α τ) (n : Nat) : Nat := if p.hessian.isSome then 0 else 1 + 2 * n ^ 2

/-- The counts after so many value queries and so many Hessian queries. -/
def countsOf (p : Problem α τ) (n values hessians : Nat) : Counts where
  values := values * p.valueCost n + hessians * p.hessianCost n
  gradients := if p.gradient.isSome then values else 0
  hessians := if p.hessian.isSome then hessians else 0

theorem countsOf_value (p : Problem α τ) (n values hessians : Nat) :
    p.countsOf n (values + 1) hessians = { p.countsOf n values hessians with
      values := (p.countsOf n values hessians).values + p.valueCost n
      gradients := (p.countsOf n values hessians).gradients + p.gradient.isSome.toNat } := by
  unfold countsOf
  rw [Nat.succ_mul, Nat.add_right_comm]
  cases p.gradient <;> rfl

theorem countsOf_hessian (p : Problem α τ) (n values hessians : Nat) :
    p.countsOf n values (hessians + 1) = { p.countsOf n values hessians with
      values := (p.countsOf n values hessians).values + p.hessianCost n
      hessians := (p.countsOf n values hessians).hessians + p.hessian.isSome.toNat } := by
  unfold countsOf
  rw [Nat.succ_mul, Nat.add_assoc]
  cases p.hessian <;> rfl

theorem asUser_eq_ok {act : Action α τ υ} {counts counts' : Counts} {ledger ledger' : τ} {a : υ} :
    asUser act (counts, ledger) = .ok a (counts', ledger') ↔
      act ledger = .ok a ledger' ∧ counts' = counts := by
  unfold asUser
  dsimp only
  cases act ledger with
  | ok result ledger₁ =>
    constructor
    · intro h
      cases h
      exact ⟨rfl, rfl⟩
    · rintro ⟨same, rfl⟩
      cases same
      rfl
  | error fault ledger₁ =>
    constructor
    · intro h
      cases h
    · rintro ⟨same, -⟩
      cases same

theorem asUser_bind_eq_ok {act : Action α τ υ} {next : υ → Action α (Counts × τ) ω} {b : ω}
    {counts : Counts} {ledger : τ} {s : Counts × τ} :
    (asUser act >>= next) (counts, ledger) = .ok b s ↔
      ∃ a ledger', act ledger = .ok a ledger' ∧ next a (counts, ledger') = .ok b s := by
  rw [bind_eq_ok]
  constructor
  · rintro ⟨a, ⟨counts', ledger'⟩, asked, rest⟩
    obtain ⟨returned, rfl⟩ := asUser_eq_ok.1 asked
    exact ⟨a, ledger', returned, rest⟩
  · rintro ⟨a, ledger', returned, rest⟩
    exact ⟨a, (counts, ledger'), asUser_eq_ok.2 ⟨returned, rfl⟩, rest⟩

/-- A value of the objective that is a number counts, and then comes the rest. -/
theorem objective_bind_eq_ok {p : Problem α τ} {x : Tensor α}
    {next : α → Action α (Counts × τ) ω} {b : ω} {counts : Counts} {ledger : τ} {s : Counts × τ} :
    (do
      let t ← asUser (p.objective x)
      let number ← MonadExcept.ofExcept t.value
      countValues 1
      next number : Action α (Counts × τ) ω) (counts, ledger) = .ok b s ↔
      ∃ t number ledger', p.objective x ledger = .ok t ledger' ∧
        (t.value : Except (Fault α) α) = .ok number ∧
        next number ({ counts with values := counts.values + 1 }, ledger') = .ok b s := by
  rw [asUser_bind_eq_ok]
  constructor
  · rintro ⟨t, ledger', evaluated, rest⟩
    obtain ⟨number, s, reading, rest⟩ := bind_eq_ok.1 rest
    obtain ⟨read, rfl⟩ := ofExcept_eq_ok.1 reading
    exact ⟨t, number, ledger', evaluated, read, rest⟩
  · rintro ⟨t, number, ledger', evaluated, read, rest⟩
    exact ⟨t, ledger', evaluated, bind_eq_ok.2 ⟨number, _, ofExcept_eq_ok.2 ⟨read, rfl⟩, rest⟩⟩

/-! ## What is counted where a problem is evaluated -/

variable [Scalar α] {n : Nat} {p : Problem α τ} {x : Vector α n} {counts counts' : Counts}
  {ledger ledger' : τ} {gradient hessian : PointAction α τ (Tensor α)} {value g H : Tensor α}

theorem valueAndGradient_of_some (supplied : p.gradient = some gradient) :
    p.valueAndGradient (.ofVector x) (counts, ledger) = .ok (value, g) (counts', ledger') ↔
      ∃ t number ledger₁, p.objective (.ofVector x) ledger = .ok t ledger₁ ∧
        (t.value : Except (Fault α) α) = .ok number ∧
        gradient (.ofVector x) ledger₁ = .ok g ledger' ∧ value = .scalar number ∧
        counts' = { counts with
          values := counts.values + 1
          gradients := counts.gradients + 1 } := by
  unfold valueAndGradient
  rw [supplied, objective_bind_eq_ok]
  constructor
  · rintro ⟨t, number, ledger₁, evaluated, read, rest⟩
    obtain ⟨g', ledger₂, differentiated, last⟩ := asUser_bind_eq_ok.1 rest
    cases last
    exact ⟨t, number, ledger₁, evaluated, read, differentiated, rfl, rfl⟩
  · rintro ⟨t, number, ledger₁, evaluated, read, differentiated, rfl, rfl⟩
    exact ⟨t, number, ledger₁, evaluated, read,
      asUser_bind_eq_ok.2 ⟨g, ledger', differentiated, rfl⟩⟩

theorem valueAndGradient_of_none (missing : p.gradient = none) :
    p.valueAndGradient (.ofVector x) (counts, ledger) = .ok (value, g) (counts', ledger') ↔
      ∃ t number ledger₁ d, p.objective (.ofVector x) ledger = .ok t ledger₁ ∧
        (t.value : Except (Fault α) α) = .ok number ∧
        Difference.gradient p.objective (.ofVector x) gradientStep ledger₁ = .ok d ledger' ∧
        value = .scalar number ∧ g = d.derivative ∧
        counts' = { counts with values := counts.values + 1 + d.evaluations } := by
  unfold valueAndGradient
  rw [missing, objective_bind_eq_ok]
  constructor
  · rintro ⟨t, number, ledger₁, evaluated, read, rest⟩
    obtain ⟨d, ledger₂, differenced, last⟩ := asUser_bind_eq_ok.1 rest
    cases last
    exact ⟨t, number, ledger₁, d, evaluated, read, differenced, rfl, rfl, rfl⟩
  · rintro ⟨t, number, ledger₁, d, evaluated, read, differenced, rfl, rfl, rfl⟩
    exact ⟨t, number, ledger₁, evaluated, read,
      asUser_bind_eq_ok.2 ⟨d, ledger', differenced, rfl⟩⟩

theorem hessianAt_of_some (supplied : p.hessian = some hessian) :
    p.hessianAt (.ofVector x) (counts, ledger) = .ok H (counts', ledger') ↔
      hessian (.ofVector x) ledger = .ok H ledger' ∧
        counts' = { counts with hessians := counts.hessians + 1 } := by
  unfold hessianAt
  rw [supplied]
  exact asUser_eq_ok

theorem hessianAt_of_none (missing : p.hessian = none) :
    p.hessianAt (.ofVector x) (counts, ledger) = .ok H (counts', ledger') ↔
      ∃ d, Difference.hessian p.objective (.ofVector x) hessianStep ledger = .ok d ledger' ∧
        H = d.derivative ∧ counts' = { counts with values := counts.values + d.evaluations } := by
  unfold hessianAt
  rw [missing]
  constructor
  · intro returned
    obtain ⟨d, ledger₂, differenced, last⟩ := asUser_bind_eq_ok.1 returned
    cases last
    exact ⟨d, differenced, rfl, rfl⟩
  · rintro ⟨d, differenced, rfl, rfl⟩
    exact asUser_bind_eq_ok.2 ⟨d, ledger', differenced, rfl⟩

/-- For a value and a gradient, what is counted is what the objective was called. -/
theorem valueAndGradient_counted
    (returned : p.valueAndGradient (.ofVector x) (counts, ledger) = .ok (value, g) (counts', ledger')) :
    counts' = { counts with
      values := counts.values + p.valueCost n
      gradients := counts.gradients + p.gradient.isSome.toNat } ∧
    ∀ calls, p.counted.valueAndGradient (.ofVector x) (counts, calls, ledger) =
      .ok (value, g) (counts', calls + p.valueCost n, ledger') := by
  unfold valueCost
  cases supplied : p.gradient with
  | some gradient =>
    obtain ⟨t, number, ledger₁, evaluated, read, differentiated, rfl, rfl⟩ :=
      (valueAndGradient_of_some supplied).1 returned
    have supplied' : p.counted.gradient = some fun x => noting id (gradient x) :=
      congrArg (Option.map _) supplied
    exact ⟨rfl, fun calls => (valueAndGradient_of_some supplied').2 ⟨t, number, _,
      noting_of_ok evaluated _ _, read, noting_of_ok differentiated _ _, rfl, rfl⟩⟩
  | none =>
    obtain ⟨t, number, ledger₁, d, evaluated, read, differenced, rfl, rfl, rfl⟩ :=
      (valueAndGradient_of_none supplied).1 returned
    have missing : p.counted.gradient = none := congrArg (Option.map _) supplied
    obtain ⟨evaluations, spent⟩ := Difference.gradient_spends (fun x => .counted (p.objective x))
      x gradientStep ledger₁ d ledger' differenced
    rw [evaluations, Nat.add_assoc]
    refine ⟨rfl, fun calls => (valueAndGradient_of_none missing).2 ⟨t, number, _, d,
      noting_of_ok evaluated _ _, read, ?_, rfl, rfl, ?_⟩⟩
    · rw [Option.isSome_none, if_neg Bool.false_ne_true, ← Nat.add_assoc calls]
      exact spent (calls + 1)
    · rw [evaluations, Nat.add_assoc]

/-- For a Hessian, what is counted is what the objective was called. -/
theorem hessianAt_counted
    (returned : p.hessianAt (.ofVector x) (counts, ledger) = .ok H (counts', ledger')) :
    counts' = { counts with
      values := counts.values + p.hessianCost n
      hessians := counts.hessians + p.hessian.isSome.toNat } ∧
    ∀ calls, p.counted.hessianAt (.ofVector x) (counts, calls, ledger) =
      .ok H (counts', calls + p.hessianCost n, ledger') := by
  unfold hessianCost
  cases supplied : p.hessian with
  | some hessian =>
    obtain ⟨curved, rfl⟩ := (hessianAt_of_some supplied).1 returned
    have supplied' : p.counted.hessian = some fun x => noting id (hessian x) :=
      congrArg (Option.map _) supplied
    exact ⟨rfl, fun calls => (hessianAt_of_some supplied').2 ⟨noting_of_ok curved _ _, rfl⟩⟩
  | none =>
    obtain ⟨d, differenced, rfl, rfl⟩ := (hessianAt_of_none supplied).1 returned
    have missing : p.counted.hessian = none := congrArg (Option.map _) supplied
    obtain ⟨evaluations, spent⟩ := Difference.hessian_spends (fun x => .counted (p.objective x))
      x hessianStep ledger d ledger' differenced
    rw [evaluations]
    exact ⟨rfl, fun calls => (hessianAt_of_none missing).2 ⟨d, spent calls, rfl, by rw [evaluations]⟩⟩

/-- The calls that were counted are those that were made. -/
theorem counted_mirrors (p : Problem α τ) (n : Nat) : p.evaluator.Mirrors p.counted.evaluator n
    fun calls ledger ledger' => ledger' = (ledger.1, ledger.1.values, ledger.2) ∧
      ledger.1 = p.countsOf n (calls.countP Query.isValue) (calls.countP Query.isHessian) where
  valueAndGradient := by
    rintro calls ⟨_, ledger⟩ ⟨counts', ledger₁⟩ _ x ⟨value, g⟩ ⟨rfl, rfl⟩ returned
    obtain ⟨rfl, spent⟩ := valueAndGradient_counted returned
    refine ⟨_, spent _, rfl, ?_⟩
    rw [List.countP_append, List.countP_append]
    exact (p.countsOf_value n _ _).symm
  hessian := by
    rintro calls ⟨_, ledger⟩ ⟨counts', ledger₁⟩ _ x H ⟨rfl, rfl⟩ returned
    obtain ⟨rfl, spent⟩ := hessianAt_counted returned
    refine ⟨_, spent _, rfl, ?_⟩
    rw [List.countP_append, List.countP_append]
    exact (p.countsOf_hessian n _ _).symm
  counts := by
    rintro calls ledger _ ⟨rfl, -⟩
    rfl

end Problem

/-! ## Whole runs -/

variable {α β : Type} [Scalar α] [Scalar β] [Embeds α β]

/--
A run asks for value, gradient and Hessian at the start, then in each iteration for value and
gradient at the trial point, and there for the Hessian if and only if the step is kept. An evaluator
that keeps no counts has them reported by these calls. For a problem that starts with nothing
counted, the values reported are the calls of the objective, those for differences included, and the
gradients and Hessians are those that were supplied.
-/
theorem minimize_accounts (la : LinearAlgebra α) (checked : Bool) (start : Tensor α) :
    (∀ {σ : Type} {n : Nat} (evaluator : Evaluator α β σ) (options : Options α β)
      (books books' : Books α β σ) (r : Result α β n),
      minimize la checked (.evaluator evaluator) options start books = .ok ⟨n, r⟩ books' →
      ∃ solver x S, startingPoint start = .ok ⟨n, x⟩ ∧
        options.stepSolver la checked = .ok solver ∧
        IsRun evaluator options.method solver x books.ledger S r.iterations ∧
        minimize la checked (.evaluator evaluator.recorded) options start
            ⟨([], books.ledger), books.journal⟩ =
          .ok ⟨n, r⟩ ⟨(callsUpTo x S r.iterations, books'.ledger), books'.journal⟩ ∧
        ((∀ ledger, evaluator.counts ledger = none) →
          r.counts = ⟨r.iterations + 1, r.iterations + 1, keptSteps S r.iterations + 1⟩)) ∧
    ∀ {τ : Type} {n : Nat} (p : Problem α τ) (options : Options α α) (ledger : τ)
      (journal : Array (Event α α)) (books' : Books α α (Counts × τ)) (r : Result α α n),
      minimize la checked (.evaluator p.evaluator) options start
          ⟨(Counts.zero, ledger), journal⟩ = .ok ⟨n, r⟩ books' →
      ∃ solver x S, startingPoint start = .ok ⟨n, x⟩ ∧
        options.stepSolver la checked = .ok solver ∧
        IsRun p.evaluator options.method solver x (Counts.zero, ledger) S r.iterations ∧
        minimize la checked (.evaluator p.counted.evaluator) options start
            ⟨(Counts.zero, 0, ledger), journal⟩ =
          .ok ⟨n, r⟩ ⟨(r.counts, r.counts.values, books'.ledger.2), books'.journal⟩ ∧
        r.counts.values = (r.iterations + 1) * (1 + if p.gradient.isSome then 0 else 2 * n) +
          (keptSteps S r.iterations + 1) * (if p.hessian.isSome then 0 else 1 + 2 * n ^ 2) ∧
        r.counts.gradients = (if p.gradient.isSome then r.iterations + 1 else 0) ∧
        r.counts.hessians = (if p.hessian.isSome then keptSteps S r.iterations + 1 else 0) := by
  constructor
  · intro σ n evaluator options books books' r returned
    obtain ⟨solver, x, S, ledger', placed, chosen, run, counts, recorded, rfl⟩ :=
      minimize_mirrored (evaluator.recorded_mirrors n) returned rfl
    refine ⟨solver, x, S, placed, chosen, run, recorded, fun uncounted => ?_⟩
    rw [counts, uncounted]
    rfl
  · intro τ n p options ledger journal books' r returned
    have fresh : Counts.zero = p.countsOf n 0 0 := by
      unfold Problem.countsOf
      cases p.gradient <;> cases p.hessian <;> simp [Counts.zero]
    obtain ⟨solver, x, S, ledger', placed, chosen, run, counts, counted, rfl, balanced⟩ :=
      minimize_mirrored (p.counted_mirrors n) returned ⟨rfl, fresh⟩
    have reported : r.counts = books'.ledger.1 := counts
    rw [countP_isValue_callsUpTo, countP_isHessian_callsUpTo, ← reported] at balanced
    rw [← reported] at counted
    refine ⟨solver, x, S, placed, chosen, run, counted, ?_, ?_, ?_⟩ <;> rw [balanced] <;> rfl

/-- A linear objective without derivatives. -/
def Problem.firstEntry {α : Type} [Scalar α] : Problem α Unit where
  objective := fun x => pure (.scalar (x.data.getD 0 0))
  gradient := none
  hessian := none

theorem Problem.firstEntry_answering (n : Nat) :
    (Problem.firstEntry : Problem ℝ Unit).Answering n where
  objective := fun _ => .pure ⟨_, rfl⟩
  gradient := nofun
  hessian := nofun

/-- A run without counts and one that differences all derivatives. -/
theorem minimize_accounts_halfSquare :
    (∃ (r : Result ℝ ℝ 1) (books : Books ℝ ℝ Unit) (S : Nat → State ℝ ℝ 1),
      minimize .exact false (.evaluator (halfSquare 1).toEvaluator)
        ((Options.always #v[-3]).withBudget 5) (.ofVector #v[3]) ⟨(), #[]⟩ = .ok ⟨1, r⟩ books ∧
      r.iterations = 1 ∧ r.counts = ⟨2, 2, keptSteps S 1 + 1⟩) ∧
    ∃ (r : Result ℝ ℝ 1) (books : Books ℝ ℝ (Counts × Unit)) (S : Nat → State ℝ ℝ 1),
      minimize .exact false (.evaluator Problem.firstEntry.evaluator) Options.standard
        (.ofVector #v[3]) ⟨(Counts.zero, ()), #[]⟩ = .ok ⟨1, r⟩ books ∧
      minimize .exact false (.evaluator Problem.firstEntry.counted.evaluator) Options.standard
        (.ofVector #v[3]) ⟨(Counts.zero, 0, ()), #[]⟩ =
          .ok ⟨1, r⟩ ⟨(r.counts, r.counts.values, ()), books.journal⟩ ∧
      r.counts.values = (r.iterations + 1) * 3 + (keptSteps S r.iterations + 1) * 3 := by
  constructor
  · obtain ⟨r, books, returned, success, iterations⟩ := exists_minimize_halfSquare
    obtain ⟨solver, x, S, -, -, -, -, reported⟩ :=
      (minimize_accounts .exact false (.ofVector #v[3])).1 _ _ _ _ _ returned
    have counts := reported fun _ => rfl
    rw [iterations] at counts
    exact ⟨r, books, S, returned, iterations, counts⟩
  · have tolerances : 0 ≤ (Options.standard : Options ℝ ℝ).tolerances.point ∧
        0 ≤ (Options.standard : Options ℝ ℝ).tolerances.value ∧
        0 ≤ (Options.standard : Options ℝ ℝ).tolerances.gradient := by
      norm_num [Options.standard]
    have limits : 0 < (Options.standard : Options ℝ ℝ).rootLimits.tolerance ∧
        1 ≤ (Options.standard : Options ℝ ℝ).rootLimits.maxIterations := by
      norm_num [Options.standard, RootLimits.standard]
    obtain ⟨k, T, p, -, ended⟩ := exists_minimizeFrom LinearAlgebra.exact_exact one_pos
      (Problem.evaluator_answering (Problem.firstEntry_answering 1)) Method.standard_check limits.2
      #v[3] ⟨(Counts.zero, ()), #[]⟩
    obtain ⟨r, books, returned⟩ : ∃ (r : Result ℝ ℝ 1) (books : Books ℝ ℝ (Counts × Unit)),
        minimize .exact false (.evaluator Problem.firstEntry.evaluator) Options.standard
          (.ofVector #v[3]) ⟨(Counts.zero, ()), #[]⟩ = .ok ⟨1, r⟩ books :=
      ⟨_, _, (minimize_ofVector_eq_ok one_pos
        (Options.check_of_nonneg tolerances.1 tolerances.2.1 tolerances.2.2 (by decide))
        (Options.stepSolver_of_none rfl limits.1 limits.2)).2 ended⟩
    obtain ⟨solver, x, S, -, -, -, counted, values, -⟩ :=
      (minimize_accounts (β := ℝ) .exact false (.ofVector #v[3])).2 _ _ _ _ _ _ returned
    exact ⟨r, books, S, returned, counted, values⟩

end TrustRegion
