/-
  Where a run stops, and what another budget changes.

  A run is a number of iterations of the method, and no more than that: it returns what there is
  after them. Their number is the first at which the observer asks to stop, at which the convergence
  tests hold after a step that was kept, or at which the budget is used up (`minimize_refines`). So
  a run that has converged does not depend on the rest of its budget, and a smaller budget cuts off
  the end of the trace and of the history.
-/
import TrustRegion.Proofs.Course
import TrustRegion.Proofs.Factorizations

namespace TrustRegion

variable {α β σ : Type} {n : Nat} [Scalar α] [Scalar β] [Embeds α β]

/-- The options with another budget. -/
def Options.withBudget (options : Options α β) (N : Nat) : Options α β :=
  { options with maxIterations := N }

/-- Some convergence test holds at a state. -/
def State.Converged (tol : Tolerances α) (st : State α β n) : Prop :=
  ∃ c, tol.assess (.ofVector st.x) (.ofVector st.xPrevious) st.f st.fPrevious st.g = .ok c ∧
    c.any = true

/-- The observer asks to stop after an iteration, or it kept its step and a test holds. -/
def Options.StopsAt (options : Options α β) (iteration : Nat) (st : State α β n) : Prop :=
  Progress.observed options iteration st = true ∨
    (st.accepted = true ∧ st.Converged options.tolerances)

/--
The number of iterations of a run over the states `S` with a budget of `N`: none if there is no
budget or the gradient is small at the start, and otherwise the least one that ends the run.
-/
structure Options.LastIteration (options : Options α β) (N : Nat) (S : Nat → State α β n) (k : Nat) :
    Prop where
  /-- There is nothing to do. -/
  immediate : N = 0 ∨ options.tolerances.assessStart (S 0).g = .ok true → k = 0
  /-- The first reason to stop counts. -/
  least : ¬ (N = 0 ∨ options.tolerances.assessStart (S 0).g = .ok true) →
    IsLeast {j | 1 ≤ j ∧ j ≤ N ∧ (options.StopsAt j (S j) ∨ j = N)} k

/-- Point, value, radius and length of the gradient of a result are those of a state. -/
structure Result.ReportsOn (r : Result α β n) (st : State α β n) : Prop where
  /-- The point is. -/
  x : r.x = st.x
  /-- The value is. -/
  f : r.f = st.f
  /-- The radius is. -/
  delta : r.delta = st.delta
  /-- The length of the gradient is. -/
  gradientNorm : r.gradientNorm = st.gradientNorm

variable {evaluator : Evaluator α β σ} {options : Options α β} {solver : StepSolver α β}
  {x : Vector α n} {books books' : Books α β σ} {k N : Nat} {T : Session α β σ n}
  {p : Progress α β n} {r : Result α β n} {S : Nat → State α β n} {st : State α β n}

theorem State.converged_iff {tol : Tolerances α} :
    st.Converged tol ↔ (st.tests tol).any = true := by
  unfold Converged
  rw [st.assess_eq]
  constructor
  · rintro ⟨c, same, holds⟩
    rwa [Except.ok.inj same]
  · intro holds
    exact ⟨_, rfl, holds⟩

theorem Options.stopAt_eq_budget_iff : options.stopAt k st = .budget ↔ ¬ options.StopsAt k st := by
  unfold stopAt StopsAt
  rw [State.converged_iff]
  cases Progress.observed options k st <;> cases st.accepted <;>
    simp [Convergence.stop_eq_budget_iff]

namespace Options.LastIteration

theorem le (last : options.LastIteration N S k) : k ≤ N := by
  by_cases immediate : N = 0 ∨ options.tolerances.assessStart (S 0).g = .ok true
  · rw [last.immediate immediate]
    exact Nat.zero_le N
  · exact (last.least immediate).1.2.1

/-- No iteration before the last one ends the run. -/
theorem not_stopsAt (last : options.LastIteration N S k) {j : Nat} (positive : 1 ≤ j) (lt : j < k) :
    ¬ options.StopsAt j (S j) := by
  intro stops
  by_cases immediate : N = 0 ∨ options.tolerances.assessStart (S 0).g = .ok true
  · rw [last.immediate immediate] at lt
    exact Nat.not_lt_zero j lt
  · have least := (last.least immediate).2 ⟨positive, (lt.trans_le last.le).le, Or.inl stops⟩
    exact absurd least (not_le.2 lt)

end Options.LastIteration

/-! ## What ends a course -/

namespace Progress

theorem trace_prefix_after (p : Progress α β n) (options : Options α β) (st : State α β n) :
    p.trace.toList <+: (p.after options st).trace.toList := by
  unfold after enter
  dsimp only
  split
  · rw [Array.toList_push]
    exact List.prefix_append _ _
  · exact List.prefix_refl _

theorem history_prefix_after (p : Progress α β n) (options : Options α β) (st : State α β n) :
    p.history.toList <+: (p.after options st).history.toList := by
  unfold after enter
  dsimp only
  split
  · rw [Array.toList_push]
    exact List.prefix_append _ _
  · exact List.prefix_refl _

end Progress

namespace Course

theorem stop_zero (course : Course evaluator options solver x books 0 T p) :
    ∃ small, options.tolerances.assessStart T.state.g = .ok small ∧
      p.stop = if small then .gradient else .budget := by
  cases course with
  | start evaluated begun =>
    obtain ⟨small, assessed, rfl⟩ := Progress.begin_eq_ok.1 begun
    exact ⟨small, assessed, rfl⟩

theorem stop_succ (course : Course evaluator options solver x books (k + 1) T p) :
    p.stop = options.stopAt (k + 1) T.state := by
  cases course with
  | next course going updated =>
    rw [← course.iterations_eq]
    rfl

/-- A course passes through all earlier iterations, and the logs only grow. -/
theorem exists_earlier (course : Course evaluator options solver x books k T p) {j : Nat}
    (le : j ≤ k) : ∃ T' p', Course evaluator options solver x books j T' p' ∧
      (j < k → p'.stop = .budget) ∧ p'.trace.toList <+: p.trace.toList ∧
      p'.history.toList <+: p.history.toList := by
  induction course with
  | start evaluated begun =>
    obtain rfl := Nat.le_zero.1 le
    exact ⟨_, _, .start evaluated begun, fun lt => absurd lt (Nat.lt_irrefl 0),
      List.prefix_refl _, List.prefix_refl _⟩
  | @next k S T p course going updated ih =>
    rcases Nat.lt_or_eq_of_le le with lt | rfl
    · rcases Nat.lt_or_eq_of_le (Nat.le_of_lt_succ lt) with lt | rfl
      · obtain ⟨T', p', earlier, going', trace, history⟩ := ih lt.le
        exact ⟨T', p', earlier, fun _ => going' lt, trace.trans (p.trace_prefix_after options _),
          history.trans (p.history_prefix_after options _)⟩
      · exact ⟨S, p, course, fun _ => going, p.trace_prefix_after options _,
          p.history_prefix_after options _⟩
    · exact ⟨_, _, .next course going updated, fun lt => absurd lt (Nat.lt_irrefl _),
        List.prefix_refl _, List.prefix_refl _⟩

/-- Nothing but the end of a run depends on its budget. -/
theorem withBudget_iff : Course evaluator (options.withBudget N) solver x books k T p ↔
    Course evaluator options solver x books k T p := by
  constructor
  · intro course
    induction course with
    | start evaluated begun => exact .start evaluated begun
    | next course going updated ih => exact .next ih going updated
  · intro course
    induction course with
    | start evaluated begun => exact .start evaluated begun
    | next course going updated ih => exact .next ih going updated

/-- The states that a course passes through are those of a run. -/
theorem exists_isRun (course : Course evaluator options solver x books k T p) :
    ∃ S, IsRun evaluator options.method solver x books.ledger S k := by
  have reached (j : Nat) : ∃ st : State α β n, j ≤ k → ∃ ledger,
      stateAfter evaluator options.method solver x j books.ledger = .ok st ledger := by
    by_cases le : j ≤ k
    · obtain ⟨T', p', earlier, -⟩ := course.exists_earlier le
      exact ⟨T'.state, fun _ => ⟨T'.ledger, earlier.stateAfter_eq⟩⟩
    · exact ⟨T.state, fun le' => absurd le' le⟩
  choose S run using reached
  exact ⟨S, run⟩

theorem state_eq (course : Course evaluator options solver x books k T p)
    (run : IsRun evaluator options.method solver x books.ledger S k) : T.state = S k := by
  obtain ⟨ledger, reached⟩ := run k (Nat.le_refl k)
  rw [course.stateAfter_eq, EStateM.Result.ok.injEq] at reached
  exact reached.1

theorem iterations_result (course : Course evaluator options solver x books k T p)
    (counts : Option Counts) : (p.result T.state counts).iterations = k :=
  course.iterations_eq

theorem reportsOn (course : Course evaluator options solver x books k T p)
    (run : IsRun evaluator options.method solver x books.ledger S k) (counts : Option Counts) :
    (p.result T.state counts).ReportsOn (S k) := by
  rw [← course.state_eq run]
  exact ⟨rfl, rfl, rfl, rfl⟩

/-- Where a course ends a run, the number of its iterations is the first that could end it. -/
theorem lastIteration (course : Course evaluator options solver x books k T p)
    (run : IsRun evaluator options.method solver x books.ledger S k) (le : k ≤ N)
    (budget : p.stop = .budget → k = N) : options.LastIteration N S k := by
  have earlier {j : Nat} (lt : j < k) : ∃ T' p', Course evaluator options solver x books j T' p' ∧
      p'.stop = .budget ∧ T'.state = S j := by
    obtain ⟨T', p', course', going, -⟩ := course.exists_earlier lt.le
    exact ⟨T', p', course', going lt, course'.state_eq fun i le => run i (le.trans lt.le)⟩
  constructor
  · rintro (rfl | small)
    · exact Nat.le_zero.1 le
    · by_contra positive
      obtain ⟨T', p', course', going, same⟩ := earlier (Nat.pos_of_ne_zero positive)
      obtain ⟨small', assessed, stop⟩ := course'.stop_zero
      rw [same, small, Except.ok.injEq] at assessed
      rw [going, ← assessed] at stop
      cases stop
  · intro later
    have positive : 1 ≤ k := by
      refine Nat.pos_of_ne_zero fun zero => later ?_
      subst zero
      obtain ⟨small, assessed, stop⟩ := course.stop_zero
      rw [course.state_eq run] at assessed
      cases small with
      | true => exact Or.inr assessed
      | false => exact Or.inl (budget stop).symm
    refine ⟨⟨positive, le, ?_⟩, ?_⟩
    · by_cases going : p.stop = .budget
      · exact Or.inr (budget going)
      · obtain ⟨k, rfl⟩ := Nat.exists_eq_add_of_le' positive
        rw [course.stop_succ, Options.stopAt_eq_budget_iff, not_not, course.state_eq run] at going
        exact Or.inl going
    · rintro j ⟨positive', -, stops⟩
      by_contra lt
      obtain ⟨T', p', course', going, same⟩ := earlier (not_le.1 lt)
      obtain ⟨j, rfl⟩ := Nat.exists_eq_add_of_le' positive'
      rw [course'.stop_succ, Options.stopAt_eq_budget_iff, same] at going
      rcases stops with stops | rfl
      · exact going stops
      · exact lt le

/-- A course to the last iteration of a run that has found no other end has used up the budget. -/
theorem eq_of_lastIteration (course : Course evaluator options solver x books k T p)
    (run : IsRun evaluator options.method solver x books.ledger S k)
    (last : options.LastIteration N S k) (going : p.stop = .budget) : k = N := by
  by_cases immediate : N = 0 ∨ options.tolerances.assessStart (S 0).g = .ok true
  · obtain rfl := last.immediate immediate
    rcases immediate with none_left | small
    · exact none_left.symm
    · obtain ⟨small', assessed, stop⟩ := course.stop_zero
      rw [course.state_eq run, small, Except.ok.injEq] at assessed
      rw [going, ← assessed] at stop
      cases stop
  · obtain ⟨⟨positive, -, stops⟩, -⟩ := last.least immediate
    obtain ⟨k, rfl⟩ := Nat.exists_eq_add_of_le' positive
    rw [course.stop_succ, Options.stopAt_eq_budget_iff, course.state_eq run] at going
    exact stops.resolve_left going

/-- The states of iterations that do not end a run are a course. -/
theorem exists_of_isRun (run : IsRun evaluator options.method solver x books.ledger S k)
    {small : Bool} (assessed : options.tolerances.assessStart (S 0).g = .ok small)
    (large : small = true → k = 0) (going : ∀ j, 1 ≤ j → j < k → ¬ options.StopsAt j (S j)) :
    ∃ T p, Course evaluator options solver x books k T p := by
  induction k with
  | zero =>
    obtain ⟨ledger, evaluated⟩ := run 0 (Nat.le_refl 0)
    exact ⟨_, _, .start evaluated (Progress.begin_eq_ok.2 ⟨small, assessed, rfl⟩)⟩
  | succ k ih =>
    have run' : IsRun evaluator options.method solver x books.ledger S k :=
      fun j le => run j (le.trans (Nat.le_succ k))
    have not_small : small = false := by
      refine Bool.eq_false_iff.2 fun holds => ?_
      cases large holds
    obtain ⟨T, p, course⟩ := ih run' (fun holds => by rw [not_small] at holds; cases holds)
      fun j positive lt => going j positive (lt.trans (Nat.lt_succ_self k))
    have open_ : p.stop = .budget := by
      cases k with
      | zero =>
        obtain ⟨small', assessed', stop⟩ := course.stop_zero
        rw [course.state_eq run', assessed, Except.ok.injEq] at assessed'
        rw [stop, ← assessed', not_small]
        rfl
      | succ k =>
        rw [course.stop_succ, Options.stopAt_eq_budget_iff, course.state_eq run']
        exact going (k + 1) (Nat.succ_pos k) (Nat.lt_succ_self _)
    obtain ⟨ledger, reached⟩ := run (k + 1) (Nat.le_refl _)
    obtain ⟨st, ledger', before, advanced⟩ := stateAfter_succ_eq_ok.1 reached
    rw [course.stateAfter_eq, EStateM.Result.ok.injEq] at before
    rw [← before.1, ← before.2] at advanced
    obtain ⟨T', updated, -, -⟩ := exists_update_of_advance advanced T.journal
    exact ⟨_, _, .next course open_ updated⟩

end Course

/-! ## Calls -/

theorem startingPoint_ofVector {α : Type} {n : Nat} (pos : 0 < n) (x : Vector α n) :
    startingPoint (.ofVector x) = .ok ⟨n, x⟩ := by
  obtain ⟨entries, rfl⟩ := x
  have vector : (Tensor.ofVector (⟨entries, rfl⟩ : Vector α entries.size)).toVector? entries.size =
      some ⟨entries, rfl⟩ := Tensor.toVector?_ofVector _
  have nonempty : ¬ entries.isEmpty = true := by
    rw [Array.isEmpty_iff_size_eq_zero]
    exact pos.ne'
  unfold startingPoint
  split
  · next point read =>
    obtain rfl := Option.some.inj (vector.symm.trans read)
    exact if_neg nonempty
  · next unread =>
    exact absurd (vector.symm.trans unread) (Option.some_ne_none _)

omit [Scalar β] [Embeds α β] in
theorem check_withBudget (N : Nat) :
    (options.withBudget N).check = .ok () ↔ options.tolerances.isNegative = false := by
  have budget : ¬ (options.withBudget N).maxIterations < 0 := by
    show ¬ (N : Int) < 0
    omega
  unfold Options.check
  rw [if_neg budget]
  show (if options.tolerances.isNegative = true then _ else _) = _ ↔ _
  cases options.tolerances.isNegative <;> simp [throw, throwThe, MonadExceptOf.throw, pure, Except.pure]

theorem minimize_ofVector_eq_ok {la : LinearAlgebra α} {checked : Bool} (pos : 0 < n)
    (admitted : options.check = .ok ()) (chosen : options.stepSolver la checked = .ok solver) :
    minimize la checked (.evaluator evaluator) options (.ofVector x) books = .ok ⟨n, r⟩ books' ↔
      minimizeFrom evaluator options solver x books = .ok r books' := by
  rw [minimize_eq_ok]
  constructor
  · rintro ⟨-, solver', evaluator', x', chosen', made, placed, ran⟩
    rw [chosen, Except.ok.injEq] at chosen'
    rw [startingPoint_ofVector pos, Except.ok.injEq] at placed
    cases chosen'
    cases made
    cases placed
    exact ran
  · intro ran
    exact ⟨admitted, solver, evaluator, x, chosen, rfl, startingPoint_ofVector pos x, ran⟩

/-- A call with a budget of `N` returns what there is where a course can end. -/
theorem minimize_withBudget {la : LinearAlgebra α} {checked : Bool} (pos : 0 < n)
    (admitted : options.tolerances.isNegative = false)
    (chosen : options.stepSolver la checked = .ok solver) :
    minimize la checked (.evaluator evaluator) (options.withBudget N) (.ofVector x) books =
        .ok ⟨n, r⟩ books' ↔
      ∃ k T p, Course evaluator options solver x books k T p ∧ k ≤ N ∧ (p.stop = .budget → k = N) ∧
        r = p.result T.state (evaluator.counts T.ledger) ∧ books' = T.closed p := by
  rw [minimize_ofVector_eq_ok pos ((check_withBudget N).2 admitted) chosen, minimizeFrom_eq_ok]
  simp only [Course.withBudget_iff]
  rfl

/-- A call that starts at a vector, with a budget of `N`. -/
def minimizeWithin (la : LinearAlgebra α) (checked : Bool) (evaluator : Evaluator α β σ)
    (options : Options α β) (x : Vector α n) (books : Books α β σ) (N : Nat) :
    EStateM.Result (Fault α) (Books α β σ) ((k : Nat) × Result α β k) :=
  minimize la checked (.evaluator evaluator) (options.withBudget N) (.ofVector x) books

section Within

variable {la : LinearAlgebra α} {checked : Bool} (pos : 0 < n)
  (admitted : options.tolerances.isNegative = false)
  (chosen : options.stepSolver la checked = .ok solver)

include pos admitted chosen

/-- A call returns if the iterations up to the last one do. -/
theorem exists_minimizeWithin_of_isRun {small : Bool}
    (run : IsRun evaluator options.method solver x books.ledger S k)
    (assessed : options.tolerances.assessStart (S 0).g = .ok small)
    (last : options.LastIteration N S k) :
    ∃ r books', minimizeWithin la checked evaluator options x books N = .ok ⟨n, r⟩ books' ∧
      r.iterations = k ∧ r.ReportsOn (S k) := by
  have large : small = true → k = 0 := fun holds =>
    last.immediate (Or.inr (by rw [assessed, holds]))
  obtain ⟨T, p, course⟩ := Course.exists_of_isRun run assessed large fun _ => last.not_stopsAt
  exact ⟨_, _, (minimize_withBudget pos admitted chosen).2
    ⟨k, T, p, course, last.le, course.eq_of_lastIteration run last, rfl, rfl⟩,
    course.iterations_result _, course.reportsOn run _⟩

/-- What a call returns is what there is after the last iteration. -/
theorem exists_isRun_of_minimizeWithin
    (returned : minimizeWithin la checked evaluator options x books N = .ok ⟨n, r⟩ books') :
    ∃ S, IsRun evaluator options.method solver x books.ledger S r.iterations ∧
      options.LastIteration N S r.iterations ∧ r.ReportsOn (S r.iterations) := by
  obtain ⟨k, T, p, course, le, budget, rfl, -⟩ :=
    (minimize_withBudget pos admitted chosen).1 returned
  obtain ⟨S, run⟩ := course.exists_isRun
  rw [course.iterations_result]
  exact ⟨S, run, course.lastIteration run le budget, course.reportsOn run _⟩

/-- A success does not depend on the rest of the budget. -/
theorem minimizeWithin_of_success
    (returned : minimizeWithin la checked evaluator options x books N = .ok ⟨n, r⟩ books')
    (success : r.success = true) {N' : Nat} (enough : r.iterations ≤ N') :
    minimizeWithin la checked evaluator options x books N' = .ok ⟨n, r⟩ books' := by
  obtain ⟨k, T, p, course, -, -, rfl, rfl⟩ := (minimize_withBudget pos admitted chosen).1 returned
  rw [course.iterations_result] at enough
  refine (minimize_withBudget pos admitted chosen).2
    ⟨k, T, p, course, enough, fun going => ?_, rfl, rfl⟩
  change p.stop.converged = true at success
  rw [going] at success
  cases success

/-- A smaller budget cuts off the end of the logs. -/
theorem exists_minimizeWithin_of_le
    (returned : minimizeWithin la checked evaluator options x books N = .ok ⟨n, r⟩ books')
    {N' : Nat} (smaller : N' ≤ N) :
    ∃ r' books'', minimizeWithin la checked evaluator options x books N' = .ok ⟨n, r'⟩ books'' ∧
      r'.trace.toList <+: r.trace.toList ∧ r'.history.toList <+: r.history.toList := by
  obtain ⟨k, T, p, course, le, budget, rfl, -⟩ :=
    (minimize_withBudget pos admitted chosen).1 returned
  by_cases inside : k ≤ N' ∧ (p.stop = .budget → k = N')
  · exact ⟨_, _, (minimize_withBudget pos admitted chosen).2
      ⟨k, T, p, course, inside.1, inside.2, rfl, rfl⟩, List.prefix_refl _, List.prefix_refl _⟩
  · have lt : N' < k := by
      by_contra ge
      refine inside ⟨not_lt.1 ge, fun going => ?_⟩
      have := budget going
      omega
    obtain ⟨T', p', earlier, -, trace, history⟩ := course.exists_earlier lt.le
    exact ⟨_, _, (minimize_withBudget pos admitted chosen).2
      ⟨N', T', p', earlier, Nat.le_refl N', fun _ => rfl, rfl, rfl⟩, trace, history⟩

end Within

/--
A run makes the iterations of the method until the first one that ends it, and returns what there
is then: it returns whenever these iterations do, and all its results are of this kind. Once it has
converged, a larger budget changes nothing; a smaller one cuts off the end of its logs.
-/
theorem minimize_refines {la : LinearAlgebra α} {checked : Bool} (pos : 0 < n)
    (admitted : options.tolerances.isNegative = false)
    (chosen : options.stepSolver la checked = .ok solver) (N : Nat) :
    (∀ S k small, IsRun evaluator options.method solver x books.ledger S k →
      options.tolerances.assessStart (S 0).g = .ok small → options.LastIteration N S k →
      ∃ r books', minimizeWithin la checked evaluator options x books N = .ok ⟨n, r⟩ books' ∧
        r.iterations = k ∧ r.ReportsOn (S k)) ∧
    ∀ r books', minimizeWithin la checked evaluator options x books N = .ok ⟨n, r⟩ books' →
      (∃ S, IsRun evaluator options.method solver x books.ledger S r.iterations ∧
        options.LastIteration N S r.iterations ∧ r.ReportsOn (S r.iterations)) ∧
      (r.success = true → ∀ N', r.iterations ≤ N' →
        minimizeWithin la checked evaluator options x books N' = .ok ⟨n, r⟩ books') ∧
      ∀ N' ≤ N, ∃ r' books'',
        minimizeWithin la checked evaluator options x books N' = .ok ⟨n, r'⟩ books'' ∧
        r'.trace.toList <+: r.trace.toList ∧ r'.history.toList <+: r.history.toList := by
  constructor
  · intro S k small run assessed last
    exact exists_minimizeWithin_of_isRun pos admitted chosen run assessed last
  · intro r books' returned
    refine ⟨exists_isRun_of_minimizeWithin pos admitted chosen returned, ?_, ?_⟩
    · intro success N' enough
      exact minimizeWithin_of_success pos admitted chosen returned success enough
    · intro N' smaller
      exact exists_minimizeWithin_of_le pos admitted chosen returned smaller

/-- The standard options, with the step `s` in every iteration and no decrease predicted for it. -/
def Options.always {α β : Type} [Scalar α] {n : Nat} (s : Vector α n) : Options α β :=
  { Options.standard with solver := some (.always s 0) }

/-- The start of a run on half the squared length. -/
def halfSquareAt (x : Vector α n) : State α α n :=
  State.start Method.standard x (0.5 * dot x x) (.ofVector x)
    (.ofSquare (SquareMatrix.identity : SquareMatrix α n))

omit [Scalar β] [Embeds α β] in
theorem initialState_halfSquare (x : Vector α n) :
    initialState (halfSquare n).toEvaluator Method.standard x () = .ok (halfSquareAt x) () :=
  initialState_eq_ok.2 ⟨_, _, (), _, 0.5 * dot x x, (halfSquare n).valueAndGradient_toEvaluator x,
    (halfSquare n).hessian_toEvaluator x, rfl, rfl⟩

/-- The step from 3 to 0 is kept, and the gradient is zero then. -/
theorem exists_update_halfSquare : ∃ T : Session ℝ ℝ Unit 1,
    update (halfSquare 1).toEvaluator Method.standard (.always #v[-3] 0)
      ⟨halfSquareAt #v[3], (), #[]⟩ = .ok () T ∧
    T.state.accepted = true ∧ T.state.g = .ofVector #v[0] := by
  obtain ⟨proposal, proposed, step⟩ : ∃ proposal : Proposal ℝ,
      (StepSolver.always #v[-3] 0).propose (halfSquareAt #v[3]) = .ok proposal ∧
        proposal.step = .ofVector #v[-3] :=
    ⟨_, rfl, rfl⟩
  obtain ⟨T, updated, -, -⟩ := exists_update Method.standard (S := ⟨halfSquareAt #v[3], (), #[]⟩)
    proposed step rfl rfl ((halfSquare 1).valueAndGradient_toEvaluator _)
    ⟨_, (), (halfSquare 1).hessian_toEvaluator _⟩
  refine ⟨T, updated, ?_⟩
  cases turn_of_update updated with
  | @takenBack trial happens low state =>
    -- A model value of zero is not compared with a reduction: the ratio is 1.
    have negligible : negligibleModel (0 : ℝ) = true := by
      norm_num [negligibleModel, Scalar.abs, Scalar.machineEpsilon]
    have ratio : trial.ratio Method.standard (halfSquareAt #v[3]) = 1 := by
      unfold Trial.ratio
      rw [(happens.step_eq (s := #v[-3]) rfl rfl).2]
      exact (if_neg (not_not.2 rfl)).trans (if_pos negligible)
    rw [ratio] at low
    norm_num [Method.standard, Embeds.embed] at low
  | @kept trial ledger H happens high evaluated state =>
    have origin : (#v[3] + #v[-3] : Vector ℝ 1) = #v[0] := by
      refine vector_ext fun i => ?_
      rw [get_add, Subsingleton.elim i 0]
      exact add_neg_cancel (3 : ℝ)
    have consistent : (halfSquareAt #v[3] : State ℝ ℝ 1).Consistent (halfSquare 1) :=
      initialState_consistent (initialState_halfSquare _) (halfSquare 1).toEvaluator_gives
    obtain ⟨-, gradient⟩ := happens.eq_answers (halfSquare 1).toEvaluator_gives consistent
    rw [(happens.step_eq (s := #v[-3]) rfl rfl).1] at gradient
    rw [state]
    exact ⟨rfl, gradient.trans (congrArg Tensor.ofVector origin)⟩

/-- A run on half the square of one number that finds the minimum in its first iteration. -/
theorem exists_course_halfSquare : ∃ (T : Session ℝ ℝ Unit 1) (p : Progress ℝ ℝ 1),
    Course (halfSquare 1).toEvaluator (.always #v[-3]) (.always #v[-3] 0) #v[3] ⟨(), #[]⟩ 1 T p ∧
      p.stop = .gradient := by
  have large : (Options.always #v[-3] : Options ℝ ℝ).tolerances.assessStart
      (halfSquareAt #v[3] : State ℝ ℝ 1).g = .ok false := by
    have entry : ¬ |(3 : ℝ)| < 1e-8 := by norm_num
    exact congrArg Except.ok (decide_eq_false entry)
  have course : Course (halfSquare 1).toEvaluator (.always #v[-3]) (.always #v[-3] 0) #v[3]
      ⟨(), #[]⟩ 0 (⟨halfSquareAt #v[3], (), #[]⟩ : Session ℝ ℝ Unit 1) _ :=
    .start (initialState_halfSquare _) (Progress.begin_eq_ok.2 ⟨false, large, rfl⟩)
  obtain ⟨T, updated, accepted, gradient⟩ := exists_update_halfSquare
  have small : (T.state.tests (Options.standard : Options ℝ ℝ).tolerances).gradient = true := by
    change Tolerances.allBelow 1e-8 T.state.g.data.toList = true
    rw [gradient]
    change Tolerances.allBelow (1e-8 : ℝ) [0] = true
    norm_num [Tolerances.allBelow, Scalar.maximum, Scalar.maxStep, Scalar.isNaN, Scalar.max,
      Scalar.abs]
  refine ⟨_, _, course.next rfl updated, ?_⟩
  rw [(course.next rfl updated).stop_succ]
  refine (if_neg Bool.false_ne_true).trans ?_
  exact (if_pos accepted).trans (if_pos small)

theorem isNegative_always {n : Nat} (s : Vector ℝ n) :
    (Options.always s : Options ℝ ℝ).tolerances.isNegative = false := by
  norm_num [Options.always, Options.standard, Tolerances.isNegative, Scalar.min]

theorem exists_minimize_halfSquare : ∃ (r : Result ℝ ℝ 1) (books : Books ℝ ℝ Unit),
    minimizeWithin .exact false (halfSquare 1).toEvaluator (.always #v[-3]) #v[3] ⟨(), #[]⟩ 5 =
      .ok ⟨1, r⟩ books ∧ r.success = true ∧ r.iterations = 1 := by
  obtain ⟨T, p, course, stop⟩ := exists_course_halfSquare
  have ended : p.stop = .budget → 1 = 5 := fun going => by
    rw [stop] at going
    cases going
  exact ⟨_, _, (minimize_withBudget one_pos (isNegative_always _) rfl).2
    ⟨1, T, p, course, by decide, ended, rfl, rfl⟩, congrArg Stop.converged stop,
    course.iterations_eq⟩

theorem minimize_refines_halfSquare : ∃ (r : Result ℝ ℝ 1) (books : Books ℝ ℝ Unit),
    0 < 1 ∧ (Options.always #v[-3] : Options ℝ ℝ).tolerances.isNegative = false ∧
    (Options.always #v[-3] : Options ℝ ℝ).stepSolver .exact false = .ok (.always #v[-3] 0) ∧
    r.success = true ∧ r.iterations = 1 ∧
    (∃ S, IsRun (halfSquare 1).toEvaluator Method.standard (.always #v[-3] 0) #v[3] () S 1 ∧
      (Options.always #v[-3]).LastIteration 5 S 1 ∧ r.ReportsOn (S 1)) ∧
    ∀ N, 1 ≤ N → minimizeWithin .exact false (halfSquare 1).toEvaluator (.always #v[-3]) #v[3]
      ⟨(), #[]⟩ N = .ok ⟨1, r⟩ books := by
  have admitted : (Options.always #v[-3] : Options ℝ ℝ).tolerances.isNegative = false :=
    isNegative_always _
  have chosen : (Options.always #v[-3] : Options ℝ ℝ).stepSolver .exact false =
      .ok (.always #v[-3] 0) := rfl
  obtain ⟨r, books, returned, success, iterations⟩ := exists_minimize_halfSquare
  obtain ⟨reports, larger, -⟩ := (minimize_refines one_pos admitted chosen 5).2 r books returned
  rw [iterations] at reports
  exact ⟨r, books, one_pos, admitted, chosen, success, iterations, reports,
    fun N enough => larger success N (iterations.le.trans enough)⟩

end TrustRegion
