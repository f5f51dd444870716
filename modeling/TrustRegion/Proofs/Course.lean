/-
  The course of a run.

  `Course k S p` says that a run can come to the session `S` with the progress `p` by `k`
  iterations, each of which found nothing that ends the run before it. A run returns if and only if
  it has a course to a place where it ends, and it returns what it has come to there
  (`minimizeFrom_eq_ok`). What holds of every run that returns is proved along the course: at the
  start, and from one iteration to the next.
-/
import TrustRegion.Minimize
import TrustRegion.Proofs.Consistency
import TrustRegion.Proofs.Iterates

namespace TrustRegion

theorem bind_of_ok {ε σ τ υ : Type} {act : EStateM ε σ τ} {next : τ → EStateM ε σ υ} {s t : σ}
    {a : τ} (returned : act s = .ok a t) : (act >>= next) s = next a t := by
  show EStateM.bind act next s = _
  unfold EStateM.bind
  rw [returned]

variable {α β σ : Type} {n : Nat}

/-- A session with the record of its last iteration told. -/
def Session.logged [Scalar α] (S : Session α β σ n) (iteration : Nat) : Session α β σ n :=
  { S with journal := S.journal.push (.iteration (S.state.record iteration)) }

/-- The books of a session whose run is over. -/
def Session.closed (S : Session α β σ n) (p : Progress α β n) : Books α β σ where
  ledger := S.ledger
  journal := S.journal.push (.finished p.stop p.iterations S.state.f S.state.delta)

variable [Scalar α] [Scalar β] [Embeds α β]

/-! ## The tests after an iteration -/

/-- Which convergence tests hold between a state and the point and the value before it. -/
def State.tests (tol : Tolerances α) (st : State α β n) : Convergence :=
  tol.test ((Tensor.ofVector st.x).data.zipWith (· - ·) (Tensor.ofVector st.xPrevious).data).toList
    st.f st.fPrevious st.g.data.toList

theorem State.assess_eq (tol : Tolerances α) (st : State α β n) :
    tol.assess (.ofVector st.x) (.ofVector st.xPrevious) st.f st.fPrevious st.g =
      .ok (st.tests tol) :=
  if_pos rfl

omit [Scalar β] [Embeds α β] in
theorem Tolerances.assessStart_eq_ok {tol : Tolerances α} {g : Tensor α} {small : Bool} :
    tol.assessStart g = .ok small ↔ ∃ first rest, g.data.toList = first :: rest ∧
      small = decide ((rest.map Scalar.abs).foldl Scalar.maxStep (Scalar.abs first) <
        tol.gradient) := by
  unfold assessStart
  cases g.data.toList with
  | nil =>
    constructor
    · intro h
      cases h
    · rintro ⟨first, rest, same, -⟩
      cases same
  | cons first rest =>
    constructor
    · intro h
      exact ⟨first, rest, rfl, (Except.ok.inj h).symm⟩
    · rintro ⟨first', rest', same, rfl⟩
      cases same
      rfl

theorem Convergence.stop_eq_budget_iff (c : Convergence) : c.stop = .budget ↔ c.any = false := by
  obtain ⟨point, value, gradient⟩ := c
  cases point <;> cases value <;> cases gradient <;> decide

theorem Convergence.stop_ne_observer (c : Convergence) : c.stop ≠ .observer := by
  obtain ⟨point, value, gradient⟩ := c
  cases point <;> cases value <;> cases gradient <;> decide

/-- The reason to stop that an iteration gives, `budget` if it gives none. -/
def Options.stopAt (options : Options α β) (iteration : Nat) (st : State α β n) : Stop :=
  if Progress.observed options iteration st then .observer
  else if st.accepted then (st.tests options.tolerances).stop
  else .budget

namespace Progress

variable {evaluator : Evaluator α β σ} {options : Options α β} {solver : StepSolver α β}
  {p p' : Progress α β n} {S S' T : Session α β σ n} {more : Nat}

/-- The progress after an iteration that led to a state. -/
def after (options : Options α β) (p : Progress α β n) (st : State α β n) : Progress α β n :=
  { p.enter options st (st.record (p.iterations + 1)) with
    convergence :=
      if !observed options (p.iterations + 1) st && st.accepted then st.tests options.tolerances
      else p.convergence
    stop := options.stopAt (p.iterations + 1) st }

/-! ## One iteration of a run -/

theorem run_of_ended (ended : p.stop ≠ .budget) (unobserved : p.stop ≠ .observer) :
    run evaluator options solver more p S = .ok p S := by
  have converged : p.stop.converged = true := by
    cases stop : p.stop with
    | budget => exact absurd stop ended
    | observer => exact absurd stop unobserved
    | gradient => rfl
    | value => rfl
    | point => rfl
  cases more with
  | zero => rfl
  | succ more =>
    unfold run
    rw [if_pos converged]
    rfl

/-- What is left of a run; nothing if the observer has ended it. -/
def rest (evaluator : Evaluator α β σ) (options : Options α β) (solver : StepSolver α β)
    (more : Nat) (p : Progress α β n) : Iteration α β σ n (Progress α β n) :=
  if p.stop = .observer then pure p else run evaluator options solver more p

theorem rest_of_ended (ended : p.stop ≠ .budget) :
    rest evaluator options solver more p S = .ok p S := by
  unfold rest
  split
  · rfl
  · next unobserved => exact run_of_ended ended unobserved

theorem rest_of_going (going : p.stop = .budget) :
    rest evaluator options solver more p = run evaluator options solver more p := by
  refine if_neg ?_
  rw [going]
  exact Stop.noConfusion

theorem run_succ (going : p.stop = .budget)
    (updated : update evaluator options.method solver S = .ok () T) :
    run evaluator options solver (more + 1) p S =
      rest evaluator options solver more (p.after options T.state)
        (T.logged (p.iterations + 1)) := by
  have open_ : ¬ p.stop.converged = true := by
    rw [going]
    exact Bool.false_ne_true
  rw [run, if_neg open_, bind_of_ok updated, Iteration.state_bind]
  dsimp only
  rw [Iteration.tell_bind]
  unfold rest
  by_cases observed : observed options (p.iterations + 1) T.state = true
  · have stop : (p.after options T.state).stop = .observer := if_pos observed
    have same : p.after options T.state = { p.enter options T.state
        (T.state.record (p.iterations + 1)) with stop := .observer } := by
      unfold after Options.stopAt
      rw [if_pos observed, observed]
      rfl
    rw [if_pos stop, same]
    exact congrFun (if_pos observed) _
  · have step : (p.after options T.state).stop =
        if T.state.accepted then (T.state.tests options.tolerances).stop else .budget :=
      if_neg observed
    have unobserved : (p.after options T.state).stop ≠ .observer := by
      rw [step]
      split
      · exact Convergence.stop_ne_observer _
      · exact Stop.noConfusion
    rw [if_neg unobserved]
    refine (congrFun (if_neg observed) _).trans ?_
    by_cases accepted : T.state.accepted = true
    · have same : p.after options T.state = { p.enter options T.state
          (T.state.record (p.iterations + 1)) with
          convergence := T.state.tests options.tolerances
          stop := (T.state.tests options.tolerances).stop } := by
        unfold after Options.stopAt
        rw [if_neg observed, if_pos accepted, accepted, eq_false_of_ne_true observed]
        rfl
      rw [accepted, same]
      refine (congrFun (if_neg Bool.false_ne_true) _).trans ?_
      rw [State.assess_eq]
      rfl
    · have same : p.after options T.state = p.enter options T.state
          (T.state.record (p.iterations + 1)) := by
        unfold after Options.stopAt
        rw [if_neg observed, if_neg accepted, eq_false_of_ne_true accepted, Bool.and_false,
          if_neg Bool.false_ne_true, ← going]
        rfl
      rw [eq_false_of_ne_true accepted, same]
      exact congrFun (if_pos rfl) _

theorem exists_update_of_run (going : p.stop = .budget)
    (ran : run evaluator options solver (more + 1) p S = .ok p' S') :
    ∃ T, update evaluator options.method solver S = .ok () T := by
  have open_ : ¬ p.stop.converged = true := by
    rw [going]
    exact Bool.false_ne_true
  rw [run, if_neg open_] at ran
  obtain ⟨_, T, updated, -⟩ := bind_eq_ok.1 ran
  exact ⟨T, updated⟩

end Progress

/-! ## Many iterations -/

/--
A run from `x` can come to the session `S` and the progress `p` by `k` iterations, with nothing
before the last one to end it.
-/
inductive Course (evaluator : Evaluator α β σ) (options : Options α β) (solver : StepSolver α β)
    (x : Vector α n) (books : Books α β σ) : Nat → Session α β σ n → Progress α β n → Prop
  /-- The start of a run. -/
  | start {st : State α β n} {ledger : σ} {p : Progress α β n}
    (evaluated : initialState evaluator options.method x books.ledger = .ok st ledger)
    (begun : Progress.begin options st = .ok p) :
    Course evaluator options solver x books 0 ⟨st, ledger, books.journal⟩ p
  /-- One more iteration. -/
  | next {k : Nat} {S T : Session α β σ n} {p : Progress α β n}
    (course : Course evaluator options solver x books k S p) (going : p.stop = .budget)
    (updated : update evaluator options.method solver S = .ok () T) :
    Course evaluator options solver x books (k + 1) (T.logged (p.iterations + 1))
      (p.after options T.state)

omit [Scalar β] [Embeds α β] in
theorem Progress.begin_eq_ok {options : Options α β} {st : State α β n} {p : Progress α β n} :
    Progress.begin options st = .ok p ↔
      ∃ small, options.tolerances.assessStart st.g = .ok small ∧
        p = { iterations := 0
              stop := if small then .gradient else .budget
              convergence := { Convergence.none with gradient := small }
              history := if options.keepHistory then #[st.x] else #[]
              trace := #[] } := by
  constructor
  · intro begun
    obtain ⟨small, assessed, last⟩ := exists_of_bind_eq_ok begun
    exact ⟨small, assessed, (Except.ok.inj last).symm⟩
  · rintro ⟨small, assessed, rfl⟩
    unfold Progress.begin
    rw [assessed]
    rfl

namespace Course

variable {evaluator : Evaluator α β σ} {options : Options α β} {solver : StepSolver α β}
  {x : Vector α n} {books books' : Books α β σ} {k : Nat} {S S' : Session α β σ n}
  {p p' : Progress α β n} {r : Result α β n}

theorem iterations_eq (course : Course evaluator options solver x books k S p) :
    p.iterations = k := by
  induction course with
  | start evaluated begun =>
    obtain ⟨small, -, rfl⟩ := Progress.begin_eq_ok.1 begun
    rfl
  | next course going updated ih =>
    exact congrArg Nat.succ ih

/-- The states of the course are those of the iterations alone. -/
theorem stateAfter_eq (course : Course evaluator options solver x books k S p) :
    stateAfter evaluator options.method solver x k books.ledger = .ok S.state S.ledger := by
  induction course with
  | start evaluated begun => exact evaluated
  | next course going updated ih =>
    have advanced := advance_of_update updated
    exact stateAfter_succ_eq_ok.2 ⟨_, _, ih, advanced⟩

/-- A run follows its course. -/
theorem run_eq (course : Course evaluator options solver x books k S p) :
    ∃ st ledger p₀, initialState evaluator options.method x books.ledger = .ok st ledger ∧
      Progress.begin options st = .ok p₀ ∧
      ∀ more, Progress.run evaluator options solver (k + more) p₀ ⟨st, ledger, books.journal⟩ =
        Progress.rest evaluator options solver more p S := by
  induction course with
  | @start st ledger p evaluated begun =>
    refine ⟨st, ledger, p, evaluated, begun, fun more => ?_⟩
    have unobserved : p.stop ≠ .observer := by
      obtain ⟨small, -, rfl⟩ := Progress.begin_eq_ok.1 begun
      cases small <;> exact Stop.noConfusion
    rw [Nat.zero_add, Progress.rest, if_neg unobserved]
  | next course going updated ih =>
    obtain ⟨st, ledger, p₀, evaluated, begun, run⟩ := ih
    refine ⟨st, ledger, p₀, evaluated, begun, fun more => ?_⟩
    rw [Nat.add_assoc, Nat.add_comm 1, run, Progress.rest_of_going going,
      Progress.run_succ going updated]

/-- A run that goes on from a course and returns extends the course to its end. -/
theorem exists_of_run {more : Nat} (course : Course evaluator options solver x books k S p)
    (unobserved : p.stop ≠ .observer)
    (ran : Progress.run evaluator options solver more p S = .ok p' S') :
    ∃ k', Course evaluator options solver x books k' S' p' ∧ k' ≤ k + more ∧
      (p'.stop = .budget → k' = k + more) := by
  induction more generalizing k S p with
  | zero =>
    cases ran
    exact ⟨k, course, Nat.le_refl k, fun _ => rfl⟩
  | succ more ih =>
    by_cases going : p.stop = .budget
    · obtain ⟨T, updated⟩ := Progress.exists_update_of_run going ran
      rw [Progress.run_succ going updated] at ran
      have course' := course.next going updated
      by_cases observed : (p.after options T.state).stop = .observer
      · rw [Progress.rest, if_pos observed] at ran
        cases ran
        refine ⟨k + 1, course', by omega, fun budget => ?_⟩
        rw [observed] at budget
        cases budget
      · rw [Progress.rest, if_neg observed] at ran
        obtain ⟨k', extended, le, last⟩ := ih course' observed ran
        refine ⟨k', extended, by omega, fun budget => ?_⟩
        have := last budget
        omega
    · rw [Progress.run_of_ended going unobserved] at ran
      cases ran
      exact ⟨k, course, Nat.le_add_right k _, fun budget => absurd budget going⟩

/-- If all iterations return, the course goes on to the end of a run. -/
theorem exists_end {st : State α β n} {ledger : σ} {p : Progress α β n}
    (evaluated : initialState evaluator options.method x books.ledger = .ok st ledger)
    (begun : Progress.begin options st = .ok p)
    (returns : ∀ {k S p}, Course evaluator options solver x books k S p →
      ∃ T, update evaluator options.method solver S = .ok () T) (N : Nat) :
    ∃ k S p, Course evaluator options solver x books k S p ∧ k ≤ N ∧ (p.stop = .budget → k = N) := by
  induction N with
  | zero => exact ⟨0, _, _, .start evaluated begun, Nat.le_refl 0, fun _ => rfl⟩
  | succ N ih =>
    obtain ⟨k, S, p, course, le, budget⟩ := ih
    by_cases going : p.stop = .budget
    · obtain ⟨T, updated⟩ := returns course
      obtain rfl := budget going
      exact ⟨k + 1, _, _, course.next going updated, Nat.le_refl _, fun _ => rfl⟩
    · exact ⟨k, S, p, course, le.trans (Nat.le_succ N), fun budget => absurd budget going⟩

end Course

variable {evaluator : Evaluator α β σ} {options : Options α β} {solver : StepSolver α β}
  {x : Vector α n} {books books' : Books α β σ} {r : Result α β n}

/-- A run returns what it has come to where its course ends. -/
theorem minimizeFrom_eq_ok : minimizeFrom evaluator options solver x books = .ok r books' ↔
    ∃ k S p, Course evaluator options solver x books k S p ∧ k ≤ options.maxIterations.toNat ∧
      (p.stop = .budget → k = options.maxIterations.toNat) ∧
      r = p.result S.state (evaluator.counts S.ledger) ∧ books' = S.closed p := by
  constructor
  · intro returned
    unfold minimizeFrom at returned
    split at returned
    · cases returned
    · next st ledger evaluated =>
      split at returned
      · next result session ran =>
        cases returned
        unfold runFrom at ran
        rw [Iteration.state_bind] at ran
        obtain ⟨p₀, T₀, answer, ran⟩ := bind_eq_ok.1 ran
        obtain ⟨begun, rfl⟩ := ofExcept_eq_ok.1 answer
        obtain ⟨p, T, ran, last⟩ := bind_eq_ok.1 ran
        have course : Course evaluator options solver x books 0 ⟨st, ledger, books.journal⟩ p₀ :=
          .start evaluated begun
        have unobserved : p₀.stop ≠ .observer := by
          obtain ⟨small, -, rfl⟩ := Progress.begin_eq_ok.1 begun
          cases small <;> exact Stop.noConfusion
        obtain ⟨k, extended, le, budget⟩ := course.exists_of_run unobserved ran
        rw [Nat.zero_add] at le budget
        cases last
        exact ⟨k, T, p, extended, le, budget, rfl, rfl⟩
      · cases returned
  · rintro ⟨k, S, p, course, le, budget, rfl, rfl⟩
    obtain ⟨st, ledger, p₀, evaluated, begun, run⟩ := course.run_eq
    have ran : Progress.run evaluator options solver options.maxIterations.toNat p₀
        ⟨st, ledger, books.journal⟩ = .ok p S := by
      obtain ⟨more, enough⟩ := Nat.exists_eq_add_of_le le
      rw [enough, run]
      by_cases going : p.stop = .budget
      · have none_left : more = 0 := by
          have := budget going
          omega
        rw [none_left, Progress.rest_of_going going]
        rfl
      · exact Progress.rest_of_ended going
    have whole : runFrom evaluator options solver ⟨st, ledger, books.journal⟩ =
        .ok (p.result S.state (evaluator.counts S.ledger))
          { S with journal := (S.closed p).journal } := by
      unfold runFrom
      rw [Iteration.state_bind, bind_of_ok (ofExcept_eq_ok.2 ⟨begun, rfl⟩), bind_of_ok ran]
      rfl
    unfold minimizeFrom
    rw [evaluated]
    dsimp only
    rw [whole]
    rfl

/-- A call returns if its arguments are in order and its run returns. -/
theorem minimize_eq_ok {la : LinearAlgebra α} {checked : Bool} {source : Source α β σ}
    {start : Tensor α} : minimize la checked source options start books = .ok ⟨n, r⟩ books' ↔
      options.check = .ok () ∧ ∃ solver evaluator x, options.stepSolver la checked = .ok solver ∧
        source.toEvaluator = .ok evaluator ∧ startingPoint start = .ok ⟨n, x⟩ ∧
        minimizeFrom evaluator options solver x books = .ok r books' := by
  constructor
  · intro returned
    obtain ⟨_, B, checking, choosing⟩ := bind_eq_ok.1 returned
    obtain ⟨admitted, rfl⟩ := ofExcept_eq_ok.1 checking
    obtain ⟨solver, B, choice, making⟩ := bind_eq_ok.1 choosing
    obtain ⟨chosen, rfl⟩ := ofExcept_eq_ok.1 choice
    obtain ⟨evaluator, B, maker, placing⟩ := bind_eq_ok.1 making
    obtain ⟨made, rfl⟩ := ofExcept_eq_ok.1 maker
    obtain ⟨⟨k, x⟩, B, place, running⟩ := bind_eq_ok.1 placing
    obtain ⟨placed, rfl⟩ := ofExcept_eq_ok.1 place
    obtain ⟨result, B, ran, last⟩ := bind_eq_ok.1 running
    cases last
    exact ⟨admitted, solver, evaluator, x, chosen, made, placed, ran⟩
  · rintro ⟨admitted, solver, evaluator, x, chosen, made, placed, ran⟩
    unfold minimize
    rw [bind_of_ok (ofExcept_eq_ok.2 ⟨admitted, rfl⟩), bind_of_ok (ofExcept_eq_ok.2 ⟨chosen, rfl⟩),
      bind_of_ok (ofExcept_eq_ok.2 ⟨made, rfl⟩), bind_of_ok (ofExcept_eq_ok.2 ⟨placed, rfl⟩)]
    exact bind_of_ok ran

end TrustRegion
