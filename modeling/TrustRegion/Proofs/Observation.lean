/-
  Watching a run does not change it.

  A run keeps a history and a trace if it is told to, and tells an observer, if there is one, of
  each iteration. No iteration reads the logs, and an observer can only ask to stop. So if it never
  does, the run that is watched is the run without logs and without an observer, up to the logs that
  it has kept: `run_unwatched` for the iterations, `minimize_unwatched` for a call. Two calls that
  are watched in different ways are compared through the call that is not watched at all.
-/
import TrustRegion.Proofs.Stopping

namespace TrustRegion

variable {α β σ : Type} {n : Nat}

/-- The progress without its logs. -/
def Progress.unlogged (p : Progress α β n) : Progress α β n :=
  { p with history := #[], trace := #[] }

/-- The result without its logs. -/
def Result.unlogged (r : Result α β n) : Result α β n := { r with history := #[], trace := #[] }

/-- The options without logs and without an observer. -/
def Options.unwatched (options : Options α β) : Options α β :=
  { options with keepHistory := false, keepTrace := false, observer := none }

/-- The observer, if there is one, never asks to stop. -/
def Options.NeverStops (options : Options α β) : Prop :=
  ∀ {n : Nat} (iteration : Nat) (st : State α β n), Progress.observed options iteration st = false

variable {options : Options α β}

theorem Options.neverStops_unwatched (options : Options α β) : options.unwatched.NeverStops :=
  fun _ _ => rfl

theorem Progress.unlogged_enter (p : Progress α β n) (st : State α β n) (record : Record α β) :
    (p.enter options st record).unlogged = p.unlogged.enter options.unwatched st record := by
  simp [enter, unlogged, Options.unwatched]

/-- Results are the same up to their logs if they are the same without them. -/
theorem Result.eq_of_unlogged {r r' : Result α β n} (same : r'.unlogged = r.unlogged) :
    r' = { r with history := r'.history, trace := r'.trace } :=
  calc
    r' = { r'.unlogged with history := r'.history, trace := r'.trace } := rfl
    _ = { r.unlogged with history := r'.history, trace := r'.trace } := by rw [same]

variable [Scalar α] [Scalar β] [Embeds α β] {evaluator : Evaluator α β σ} {solver : StepSolver α β}

/-! ## The run that is not watched -/

/-- The iterations do not depend on the logs, nor on an observer that never asks to stop. -/
theorem Progress.run_unwatched (quiet : options.NeverStops) (more : Nat) (p : Progress α β n) :
    unlogged <$> run evaluator options solver more p =
      run evaluator options.unwatched solver more p.unlogged := by
  induction more generalizing p with
  | zero => exact map_pure _ _
  | succ more ih =>
    rw [run, run]
    by_cases converged : p.stop.converged = true
    · have converged' : p.unlogged.stop.converged = true := converged
      rw [if_pos converged, if_pos converged', map_pure]
    · have converged' : ¬ p.unlogged.stop.converged = true := converged
      rw [if_neg converged, if_neg converged']
      -- Both runs make the same update and tell the same record.
      simp only [map_bind]
      refine bind_congr fun _ => bind_congr fun st => bind_congr fun _ => ?_
      rw [quiet, options.neverStops_unwatched, if_neg Bool.false_ne_true,
        if_neg Bool.false_ne_true]
      split
      · rw [ih, unlogged_enter]
        rfl
      · rw [map_bind]
        refine bind_congr fun tests => ?_
        rw [ih, ← unlogged_enter]
        rfl

omit [Scalar β] [Embeds α β] in
theorem Progress.begin_unwatched (options : Options α β) (st : State α β n) :
    unlogged <$> begin options st = begin options.unwatched st := by
  unfold begin
  rw [map_bind]
  refine bind_congr fun small => ?_
  rw [map_pure]
  rfl

theorem map_ofExcept {ε υ τ ω : Type} (f : τ → ω) (answer : Except ε τ) :
    f <$> (MonadExcept.ofExcept answer : EStateM ε υ τ) = MonadExcept.ofExcept (f <$> answer) := by
  cases answer <;> rfl

theorem map_apply {ε υ τ ω : Type} (f : τ → ω) (act : EStateM ε υ τ) (s : υ) : (f <$> act) s =
    match act s with
    | .ok a s' => .ok (f a) s'
    | .error fault s' => .error fault s' := rfl

theorem runFrom_unwatched (quiet : options.NeverStops) :
    Result.unlogged <$> (runFrom evaluator options solver : Iteration α β σ n (Result α β n)) =
      runFrom evaluator options.unwatched solver := by
  unfold runFrom
  simp only [← Progress.begin_unwatched, ← Progress.run_unwatched quiet, ← map_ofExcept, map_bind,
    map_pure, bind_map_left]
  rfl

theorem minimizeFrom_unwatched (quiet : options.NeverStops) (x : Vector α n) :
    Result.unlogged <$> minimizeFrom evaluator options solver x =
      minimizeFrom evaluator options.unwatched solver x := by
  funext books
  rw [map_apply]
  have method : options.unwatched.method = options.method := rfl
  unfold minimizeFrom
  rw [← runFrom_unwatched quiet, method]
  cases initialState evaluator options.method x books.ledger with
  | error fault ledger => rfl
  | ok st ledger =>
    dsimp only
    rw [map_apply]
    cases runFrom evaluator options solver _ <;> rfl

/-- A call that is watched by nobody who stops it is the call that is not watched. -/
theorem minimize_unwatched (la : LinearAlgebra α) (checked : Bool) (source : Source α β σ)
    (quiet : options.NeverStops) (start : Tensor α) :
    Sigma.map id (fun _ => Result.unlogged) <$> minimize la checked source options start =
      minimize la checked source options.unwatched start := by
  unfold minimize
  simp only [map_bind, map_pure]
  refine bind_congr fun _ => bind_congr fun solver => bind_congr fun evaluator =>
    bind_congr fun ⟨k, x⟩ => ?_
  rw [← minimizeFrom_unwatched quiet, bind_map_left]
  rfl

theorem map_eq_ok {ε υ τ ω : Type} {f : τ → ω} {act : EStateM ε υ τ} {s s' : υ} {b : ω} :
    (f <$> act) s = .ok b s' ↔ ∃ a, act s = .ok a s' ∧ f a = b := by
  rw [map_apply]
  cases act s <;> simp [and_comm]

theorem map_eq_error {ε υ τ ω : Type} {f : τ → ω} {act : EStateM ε υ τ} {s s' : υ} {fault : ε} :
    (f <$> act) s = .error fault s' ↔ act s = .error fault s' := by
  rw [map_apply]
  cases act s <;> simp

section Pairs

variable {la : LinearAlgebra α} {checked : Bool} {source : Source α β σ} {start : Tensor α}
  {options' : Options α β} (same : options.unwatched = options'.unwatched)
  (quiet : options.NeverStops) (quiet' : options'.NeverStops) {books books' : Books α β σ}

include same quiet quiet'

/-- If a call returns, it returns the same up to the logs when it is watched in another way. -/
theorem exists_minimize_of_unwatched {r : Result α β n}
    (returned : minimize la checked source options start books = .ok ⟨n, r⟩ books') :
    ∃ r', minimize la checked source options' start books = .ok ⟨n, r'⟩ books' ∧
      r'.unlogged = r.unlogged := by
  have alike := (map_eq_ok (f := Sigma.map id fun _ => Result.unlogged)).2 ⟨_, returned, rfl⟩
  rw [minimize_unwatched la checked source quiet, same,
    ← minimize_unwatched la checked source quiet'] at alike
  obtain ⟨⟨n', r'⟩, returned', equal⟩ := map_eq_ok.1 alike
  obtain ⟨rfl, equal⟩ := Sigma.mk.inj_iff.1 equal
  exact ⟨r', returned', eq_of_heq equal⟩

/-- If a call fails, it fails in the same way when it is watched in another way. -/
theorem minimize_eq_error_of_unwatched {fault : Fault α}
    (failed : minimize la checked source options start books = .error fault books') :
    minimize la checked source options' start books = .error fault books' := by
  have alike := (map_eq_error (f := Sigma.map id fun _ => Result.unlogged)).2 failed
  rw [minimize_unwatched la checked source quiet, same,
    ← minimize_unwatched la checked source quiet'] at alike
  exact map_eq_error.1 alike

end Pairs

/--
Two calls that differ only in the logs that they keep and in an observer that never asks to stop
fail alike, or they return results that differ in their logs only. They leave the same books.
-/
theorem minimize_watched (la : LinearAlgebra α) (checked : Bool) (source : Source α β σ)
    {options options' : Options α β} (same : options.unwatched = options'.unwatched)
    (quiet : options.NeverStops) (quiet' : options'.NeverStops) (start : Tensor α)
    (books : Books α β σ) :
    (∃ fault books', minimize la checked source options start books = .error fault books' ∧
      minimize la checked source options' start books = .error fault books') ∨
    ∃ (n : Nat) (r r' : Result α β n) (books' : Books α β σ),
      minimize la checked source options start books = .ok ⟨n, r⟩ books' ∧
      minimize la checked source options' start books = .ok ⟨n, r'⟩ books' ∧
      r' = { r with history := r'.history, trace := r'.trace } := by
  cases call : minimize la checked source options start books with
  | error fault books' =>
    exact Or.inl ⟨fault, books', rfl, minimize_eq_error_of_unwatched same quiet quiet' call⟩
  | ok result books' =>
    obtain ⟨n, r⟩ := result
    obtain ⟨r', call', unlogged⟩ := exists_minimize_of_unwatched same quiet quiet' call
    exact Or.inr ⟨n, r, r', books', rfl, call', Result.eq_of_unlogged unlogged⟩

/-- A run that is watched in every way, by an observer who always lets it go on. -/
theorem minimize_watched_halfSquare : ∃ (options : Options ℝ ℝ) (r r' : Result ℝ ℝ 1)
    (books : Books ℝ ℝ Unit),
    options.keepHistory = true ∧ options.keepTrace = true ∧ options.observer.isSome = true ∧
    minimize .exact false (.evaluator (halfSquare 1).toEvaluator)
        ((Options.always #v[-3]).withBudget 5) (.ofVector #v[3]) ⟨(), #[]⟩ = .ok ⟨1, r⟩ books ∧
    minimize .exact false (.evaluator (halfSquare 1).toEvaluator) options (.ofVector #v[3])
        ⟨(), #[]⟩ = .ok ⟨1, r'⟩ books ∧
    r'.success = true ∧ r' = { r with history := r'.history, trace := r'.trace } := by
  obtain ⟨r, books, returned, success, -⟩ := exists_minimize_halfSquare
  let watched : Options ℝ ℝ :=
    { (Options.always #v[-3]).withBudget 5 with
      keepHistory := true, keepTrace := true, observer := some fun _ _ _ => false }
  have quiet : ((Options.always #v[-3]).withBudget 5 : Options ℝ ℝ).NeverStops := fun _ _ => rfl
  have quiet' : watched.NeverStops := fun _ _ => rfl
  have same : ((Options.always #v[-3]).withBudget 5 : Options ℝ ℝ).unwatched = watched.unwatched :=
    rfl
  rcases minimize_watched .exact false (.evaluator (halfSquare 1).toEvaluator) same quiet quiet'
    (.ofVector #v[3]) ⟨(), #[]⟩ with
    ⟨fault, books', failed, -⟩ | ⟨n, r₁, r', books', call, call', logs⟩
  · cases returned.symm.trans failed
  · cases returned.symm.trans call
    refine ⟨watched, r, r', books, rfl, rfl, rfl, returned, call', ?_, logs⟩
    rw [logs]
    exact success

end TrustRegion
