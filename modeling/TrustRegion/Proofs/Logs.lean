/-
  What the logs of a run say.

  The history grows where a step is kept, the trace after every iteration, and the state between
  them is moved and moved back. Along a course the history is the first point and then the points
  after the iterations that kept their steps (`Course.history_eq`), and the trace has the record of
  every iteration (`Course.trace_eq`). A step that is taken back brings back point, value and
  gradient, so the last point of the history is that of the state even then
  (`getLast?_keptPoints`): this is what aligns the two logs with each other and with the result
  (`minimize_recounts`).
-/
import TrustRegion.Proofs.Observation

namespace TrustRegion

variable {α β σ : Type} {n : Nat}

/-- A record of a step that was taken back has value and gradient of the record before it. -/
def Record.Repeats (before after : Record α β) : Prop :=
  after.accepted = false → after.f = before.f ∧ after.gradientNorm = before.gradientNorm

/-- The points after those of the first `k` iterations that kept their steps. -/
def keptPoints (S : Nat → State α β n) (k : Nat) : List (Vector α n) :=
  (((List.range' 1 k).map S).filter State.accepted).map State.x

/-- Values do not depend on when they are asked for. -/
def Evaluator.Values (evaluator : Evaluator α β σ) (value : Vector α n → Tensor β) : Prop :=
  ∀ {x ledger reply g ledger'},
    evaluator.valueAndGradient (.ofVector x) ledger = .ok (reply, g) ledger' → reply = value x

theorem Evaluator.Gives.values {evaluator : Evaluator α β σ} {answers : Answers α β n}
    (gives : evaluator.Gives answers) : evaluator.Values answers.value :=
  fun evaluated => (Prod.mk.inj (gives.valueAndGradient evaluated)).1

variable [Scalar α]

/-- The records of the first `k` iterations. -/
def records (S : Nat → State α β n) (k : Nat) : List (Record α β) :=
  (List.range' 1 k).map fun j => (S j).record j

/-- The logs of a result tell the run from `x` over the states `S`. -/
structure Result.Recounts (r : Result α β n) (value : Vector α n → Tensor β) (x : Vector α n)
    (S : Nat → State α β n) : Prop where
  /-- The history has the first point and the points where steps were kept. -/
  history : r.history.toList = x :: keptPoints S r.iterations
  /-- It ends with the point that is returned. -/
  last : r.history.back? = some r.x
  /-- Each step that was kept has one more point. -/
  size : r.history.size = 1 + r.trace.countP Record.accepted
  /-- The trace has the record of every iteration. -/
  trace : r.trace.toList = records S r.iterations
  /-- The records are numbered from 1. -/
  numbers : r.trace.toList.map Record.iteration = List.range' 1 r.iterations
  /-- The value of a record is that at the point which the history had reached by then. -/
  values : ∀ k record, ((S 0).record 0 :: r.trace.toList)[k]? = some record →
    ∃ y, r.history[(r.trace.toList.take k).countP Record.accepted]? = some y ∧
      ((value y).value : Except (Fault α) β) = .ok record.f
  /-- After a step that was taken back nothing has changed. -/
  repeats : List.IsChain Record.Repeats ((S 0).record 0 :: r.trace.toList)
  /-- The last record has value, length of the gradient and radius of the result. -/
  final : ∀ record, r.trace.back? = some record →
    record.f = r.f ∧ record.gradientNorm = r.gradientNorm ∧ record.delta = r.delta

/-! ## The logs of a sequence of states -/

variable {S : Nat → State α β n} {j k : Nat}

omit [Scalar α] in
theorem keptPoints_succ (S : Nat → State α β n) (k : Nat) : keptPoints S (k + 1) =
    keptPoints S k ++ if (S (k + 1)).accepted then [(S (k + 1)).x] else [] := by
  unfold keptPoints
  rw [List.range'_1_concat, Nat.add_comm 1 k, List.map_append, List.filter_append, List.map_append]
  cases accepted : (S (k + 1)).accepted <;> simp [accepted]

theorem records_succ (S : Nat → State α β n) (k : Nat) :
    records S (k + 1) = records S k ++ [(S (k + 1)).record (k + 1)] := by
  unfold records
  rw [List.range'_1_concat, Nat.add_comm 1 k, List.map_append]
  rfl

theorem take_records (S : Nat → State α β n) (le : j ≤ k) : (records S k).take j = records S j := by
  unfold records
  rw [← List.map_take, List.take_range'_of_length_ge le]

theorem cons_records (S : Nat → State α β n) (k : Nat) :
    (S 0).record 0 :: records S k = (List.range (k + 1)).map fun j => (S j).record j := by
  rw [List.range_eq_range']
  rfl

theorem countP_records (S : Nat → State α β n) (k : Nat) :
    (records S k).countP Record.accepted = (keptPoints S k).length := by
  unfold records keptPoints
  rw [List.countP_map, List.length_map, ← List.countP_eq_length_filter, List.countP_map]
  rfl

omit [Scalar α] in
theorem keptPoints_prefix (S : Nat → State α β n) (le : j ≤ k) :
    keptPoints S j <+: keptPoints S k := by
  induction k, le using Nat.le_induction with
  | base => exact List.prefix_refl _
  | succ k le ih =>
    rw [keptPoints_succ]
    exact ih.trans (List.prefix_append _ _)

/-! ## The logs of a run -/

variable [Scalar β] [Embeds α β] {evaluator : Evaluator α β σ} {method : Method α}
  {solver : StepSolver α β} {x : Vector α n} {T T' : Session α β σ n}

/-- A step that is taken back leaves point, value and gradient as they were. -/
theorem Turn.unmoved (turn : Turn evaluator method solver T T')
    (takenBack : T'.state.accepted = false) :
    T'.state.x = T.state.x ∧ T'.state.f = T.state.f ∧ T'.state.g = T.state.g := by
  cases turn with
  | takenBack happens low state =>
    rw [state]
    exact ⟨rfl, rfl, rfl⟩
  | kept happens high evaluated state =>
    rw [state] at takenBack
    cases takenBack

/-- The value of the state after an iteration is one that the evaluator gave for its point. -/
theorem Turn.values {value : Vector α n → Tensor β} (turn : Turn evaluator method solver T T')
    (deterministic : evaluator.Values value)
    (known : ((value T.state.x).value : Except (Fault α) β) = .ok T.state.f) :
    ((value T'.state.x).value : Except (Fault α) β) = .ok T'.state.f := by
  cases turn with
  | takenBack happens low state =>
    rw [state]
    exact known
  | @kept trial ledger H happens high curved state =>
    obtain ⟨reply, g, evaluated, read, -⟩ := happens.evaluated
    rw [state]
    rw [deterministic evaluated] at read
    exact read

namespace IsRun

variable {ledger : σ} (run : IsRun evaluator method solver x ledger S k)

include run

/-- Two states of a run that follow one another are those of one iteration. -/
theorem exists_turn (lt : j < k) : ∃ T T' : Session α β σ n, Turn evaluator method solver T T' ∧
    T.state = S j ∧ T'.state = S (j + 1) := by
  obtain ⟨ledger', reached⟩ := run (j + 1) lt
  obtain ⟨st, ledger₁, before, advanced⟩ := stateAfter_succ_eq_ok.1 reached
  obtain ⟨ledger₂, reached'⟩ := run j lt.le
  rw [reached', EStateM.Result.ok.injEq] at before
  obtain ⟨T', updated, state, -⟩ := exists_update_of_advance advanced #[]
  exact ⟨_, T', turn_of_update updated, before.1.symm, state⟩

theorem start_x : (S 0).x = x := by
  obtain ⟨ledger', started⟩ := run 0 (Nat.zero_le k)
  exact (initialState_eq started).1

theorem unmoved (lt : j < k) (takenBack : (S (j + 1)).accepted = false) :
    (S (j + 1)).x = (S j).x ∧ (S (j + 1)).f = (S j).f ∧ (S (j + 1)).g = (S j).g := by
  obtain ⟨T, T', turn, before, after⟩ := run.exists_turn lt
  rw [← before, ← after]
  rw [← after] at takenBack
  exact turn.unmoved takenBack

theorem values {value : Vector α n → Tensor β} (deterministic : evaluator.Values value)
    (le : j ≤ k) : ((value (S j).x).value : Except (Fault α) β) = .ok (S j).f := by
  induction j with
  | zero =>
    obtain ⟨ledger', started⟩ := run 0 le
    obtain ⟨reply, g, ledger₁, H, f, evaluated, -, read, same⟩ := initialState_eq_ok.1 started
    rw [deterministic evaluated] at read
    rw [same]
    exact read
  | succ j ih =>
    obtain ⟨T, T', turn, before, after⟩ := run.exists_turn le
    have known := ih (Nat.le_of_succ_le le)
    rw [← before] at known
    rw [← after]
    exact turn.values deterministic known

/-- The last point of the history is that of the state, whether its step was kept or not. -/
theorem getLast?_keptPoints (le : j ≤ k) : (x :: keptPoints S j).getLast? = some (S j).x := by
  induction j with
  | zero => exact congrArg some run.start_x.symm
  | succ j ih =>
    rw [keptPoints_succ]
    cases accepted : (S (j + 1)).accepted with
    | true =>
      rw [if_pos rfl, ← List.cons_append]
      exact List.getLast?_concat
    | false =>
      rw [if_neg Bool.false_ne_true, List.append_nil, (run.unmoved le accepted).1]
      exact ih (Nat.le_of_succ_le le)

/-- The point after `j` iterations stands behind those of the steps that were kept before. -/
theorem getElem?_keptPoints (le : j ≤ k) :
    (x :: keptPoints S k)[(keptPoints S j).length]? = some (S j).x := by
  have last := run.getLast?_keptPoints le
  rw [List.getLast?_eq_getElem?] at last
  obtain ⟨later, same⟩ := keptPoints_prefix S le
  rw [← same, ← List.cons_append, List.getElem?_append_left (Nat.lt_succ_self _)]
  exact last

/-- The records of a run repeat what there was before where a step was taken back. -/
theorem isChain_records : List.IsChain Record.Repeats ((S 0).record 0 :: records S k) := by
  rw [cons_records, List.isChain_map, List.isChain_range_succ]
  intro j lt takenBack
  obtain ⟨-, f, g⟩ := run.unmoved lt takenBack
  refine ⟨f, ?_⟩
  show (S (j + 1)).gradientNorm = (S j).gradientNorm
  unfold State.gradientNorm
  rw [g]

end IsRun

namespace Course

variable {options : Options α β} {books books' : Books α β σ} {p : Progress α β n}

theorem trace_eq (logged : options.keepTrace = true)
    (course : Course evaluator options solver x books k T p)
    (run : IsRun evaluator options.method solver x books.ledger S k) :
    p.trace.toList = records S k := by
  induction course with
  | start evaluated begun =>
    obtain ⟨small, -, rfl⟩ := Progress.begin_eq_ok.1 begun
    rfl
  | @next k T₀ T p course going updated ih =>
    have state := (course.next going updated).state_eq run
    change T.state = S (k + 1) at state
    have trace : (p.after options T.state).trace =
        p.trace.push (T.state.record (p.iterations + 1)) := if_pos logged
    rw [trace, Array.toList_push, ih fun j le => run j (le.trans k.le_succ), records_succ,
      course.iterations_eq, state]

theorem history_eq (logged : options.keepHistory = true)
    (course : Course evaluator options solver x books k T p)
    (run : IsRun evaluator options.method solver x books.ledger S k) :
    p.history.toList = x :: keptPoints S k := by
  induction course with
  | @start st ledger p evaluated begun =>
    obtain ⟨small, -, rfl⟩ := Progress.begin_eq_ok.1 begun
    have history : (if options.keepHistory then #[st.x] else #[]) = #[st.x] := if_pos logged
    show Array.toList _ = _
    rw [history, (initialState_eq evaluated).1]
    rfl
  | @next k T₀ T p course going updated ih =>
    have state := (course.next going updated).state_eq run
    change T.state = S (k + 1) at state
    have history : (p.after options T.state).history =
        if T.state.accepted && options.keepHistory then p.history.push T.state.x
        else p.history := rfl
    have before := ih fun j le => run j (le.trans k.le_succ)
    rw [history, logged, Bool.and_true, state, keptPoints_succ]
    split
    · rw [Array.toList_push, before, List.cons_append]
    · rw [before, List.append_nil]

end Course

/-- Logs that hold the points where steps were kept and all records tell the run. -/
theorem Result.recounts {ledger : σ} {r : Result α β n} {value : Vector α n → Tensor β}
    (deterministic : evaluator.Values value)
    (run : IsRun evaluator method solver x ledger S r.iterations)
    (reports : r.ReportsOn (S r.iterations))
    (history : r.history.toList = x :: keptPoints S r.iterations)
    (trace : r.trace.toList = records S r.iterations) : r.Recounts value x S where
  history := history
  last := by
    rw [← Array.getLast?_toList, history, run.getLast?_keptPoints (Nat.le_refl _), reports.x]
  size := by
    rw [← Array.length_toList, ← Array.countP_toList, history, trace, countP_records,
      List.length_cons, Nat.add_comm]
  trace := trace
  numbers := by
    rw [trace, records, List.map_map]
    exact List.map_id _
  values := by
    intro k record found
    rw [trace, cons_records, List.getElem?_map, Option.map_eq_some_iff] at found
    obtain ⟨j, found, rfl⟩ := found
    obtain ⟨inside, same⟩ := List.getElem?_eq_some_iff.1 found
    rw [List.getElem_range] at same
    rw [List.length_range] at inside
    have le : j ≤ r.iterations := same ▸ Nat.le_of_lt_succ inside
    refine ⟨(S j).x, ?_, run.values deterministic le⟩
    rw [same, ← Array.getElem?_toList, history, trace, take_records S le, countP_records]
    exact run.getElem?_keptPoints le
  repeats := by
    rw [trace]
    exact run.isChain_records
  final := by
    intro record found
    have reached : record = (S r.iterations).record r.iterations := by
      rw [← Array.getLast?_toList, trace] at found
      cases iterations : r.iterations with
      | zero =>
        rw [iterations] at found
        cases found
      | succ k =>
        rw [iterations, records_succ, List.getLast?_concat] at found
        exact (Option.some.inj found).symm
    rw [reached, reports.f, reports.gradientNorm, reports.delta]
    exact ⟨rfl, rfl, rfl⟩

/--
A run that keeps both logs, on an evaluator whose values only depend on the point: the history is
the first point and the points of the steps that were kept, in their order, and ends with the point
that is returned; the trace has a numbered record of every iteration, with the value at the point
that the history had reached by then; a record of a step that was taken back repeats value and
length of the gradient; and the last record is that of the result.
-/
theorem minimize_recounts {la : LinearAlgebra α} {checked : Bool} {options : Options α β}
    {start : Tensor α} {books books' : Books α β σ} {r : Result α β n}
    {value : Vector α n → Tensor β} (history : options.keepHistory = true)
    (trace : options.keepTrace = true) (deterministic : evaluator.Values value)
    (returned : minimize la checked (.evaluator evaluator) options start books =
      .ok ⟨n, r⟩ books') :
    ∃ solver x S, startingPoint start = .ok ⟨n, x⟩ ∧ options.stepSolver la checked = .ok solver ∧
      IsRun evaluator options.method solver x books.ledger S r.iterations ∧
      r.ReportsOn (S r.iterations) ∧ r.Recounts value x S := by
  obtain ⟨-, solver, _, x, chosen, made, placed, ran⟩ := minimize_eq_ok.1 returned
  cases made
  obtain ⟨k, T, p, course, -, -, rfl, -⟩ := minimizeFrom_eq_ok.1 ran
  obtain ⟨S, run⟩ := course.exists_isRun
  have iterations : (p.result T.state (evaluator.counts T.ledger)).iterations = k :=
    course.iterations_result _
  have reports := course.reportsOn run (evaluator.counts T.ledger)
  have kept := course.history_eq history run
  have recorded := course.trace_eq trace run
  rw [← iterations] at run reports kept recorded
  exact ⟨solver, x, S, placed, chosen, run, reports,
    Result.recounts deterministic run reports kept recorded⟩

/-- A run of one iteration with both logs. -/
theorem minimize_recounts_halfSquare : ∃ (options : Options ℝ ℝ) (r : Result ℝ ℝ 1)
    (books : Books ℝ ℝ Unit) (S : Nat → State ℝ ℝ 1),
    options.keepHistory = true ∧ options.keepTrace = true ∧
    (halfSquare 1).toEvaluator.Values (halfSquare 1 : Answers ℝ ℝ 1).value ∧
    minimize .exact false (.evaluator (halfSquare 1).toEvaluator) options (.ofVector #v[3])
      ⟨(), #[]⟩ = .ok ⟨1, r⟩ books ∧
    r.iterations = 1 ∧ r.Recounts (halfSquare 1 : Answers ℝ ℝ 1).value #v[3] S := by
  let logged : Options ℝ ℝ :=
    { (Options.always #v[-3]).withBudget 5 with keepHistory := true, keepTrace := true }
  have quiet : ((Options.always #v[-3]).withBudget 5 : Options ℝ ℝ).NeverStops := fun _ _ => rfl
  have quiet' : logged.NeverStops := fun _ _ => rfl
  have same : ((Options.always #v[-3]).withBudget 5 : Options ℝ ℝ).unwatched = logged.unwatched :=
    rfl
  obtain ⟨r₀, books, returned₀, -, iterations₀⟩ := exists_minimize_halfSquare
  obtain ⟨r, returned, equal⟩ := exists_minimize_of_unwatched same quiet quiet' returned₀
  have iterations : r.iterations = 1 := (congrArg Result.iterations equal).trans iterations₀
  have deterministic : (halfSquare 1).toEvaluator.Values (halfSquare 1 : Answers ℝ ℝ 1).value :=
    (halfSquare 1).toEvaluator_gives.values
  obtain ⟨solver, x, S, placed, -, -, -, recounts⟩ :=
    minimize_recounts rfl rfl deterministic returned
  rw [startingPoint_ofVector one_pos, Except.ok.injEq] at placed
  cases placed
  exact ⟨logged, r, books, S, rfl, rfl, deterministic, returned, iterations, recounts⟩

end TrustRegion
