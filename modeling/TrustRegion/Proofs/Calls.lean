/-
  The calls that a run makes.

  What a run does depends on the answers of its evaluator, and not on what the evaluator writes in
  its ledger. An evaluator that gives the same answers and keeps another ledger therefore has the
  same runs (`Course.mirrored`). One that writes down its calls shows which calls a run makes: value
  and gradient and then the Hessian at the start, and in each iteration value and gradient at the
  trial point and, if the step is kept, the Hessian there (`callsUpTo`).
-/
import TrustRegion.Proofs.Stopping

namespace TrustRegion

/-- A call of an evaluator. -/
inductive Query (α : Type)
  /-- Value and gradient are asked for. -/
  | valueAndGradient (x : Tensor α)
  /-- The Hessian is asked for. -/
  | hessian (x : Tensor α)

/-- Whether value and gradient are asked for. -/
def Query.isValue {α : Type} : Query α → Bool
  | valueAndGradient _ => true
  | hessian _ => false

/-- Whether the Hessian is asked for. -/
def Query.isHessian {α : Type} : Query α → Bool
  | valueAndGradient _ => false
  | hessian _ => true

/-- An operation that changes a note when it is called, whether it fails or not. -/
def noting {α κ σ υ : Type} (change : κ → κ) (act : Action α σ υ) : Action α (κ × σ) υ :=
  fun (note, ledger) =>
    match act ledger with
    | .ok a ledger' => .ok a (change note, ledger')
    | .error fault ledger' => .error fault (change note, ledger')

theorem noting_of_ok {α κ σ υ : Type} {act : Action α σ υ} {ledger ledger' : σ} {a : υ}
    (returned : act ledger = .ok a ledger') (change : κ → κ) (note : κ) :
    noting change act (note, ledger) = .ok a (change note, ledger') := by
  unfold noting
  dsimp only
  rw [returned]

namespace Evaluator

variable {α β σ σ' : Type} {n : Nat}

/-- The evaluator that writes down its calls, in their order. -/
def recorded (evaluator : Evaluator α β σ) : Evaluator α β (List (Query α) × σ) where
  valueAndGradient := fun x =>
    noting (· ++ [.valueAndGradient x]) (evaluator.valueAndGradient x)
  hessian := fun x => noting (· ++ [.hessian x]) (evaluator.hessian x)
  counts := fun ledger => evaluator.counts ledger.2

/--
What an evaluator answers at points with `n` coordinates, the other one answers, too. After the same
calls their ledgers belong together as `related` says.
-/
structure Mirrors (evaluator : Evaluator α β σ) (mirror : Evaluator α β σ') (n : Nat)
    (related : List (Query α) → σ → σ' → Prop) : Prop where
  /-- Values and gradients. -/
  valueAndGradient : ∀ {calls ledger ledger₁ ledger'} {x : Vector α n} {a},
    related calls ledger ledger' →
    evaluator.valueAndGradient (.ofVector x) ledger = .ok a ledger₁ →
    ∃ ledger₁', mirror.valueAndGradient (.ofVector x) ledger' = .ok a ledger₁' ∧
      related (calls ++ [.valueAndGradient (.ofVector x)]) ledger₁ ledger₁'
  /-- Hessians. -/
  hessian : ∀ {calls ledger ledger₁ ledger'} {x : Vector α n} {H},
    related calls ledger ledger' → evaluator.hessian (.ofVector x) ledger = .ok H ledger₁ →
    ∃ ledger₁', mirror.hessian (.ofVector x) ledger' = .ok H ledger₁' ∧
      related (calls ++ [.hessian (.ofVector x)]) ledger₁ ledger₁'
  /-- The counts that are kept. -/
  counts : ∀ {calls ledger ledger'}, related calls ledger ledger' →
    mirror.counts ledger' = evaluator.counts ledger

/-- The record of an evaluator lists its calls. -/
theorem recorded_mirrors (evaluator : Evaluator α β σ) (n : Nat) :
    evaluator.Mirrors evaluator.recorded n fun calls ledger ledger' => ledger' = (calls, ledger) where
  valueAndGradient := fun same returned => by
    rw [same]
    exact ⟨_, noting_of_ok returned _ _, rfl⟩
  hessian := fun same returned => by
    rw [same]
    exact ⟨_, noting_of_ok returned _ _, rfl⟩
  counts := fun same => by
    rw [same]
    rfl

end Evaluator

variable {α β σ σ' : Type} {n : Nat} [Scalar α]

/-- The calls of an iteration from `st` to `st'`. -/
def State.calls (st st' : State α β n) : List (Query α) :=
  let trial := Tensor.ofVector (st.x + st'.s)
  .valueAndGradient trial :: if st'.accepted then [.hessian trial] else []

/-- The calls of a run that starts at `x` and has the states `S`, up to its iteration `k`. -/
def callsUpTo (x : Vector α n) (S : Nat → State α β n) : Nat → List (Query α)
  | 0 => [.valueAndGradient (.ofVector x), .hessian (.ofVector x)]
  | k + 1 => callsUpTo x S k ++ (S k).calls (S (k + 1))

/-- How many of the first `k` iterations kept their steps. -/
def keptSteps (S : Nat → State α β n) (k : Nat) : Nat :=
  (List.range k).countP fun j => (S (j + 1)).accepted

omit [Scalar α] in
theorem keptSteps_succ (S : Nat → State α β n) (k : Nat) :
    keptSteps S (k + 1) = keptSteps S k + (S (k + 1)).accepted.toNat := by
  unfold keptSteps
  rw [List.range_succ, List.countP_append, List.countP_singleton]
  cases (S (k + 1)).accepted <;> rfl

/-- Value and gradient are asked for once at the start and once in each iteration. -/
theorem countP_isValue_callsUpTo (x : Vector α n) (S : Nat → State α β n) (k : Nat) :
    (callsUpTo x S k).countP Query.isValue = k + 1 := by
  induction k with
  | zero => rfl
  | succ k ih =>
    rw [callsUpTo, List.countP_append, ih, State.calls]
    cases (S (k + 1)).accepted <;> rfl

/-- The Hessian is asked for once at the start and once for each step that is kept. -/
theorem countP_isHessian_callsUpTo (x : Vector α n) (S : Nat → State α β n) (k : Nat) :
    (callsUpTo x S k).countP Query.isHessian = keptSteps S k + 1 := by
  induction k with
  | zero => rfl
  | succ k ih =>
    rw [callsUpTo, List.countP_append, ih, State.calls, keptSteps_succ]
    cases (S (k + 1)).accepted <;> rfl

variable [Scalar β] [Embeds α β] {evaluator : Evaluator α β σ} {mirror : Evaluator α β σ'}
  {related : List (Query α) → σ → σ' → Prop} {method : Method α} {solver : StepSolver α β}
  {S S' : Session α β σ n} {calls : List (Query α)} {ledger' : σ'}

/-! ## One evaluator in place of another -/

omit [Embeds α β] in
theorem initialState_mirrored (mirrors : evaluator.Mirrors mirror n related) {x : Vector α n}
    {ledger ledger₁ : σ} {st : State α β n}
    (returned : initialState evaluator method x ledger = .ok st ledger₁)
    (belongs : related calls ledger ledger') :
    ∃ ledger₁', initialState mirror method x ledger' = .ok st ledger₁' ∧
      related (calls ++ [.valueAndGradient (.ofVector x), .hessian (.ofVector x)])
        ledger₁ ledger₁' := by
  obtain ⟨value, g, ledger₂, H, f, evaluated, curved, read, rfl⟩ := initialState_eq_ok.1 returned
  obtain ⟨ledger₂', evaluated', belongs⟩ := mirrors.valueAndGradient belongs evaluated
  obtain ⟨ledger₁', curved', belongs⟩ := mirrors.hessian belongs curved
  rw [List.append_assoc] at belongs
  exact ⟨ledger₁', initialState_eq_ok.2 ⟨value, g, ledger₂', H, f, evaluated', curved', read, rfl⟩,
    belongs⟩

/-- An iteration is the same with the mirror, up to what the mirror keeps of the calls. -/
theorem update_mirrored (mirrors : evaluator.Mirrors mirror n related)
    (returned : update evaluator method solver S = .ok () S')
    (belongs : related calls S.ledger ledger') :
    ∃ ledger₁', update mirror method solver ⟨S.state, ledger', S.journal⟩ =
        .ok () ⟨S'.state, ledger₁', S'.journal⟩ ∧
      related (calls ++ S.state.calls S'.state) S'.ledger ledger₁' := by
  obtain ⟨T, ledger, happens, concluding⟩ := update_eq_ok.1 returned
  obtain ⟨value, g, evaluated, read, received⟩ := happens.evaluated
  obtain ⟨ledger₁', evaluated', belongs⟩ := mirrors.valueAndGradient belongs evaluated
  have happens' : T.Happens mirror solver ⟨S.state, ledger', S.journal⟩ ledger₁' :=
    ⟨happens.proposed, happens.written, happens.saved, value, g, evaluated', read, received⟩
  rcases Iteration.conclude_eq_ok.1 concluding with
    ⟨low, g', restored, rfl⟩ | ⟨high, H, ledger₂, curved, rfl⟩
  · exact ⟨ledger₁', update_eq_ok.2 ⟨T, ledger₁', happens',
      Iteration.conclude_eq_ok.2 (Or.inl ⟨low, g', restored, rfl⟩)⟩, belongs⟩
  · obtain ⟨ledger₂', curved', belongs⟩ := mirrors.hessian belongs curved
    rw [List.append_assoc] at belongs
    exact ⟨ledger₂', update_eq_ok.2 ⟨T, ledger₁', happens',
      Iteration.conclude_eq_ok.2 (Or.inr ⟨high, H, ledger₂', curved', rfl⟩)⟩, belongs⟩

/-! ## Whole runs -/

variable {options : Options α β} {x : Vector α n} {books books' : Books α β σ} {k : Nat}
  {T : Session α β σ n} {p : Progress α β n} {states : Nat → State α β n}

/-- A run takes the same course with the mirror, which has kept account of the calls of the run. -/
theorem Course.mirrored (mirrors : evaluator.Mirrors mirror n related)
    (course : Course evaluator options solver x books k T p)
    (run : IsRun evaluator options.method solver x books.ledger states k)
    (belongs : related [] books.ledger ledger') :
    ∃ ledger₁', Course mirror options solver x ⟨ledger', books.journal⟩ k
        ⟨T.state, ledger₁', T.journal⟩ p ∧
      related (callsUpTo x states k) T.ledger ledger₁' := by
  induction course with
  | start evaluated begun =>
    obtain ⟨ledger₁', evaluated', belongs⟩ := initialState_mirrored mirrors evaluated belongs
    exact ⟨ledger₁', .start evaluated' begun, belongs⟩
  | @next k S T p course going updated ih =>
    have earlier : S.state = states k := course.state_eq fun j le => run j (le.trans k.le_succ)
    have later : T.state = states (k + 1) := (course.next going updated).state_eq run
    obtain ⟨ledger₁', course', belongs⟩ := ih fun j le => run j (le.trans k.le_succ)
    obtain ⟨ledger₂', updated', belongs⟩ := update_mirrored mirrors updated belongs
    rw [earlier, later] at belongs
    exact ⟨ledger₂', course'.next going updated', belongs⟩

/-- The counts of a state are those of the calls that led to it. -/
theorem Course.counts_eq (course : Course evaluator options solver x books k T p)
    (run : IsRun evaluator options.method solver x books.ledger states k) :
    T.state.fCalls = k + 1 ∧ T.state.gCalls = k + 1 ∧ T.state.hCalls = keptSteps states k + 1 := by
  induction course with
  | start evaluated begun =>
    obtain ⟨value, g, ledger, H, f, -, -, -, rfl⟩ := initialState_eq_ok.1 evaluated
    exact ⟨rfl, rfl, rfl⟩
  | @next k S T p course going updated ih =>
    obtain ⟨values, gradients, hessians⟩ := ih fun j le => run j (le.trans k.le_succ)
    have later : T.state = states (k + 1) := (course.next going updated).state_eq run
    rw [keptSteps_succ, ← later]
    show T.state.fCalls = _ ∧ T.state.gCalls = _ ∧ T.state.hCalls = _
    cases turn_of_update updated with
    | takenBack happens low state =>
      rw [state]
      exact ⟨congrArg Nat.succ values, congrArg Nat.succ gradients, hessians⟩
    | kept happens high evaluated state =>
      rw [state]
      exact ⟨congrArg Nat.succ values, congrArg Nat.succ gradients, congrArg Nat.succ hessians⟩

/-- A call that returns returns the same with the mirror. -/
theorem minimize_mirrored {la : LinearAlgebra α} {checked : Bool} {start : Tensor α}
    {r : Result α β n} (mirrors : evaluator.Mirrors mirror n related)
    (returned : minimize la checked (.evaluator evaluator) options start books = .ok ⟨n, r⟩ books')
    (belongs : related [] books.ledger ledger') :
    ∃ solver x states ledger₁', startingPoint start = .ok ⟨n, x⟩ ∧
      options.stepSolver la checked = .ok solver ∧
      IsRun evaluator options.method solver x books.ledger states r.iterations ∧
      r.counts = (evaluator.counts books'.ledger).getD ⟨r.iterations + 1, r.iterations + 1,
        keptSteps states r.iterations + 1⟩ ∧
      minimize la checked (.evaluator mirror) options start ⟨ledger', books.journal⟩ =
        .ok ⟨n, r⟩ ⟨ledger₁', books'.journal⟩ ∧
      related (callsUpTo x states r.iterations) books'.ledger ledger₁' := by
  obtain ⟨admitted, solver, e, x, chosen, made, placed, ran⟩ := minimize_eq_ok.1 returned
  obtain rfl := Except.ok.inj made
  obtain ⟨k, T, p, course, le, budget, rfl, rfl⟩ := minimizeFrom_eq_ok.1 ran
  obtain ⟨states, run⟩ := course.exists_isRun
  obtain ⟨ledger₁', course', belongs'⟩ := course.mirrored mirrors run belongs
  obtain ⟨values, gradients, hessians⟩ := course.counts_eq run
  have ran' := minimizeFrom_eq_ok.2 ⟨k, _, p, course', le, budget, rfl, rfl⟩
  rw [mirrors.counts belongs'] at ran'
  rw [course.iterations_result]
  refine ⟨solver, x, states, ledger₁', placed, chosen, run, ?_,
    minimize_eq_ok.2 ⟨admitted, solver, mirror, x, chosen, rfl, placed, ran'⟩, belongs'⟩
  show (evaluator.counts T.ledger).getD ⟨T.state.fCalls, T.state.gCalls, T.state.hCalls⟩ = _
  rw [values, gradients, hessians]
  rfl

end TrustRegion
