/-
  The states of a run, one after each iteration.

  `stateAfter k` starts a run and makes `k` iterations; what a run tells on the way is left out. It
  may be, since an iteration writes in the journal but never reads it (`update_with_journal`): with
  another journal it does the same to the state and to the ledger.
-/
import TrustRegion.Proofs.Turn

namespace TrustRegion

variable {α β σ : Type} {n : Nat} [Scalar α] [Scalar β] [Embeds α β]

/-- One iteration from a state. -/
def advance (evaluator : Evaluator α β σ) (method : Method α) (solver : StepSolver α β)
    (st : State α β n) : Action α σ (State α β n) := fun ledger =>
  match update evaluator method solver { state := st, ledger, journal := #[] } with
  | .ok () S => .ok S.state S.ledger
  | .error fault S => .error fault S.ledger

/-- The state after the start at `x` and a number of iterations. -/
def stateAfter (evaluator : Evaluator α β σ) (method : Method α) (solver : StepSolver α β)
    (x : Vector α n) : Nat → Action α σ (State α β n)
  | 0 => initialState evaluator method x
  | k + 1 => do
    let st ← stateAfter evaluator method solver x k
    advance evaluator method solver st

/-- The states `S 0`, …, `S k` are those of the start at `x` and of `k` iterations after it. -/
def IsRun (evaluator : Evaluator α β σ) (method : Method α) (solver : StepSolver α β)
    (x : Vector α n) (ledger : σ) (S : Nat → State α β n) (k : Nat) : Prop :=
  ∀ j ≤ k, ∃ ledger', stateAfter evaluator method solver x j ledger = .ok (S j) ledger'

variable {evaluator : Evaluator α β σ} {method : Method α} {solver : StepSolver α β}
  {S S' : Session α β σ n} {st st' : State α β n} {ledger ledger' : σ}

theorem update_with_journal (returned : update evaluator method solver S = .ok () S')
    (journal : Array (Event α β)) : ∃ journal',
      update evaluator method solver { S with journal := journal } =
        .ok () { S' with journal := journal' } := by
  obtain ⟨T, ledger, happens, concluding⟩ := update_eq_ok.1 returned
  -- A trial asks for the state and the ledger only.
  have happens' : T.Happens evaluator solver { S with journal := journal } ledger :=
    ⟨happens.proposed, happens.written, happens.saved, happens.evaluated⟩
  rcases Iteration.conclude_eq_ok.1 concluding with
    ⟨low, g, restored, rfl⟩ | ⟨high, H, ledger', evaluated, rfl⟩
  · exact ⟨_, update_eq_ok.2 ⟨T, ledger, happens',
      Iteration.conclude_eq_ok.2 (Or.inl ⟨low, g, restored, rfl⟩)⟩⟩
  · exact ⟨_, update_eq_ok.2 ⟨T, ledger, happens',
      Iteration.conclude_eq_ok.2 (Or.inr ⟨high, H, ledger', evaluated, rfl⟩)⟩⟩

theorem advance_eq_ok : advance evaluator method solver st ledger = .ok st' ledger' ↔
    ∃ journal, update evaluator method solver ⟨st, ledger, #[]⟩ =
      .ok () ⟨st', ledger', journal⟩ := by
  unfold advance
  cases update evaluator method solver ⟨st, ledger, #[]⟩ with
  | ok result S =>
    constructor
    · intro h
      cases h
      exact ⟨S.journal, rfl⟩
    · rintro ⟨journal, same⟩
      cases same
      rfl
  | error fault S =>
    constructor
    · intro h
      cases h
    · rintro ⟨journal, same⟩
      cases same

theorem advance_of_update (returned : update evaluator method solver S = .ok () S') :
    advance evaluator method solver S.state S.ledger = .ok S'.state S'.ledger := by
  obtain ⟨journal, returned'⟩ := update_with_journal returned #[]
  exact advance_eq_ok.2 ⟨journal, returned'⟩

theorem exists_update_of_advance
    (advanced : advance evaluator method solver st ledger = .ok st' ledger')
    (journal : Array (Event α β)) :
    ∃ S', update evaluator method solver ⟨st, ledger, journal⟩ = .ok () S' ∧
      S'.state = st' ∧ S'.ledger = ledger' := by
  obtain ⟨_, returned⟩ := advance_eq_ok.1 advanced
  obtain ⟨journal', returned'⟩ := update_with_journal returned journal
  exact ⟨_, returned', rfl, rfl⟩

theorem stateAfter_succ_eq_ok {x : Vector α n} {k : Nat} :
    stateAfter evaluator method solver x (k + 1) ledger = .ok st' ledger' ↔
      ∃ st ledger₁, stateAfter evaluator method solver x k ledger = .ok st ledger₁ ∧
        advance evaluator method solver st ledger₁ = .ok st' ledger' :=
  bind_eq_ok

end TrustRegion
