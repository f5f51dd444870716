/-
  How often the difference formulas call the objective.

  `Spends act act' k post` says that an operation and its counting copy return the same, that the
  copy has counted `k` calls more, and that `post` holds of the result. It has one rule for every
  way in which the formulas are put together; read off with them, a gradient takes `2 n` calls
  (`Difference.gradient_spends`) and a Hessian `1 + 2 n²` (`Difference.hessian_spends`), and these
  are the numbers that the formulas report.
-/
import TrustRegion.Evaluator.Problem
import TrustRegion.Proofs.Calls

namespace TrustRegion

variable {α σ υ ω ι : Type}

/--
Whenever `act` returns, its result satisfies `post`, and `act'` returns the same and counts `k`
calls more.
-/
def Spends (act : Action α σ υ) (act' : Action α (Nat × σ) υ) (k : Nat) (post : υ → Prop) : Prop :=
  ∀ ledger a ledger', act ledger = .ok a ledger' →
    post a ∧ ∀ calls, act' (calls, ledger) = .ok a (calls + k, ledger')

namespace Spends

variable {act : Action α σ υ} {act' : Action α (Nat × σ) υ} {next : υ → Action α σ ω}
  {next' : υ → Action α (Nat × σ) ω} {post : υ → Prop} {post' : ω → Prop} {k j : Nat}
  {result : Except (Fault α) υ}

theorem counted (act : Action α σ υ) : Spends act (noting (· + 1) act) 1 fun _ => True :=
  fun _ _ _ returned => ⟨trivial, fun _ => noting_of_ok returned _ _⟩

theorem pure {a : υ} (holds : post a) :
    Spends (Pure.pure a : Action α σ υ) (Pure.pure a) 0 post := by
  intro ledger a' ledger' returned
  cases returned
  exact ⟨holds, fun _ => rfl⟩

theorem throw (fault : Fault α) :
    Spends (throw fault : Action α σ υ) (throw fault) k post := by
  intro ledger a ledger' returned
  cases returned

theorem throw_bind (fault : Fault α) :
    Spends (MonadExcept.throw fault >>= next) (MonadExcept.throw fault >>= next') k post' := by
  intro ledger a ledger' returned
  cases returned

theorem ofExcept (result : Except (Fault α) υ) :
    Spends (MonadExcept.ofExcept result : Action α σ υ) (MonadExcept.ofExcept result) 0
      fun _ => True := by
  intro ledger a ledger' returned
  obtain ⟨same, rfl⟩ := ofExcept_eq_ok.1 returned
  exact ⟨trivial, fun _ => ofExcept_eq_ok.2 ⟨same, rfl⟩⟩

theorem bind (first : Spends act act' k post)
    (rest : ∀ a, post a → Spends (next a) (next' a) j post') :
    Spends (act >>= next) (act' >>= next') (k + j) post' := by
  intro ledger b ledger' returned
  obtain ⟨a, ledger₁, called, returned⟩ := bind_eq_ok.1 returned
  obtain ⟨holds, same⟩ := first ledger a ledger₁ called
  obtain ⟨holds', same'⟩ := rest a holds ledger₁ b ledger' returned
  refine ⟨holds', fun calls => bind_eq_ok.2 ⟨a, _, same calls, ?_⟩⟩
  rw [← Nat.add_assoc]
  exact same' (calls + k)

/-- One call, and then the rest. -/
theorem call (first : Spends act act' 1 post)
    (rest : ∀ a, Spends (next a) (next' a) k post') :
    Spends (act >>= next) (act' >>= next') (k + 1) post' := by
  rw [Nat.add_comm]
  exact first.bind fun a _ => rest a

/-- A check that may fail, and then the rest. -/
theorem check (rest : ∀ a, Spends (next a) (next' a) k post') :
    Spends (MonadExcept.ofExcept result >>= next) (MonadExcept.ofExcept result >>= next') k post' := by
  rw [← Nat.zero_add k]
  exact (ofExcept result).bind fun a _ => rest a

theorem mapM {f : ι → Action α σ υ} {f' : ι → Action α (Nat × σ) υ}
    (each : ∀ i, Spends (f i) (f' i) k fun _ => True) (l : List ι) :
    Spends (l.mapM f) (l.mapM f') (l.length * k) fun _ => True := by
  induction l with
  | nil =>
    rw [List.length_nil, Nat.zero_mul]
    exact pure trivial
  | cons i l ih =>
    rw [List.mapM_cons, List.mapM_cons, List.length_cons, Nat.succ_mul, Nat.add_comm]
    exact (each i).bind fun a _ => ih.bind fun as _ => pure trivial

/-- A loop that keeps a tally: it spends what it adds to the tally. -/
theorem foldlM {step : ω → ι → Action α σ ω} {step' : ω → ι → Action α (Nat × σ) ω}
    {cost : ι → Nat} (tally : ω → Nat)
    (each : ∀ acc i, Spends (step acc i) (step' acc i) (cost i)
      fun acc' => tally acc' = tally acc + cost i) (l : List ι) (acc : ω) :
    Spends (l.foldlM step acc) (l.foldlM step' acc) (l.map cost).sum
      fun acc' => tally acc' = tally acc + (l.map cost).sum := by
  induction l generalizing acc with
  | nil => exact pure rfl
  | cons i l ih =>
    rw [List.foldlM_cons, List.foldlM_cons, List.map_cons, List.sum_cons]
    refine (each acc i).bind fun acc' tallied => ?_
    rw [← Nat.add_assoc, ← tallied]
    exact ih acc'

end Spends

namespace Difference

variable [Scalar α] {n : Nat} {f : Tensor α → Action α σ (Tensor α)}
  {f' : Tensor α → Action α (Nat × σ) (Tensor α)}

section Formulas

variable (calls : ∀ x, Spends (f x) (f' x) 1 fun _ => True) (x : Tensor α) (d e : Vector α n)
  (fx : Tensor α) (eps : α)
include calls

theorem ahead_spends : Spends (ahead f x e) (ahead f' x e) 1 fun _ => True :=
  .check calls

theorem behind_spends : Spends (behind f x e) (behind f' x e) 1 fun _ => True :=
  .check calls

theorem first_spends : Spends (first f x e eps) (first f' x e eps) 2 fun _ => True :=
  .call (ahead_spends calls x e) fun _ => .call (behind_spends calls x e) fun _ =>
    .check fun _ => .pure trivial

theorem second_spends : Spends (second f x e fx eps) (second f' x e fx eps) 2 fun _ => True :=
  .call (ahead_spends calls x e) fun _ => .check fun _ => .call (behind_spends calls x e) fun _ =>
    .check fun _ => .check fun _ => .ofExcept _

theorem mixed_spends : Spends (mixed f x d e eps) (mixed f' x d e eps) 4 fun _ => True :=
  .check fun up => .call (ahead_spends calls up e) fun _ => .call (behind_spends calls up e) fun _ =>
    .check fun _ => .check fun down => .call (ahead_spends calls down e) fun _ => .check fun _ =>
      .call (behind_spends calls down e) fun _ => .check fun _ => .check fun _ => .ofExcept _

end Formulas

/-- The indices after `i`. -/
def after (i : Fin n) : List (Fin n) := (List.finRange n).filter fun j => decide (i < j)

/-- The calls for one row of a Hessian. -/
def rowCost (i : Fin n) : Nat := 2 + ((after i).map fun _ => 4).sum

theorem rowCost_succ (i : Fin n) : rowCost i.succ = rowCost i := by
  unfold rowCost after
  rw [List.finRange_succ, List.filter_cons_of_neg (by simp), List.filter_map]
  simp only [Function.comp_def, Fin.succ_lt_succ_iff, List.map_map]

theorem rowCost_zero : rowCost (0 : Fin (n + 1)) = 2 + 4 * n := by
  unfold rowCost after
  rw [List.finRange_succ, List.filter_cons_of_neg (by simp), List.filter_map]
  simp [Function.comp_def, Fin.succ_pos, Nat.mul_comm]

/-- One row after the other, the rows above the diagonal and the diagonal take `2 n²` calls. -/
theorem sum_rowCost : ∀ n : Nat, ((List.finRange n).map rowCost).sum = 2 * n ^ 2
  | 0 => rfl
  | n + 1 => by
    have later : (rowCost ∘ Fin.succ : Fin n → Nat) = rowCost := funext rowCost_succ
    rw [List.finRange_succ, List.map_cons, List.map_map, List.sum_cons, later, sum_rowCost n,
      rowCost_zero]
    ring

variable (calls : ∀ x, Spends (f x) (f' x) 1 fun _ => True)
include calls

theorem hessianRow_spends (x fx : Tensor α) (eps : α) (acc : SquareMatrix α n × Nat) (i : Fin n) :
    Spends (hessianRow f x fx eps acc i) (hessianRow f' x fx eps acc i) (rowCost i)
      fun acc' => acc'.2 = acc.2 + rowCost i := by
  refine (second_spends calls x (displacement eps i) fx eps).bind fun a _ => ?_
  unfold rowCost
  rw [← Nat.add_assoc]
  refine Spends.foldlM Prod.snd (fun acc j => ?_) (after i) _
  have one := mixed_spends calls x (displacement eps i) (displacement eps j) eps
  exact one.bind (j := 0) fun a _ => .pure rfl

theorem gradient_spends (x : Vector α n) (eps : α) :
    Spends (gradient f (.ofVector x) eps) (gradient f' (.ofVector x) eps) (2 * n)
      fun d => d.evaluations = 2 * n := by
  rw [gradient_ofVector, gradient_ofVector]
  unfold gradientOfSize
  by_cases refused : eps ≤ 0
  · rw [if_pos refused, if_pos refused]
    exact .throw_bind _
  rw [if_neg refused, if_neg refused]
  have rows := Spends.mapM (fun i => first_spends calls (.ofVector x) (displacement eps i) eps)
    (List.finRange n)
  rw [List.length_finRange, Nat.mul_comm] at rows
  refine rows.bind (j := 0) fun rows _ => ?_
  cases Tensor.stack? rows with
  | none => exact .throw _
  | some derivative => exact .pure rfl

theorem hessian_spends (x : Vector α n) (eps : α) :
    Spends (hessian f (.ofVector x) eps) (hessian f' (.ofVector x) eps) (1 + 2 * n ^ 2)
      fun d => d.evaluations = 1 + 2 * n ^ 2 := by
  rw [hessian_ofVector, hessian_ofVector]
  unfold hessianOfSize
  by_cases refused : eps ≤ 0
  · rw [if_pos refused, if_pos refused]
    exact .throw_bind _
  rw [if_neg refused, if_neg refused]
  refine (calls _).bind fun fx _ => ?_
  have rows := Spends.foldlM Prod.snd
    (hessianRow_spends calls (.ofVector x) fx eps) (List.finRange n)
    (Vector.ofFn fun _ => Vector.ofFn fun _ => 0, 1)
  rw [sum_rowCost] at rows
  exact rows.bind (j := 0) fun acc tallied => .pure tallied

end Difference

end TrustRegion
