/-
  Problems that always answer.

  The difference formulas fail where the objective fails, where its answers are not numbers, and for
  a step that is not positive. So if the functions of a problem answer at every point, with arrays
  of the right shapes, then the evaluator of the problem answers at every point, too, whichever
  derivatives are missing (`Problem.evaluator_answering`).
-/
import TrustRegion.Proofs.DifferenceValues
import TrustRegion.Proofs.Totality

namespace TrustRegion

variable {α υ : Type}

/-- The array is a number. -/
def Tensor.IsNumber (t : Tensor α) : Prop := ∃ a, t = scalar a

namespace Problem

variable {τ : Type} {n : Nat}

/-- The functions of a problem answer at every point, with arrays of the right shapes. -/
structure Answering (p : Problem ℝ τ) (n : Nat) : Prop where
  /-- The objective. -/
  objective : ∀ x : Vector ℝ n, Returns (p.objective (.ofVector x)) Tensor.IsNumber
  /-- The gradient, if there is one. -/
  gradient : ∀ gradient, p.gradient = some gradient → ∀ x : Vector ℝ n,
    Returns (gradient (.ofVector x)) fun g => ∃ v : Vector ℝ n, g = .ofVector v
  /-- The Hessian, if there is one. -/
  hessian : ∀ hessian, p.hessian = some hessian → ∀ x : Vector ℝ n,
    Returns (hessian (.ofVector x)) fun H => ∃ M : SquareMatrix ℝ n, H = .ofSquare M

theorem asUser_returns {act : Action α τ υ} {post : υ → Prop} (returns : Returns act post) :
    Returns (asUser act) post := by
  rintro ⟨counts, ledger⟩
  obtain ⟨a, ledger', returned, holds⟩ := returns ledger
  refine ⟨a, (counts, ledger'), ?_, holds⟩
  unfold asUser
  dsimp only
  rw [returned]

theorem count_returns (change : Counts → Counts) :
    Returns (count change : Action α (Counts × τ) Unit) fun _ => True :=
  fun _ => ⟨(), _, rfl, trivial⟩

section Parts

variable {p : Problem ℝ τ} {x : Vector ℝ n} {isValue : ℝ → Prop} {isDerivative : Tensor ℝ → Prop}

/-- A value and a gradient, which is either supplied or differenced. -/
theorem valueAndGradient_returns
    (objective : Returns (p.objective (.ofVector x)) fun t => ∃ a, isValue a ∧ t = .scalar a)
    (supplied : ∀ gradient, p.gradient = some gradient →
      Returns (gradient (.ofVector x)) isDerivative)
    (differenced : p.gradient = none →
      Returns (Difference.gradient p.objective (.ofVector x) gradientStep)
        fun d => isDerivative d.derivative) :
    Returns (p.valueAndGradient (.ofVector x)) fun answer =>
      ∃ a g, isValue a ∧ isDerivative g ∧ answer = (.scalar a, g) := by
  refine (asUser_returns objective).bind ?_
  rintro _ ⟨a, value, rfl⟩
  refine .check rfl (.bind (count_returns _) fun _ _ => ?_)
  cases source : p.gradient with
  | some gradient =>
    refine (asUser_returns (supplied gradient source)).bind fun g derivative => ?_
    exact .bind (count_returns _) fun _ _ => .pure ⟨a, g, value, derivative, rfl⟩
  | none =>
    refine (asUser_returns (differenced source)).bind fun d derivative => ?_
    exact .bind (count_returns _) fun _ _ => .pure ⟨a, d.derivative, value, derivative, rfl⟩

/-- A Hessian, which is either supplied or differenced. -/
theorem hessianAt_returns
    (supplied : ∀ hessian, p.hessian = some hessian → Returns (hessian (.ofVector x)) isDerivative)
    (differenced : p.hessian = none →
      Returns (Difference.hessian p.objective (.ofVector x) hessianStep)
        fun d => isDerivative d.derivative) :
    Returns (p.hessianAt (.ofVector x)) isDerivative := by
  unfold hessianAt
  cases source : p.hessian with
  | some hessian =>
    exact .bind (count_returns _) fun _ _ => asUser_returns (supplied hessian source)
  | none =>
    refine (asUser_returns (differenced source)).bind fun d derivative => ?_
    exact .bind (count_returns _) fun _ _ => .pure derivative

end Parts

theorem gradientStep_pos : (0 : ℝ) < gradientStep := by
  norm_num [gradientStep]

theorem hessianStep_pos : (0 : ℝ) < hessianStep := by
  norm_num [hessianStep]

theorem Answering.values {p : Problem ℝ τ} (answering : p.Answering n) (x : Vector ℝ n) :
    Returns (p.objective (.ofVector x)) fun t => ∃ a, True ∧ t = .scalar a := by
  refine (answering.objective x).weaken ?_
  rintro _ ⟨a, rfl⟩
  exact ⟨a, trivial, rfl⟩

/-- A problem whose functions answer has an evaluator that does, whatever derivatives are missing. -/
theorem evaluator_answering {p : Problem ℝ τ} (answering : p.Answering n) :
    p.evaluator.Answering n where
  valueAndGradient := fun x ledger => by
    have returns := valueAndGradient_returns (answering.values x)
      (fun gradient supplied => answering.gradient gradient supplied x)
      (fun _ => (Difference.gradient_returns answering.values x gradientStep_pos).weaken
        fun d ⟨g, derivative, _⟩ => ⟨g, derivative⟩)
    obtain ⟨_, ledger', returned, a, _, -, ⟨g, rfl⟩, rfl⟩ := returns ledger
    exact ⟨a, g, ledger', returned⟩
  hessian := fun x ledger => by
    have returns := hessianAt_returns (fun hessian supplied => answering.hessian hessian supplied x)
      (fun _ => (Difference.hessian_returns answering.values x hessianStep_pos).weaken
        fun d ⟨H, derivative, _⟩ => ⟨H, derivative⟩)
    obtain ⟨_, ledger', returned, H, rfl⟩ := returns ledger
    exact ⟨H, ledger', returned⟩

end Problem

end TrustRegion
