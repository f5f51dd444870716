/-
  Differences of polynomials of degree three.

  Along an axis a cubic polynomial is one in one variable, with the partial derivatives as its Taylor
  coefficients (`eval_add_single`). Even terms cancel in a first quotient and odd ones in a second,
  so a gradient by differences is off by a multiple of the third derivatives and a Hessian is not off
  at all: a mixed quotient is a first quotient of first quotients, along one axis and then along the
  other, and their errors are fourth derivatives (`eval_mixed`). A Hessian by differences is symmetric
  for every function, because its entries are set in pairs (`Difference.hessian_mirrored`).
-/
import TrustRegion.Proofs.QuadraticDifferences

namespace TrustRegion

open MvPolynomial

variable {n : Nat}

/-! ## Degrees of derivatives -/

variable {p : MvPolynomial (Fin n) ℝ} {d : Nat}

/-- A derivative has a smaller degree. -/
theorem totalDegree_pderiv_le (degree : p.totalDegree ≤ d + 1) (i : Fin n) :
    (pderiv i p).totalDegree ≤ d := by
  refine Finset.sup_le fun m mem => ?_
  rw [mem_support_iff, coeff_pderiv] at mem
  have raised := le_totalDegree (mem_support_iff.2 (left_ne_zero_of_mul mem))
  rw [Finsupp.sum_add_index' (fun _ => rfl) fun _ _ _ => rfl, Finsupp.sum_single_index rfl] at raised
  omega

theorem pderiv_eq_zero (degree : p.totalDegree ≤ 0) (i : Fin n) : pderiv i p = 0 := by
  rw [totalDegree_eq_zero_iff_eq_C.1 (Nat.le_zero.1 degree), pderiv_C]

/-! ## Polynomials along an axis -/

/-- The polynomial on the line through a point along an axis. -/
noncomputable def alongAxis (v : Fin n → ℝ) (i : Fin n) (p : MvPolynomial (Fin n) ℝ) :
    Polynomial ℝ :=
  aeval (fun j => Polynomial.C (v j) + (Pi.single i Polynomial.X : Fin n → Polynomial ℝ) j) p

variable (v : Fin n → ℝ) (i j : Fin n) (p)

theorem eval_alongAxis (t : ℝ) : (alongAxis v i p).eval t = eval (v + Pi.single i t) p := by
  unfold alongAxis
  induction p using MvPolynomial.induction_on with
  | C a => simp
  | add p q ihp ihq => rw [map_add, map_add, Polynomial.eval_add, ihp, ihq]
  | mul_X p j ih =>
    rw [map_mul, map_mul, Polynomial.eval_mul, ih, aeval_X, eval_X, Polynomial.eval_add,
      Polynomial.eval_C, Pi.add_apply]
    by_cases same : j = i
    · subst same
      rw [Pi.single_eq_same, Pi.single_eq_same, Polynomial.eval_X]
    · rw [Pi.single_eq_of_ne same, Pi.single_eq_of_ne same, Polynomial.eval_zero]

theorem derivative_alongAxis :
    Polynomial.derivative (alongAxis v i p) = alongAxis v i (pderiv i p) := by
  unfold alongAxis
  induction p using MvPolynomial.induction_on with
  | C a => simp
  | add p q ihp ihq => rw [map_add, map_add, map_add, map_add, ihp, ihq]
  | mul_X p j ih =>
    rw [map_mul, Polynomial.derivative_mul, ih, pderiv_mul, map_add, map_mul, map_mul, pderiv_X]
    by_cases same : j = i
    · subst same
      simp
    · simp [Pi.single_eq_of_ne same]

theorem natDegree_alongAxis_le : (alongAxis v i p).natDegree ≤ p.totalDegree := by
  refine (aeval_natDegree_le p le_rfl _ fun j => ?_).trans (Nat.mul_one _).le
  by_cases same : j = i
  · subst same
    rw [Pi.single_eq_same]
    exact Polynomial.natDegree_C_add.trans_le Polynomial.natDegree_X_le
  · rw [Pi.single_eq_of_ne same, add_zero, Polynomial.natDegree_C]
    exact Nat.zero_le 1

/-- The Taylor coefficients along an axis are iterated derivatives. -/
theorem coeff_alongAxis (k : Nat) :
    k.factorial * (alongAxis v i p).coeff k = eval v ((pderiv i)^[k] p) := by
  have iterated : Polynomial.derivative^[k] (alongAxis v i p) = alongAxis v i ((pderiv i)^[k] p) := by
    induction k generalizing p with
    | zero => rfl
    | succ k ih => rw [Function.iterate_succ_apply, derivative_alongAxis, ih, Function.iterate_succ_apply]
  have constant := Polynomial.coeff_iterate_derivative (k := k) (alongAxis v i p) 0
  rw [zero_add, Nat.descFactorial_self, nsmul_eq_mul] at constant
  rw [← constant, iterated, Polynomial.coeff_zero_eq_eval_zero, eval_alongAxis, Pi.single_zero, add_zero]

variable {p}

/-- The Taylor expansion of a cubic polynomial along an axis. -/
theorem eval_add_single (cubic : p.totalDegree ≤ 3) (t : ℝ) :
    eval (v + Pi.single i t) p = eval v p + t * eval v (pderiv i p) +
      t ^ 2 / 2 * eval v (pderiv i (pderiv i p)) +
      t ^ 3 / 6 * eval v (pderiv i (pderiv i (pderiv i p))) := by
  have zeroth : (alongAxis v i p).coeff 0 = eval v p := by simpa using coeff_alongAxis p v i 0
  have first : (alongAxis v i p).coeff 1 = eval v (pderiv i p) := by
    simpa using coeff_alongAxis p v i 1
  have second : 2 * (alongAxis v i p).coeff 2 = eval v (pderiv i (pderiv i p)) := by
    simpa using coeff_alongAxis p v i 2
  have third : 6 * (alongAxis v i p).coeff 3 = eval v (pderiv i (pderiv i (pderiv i p))) := by
    simpa [Nat.factorial] using coeff_alongAxis p v i 3
  have short : (alongAxis v i p).natDegree < 4 :=
    Nat.lt_succ_of_le ((natDegree_alongAxis_le p v i).trans cubic)
  rw [← eval_alongAxis, Polynomial.eval_eq_sum_range' short, ← zeroth, ← first, ← second, ← third]
  simp only [Finset.sum_range_succ, Finset.sum_range_zero]
  ring

theorem eval_sub_single (cubic : p.totalDegree ≤ 3) (t : ℝ) :
    eval (v - Pi.single i t) p = eval v p - t * eval v (pderiv i p) +
      t ^ 2 / 2 * eval v (pderiv i (pderiv i p)) -
      t ^ 3 / 6 * eval v (pderiv i (pderiv i (pderiv i p))) := by
  rw [sub_eq_add_neg, ← Pi.single_neg, eval_add_single v i cubic]
  ring

/-! ## Quotients -/

theorem eval_first (cubic : p.totalDegree ≤ 3) (t : ℝ) :
    eval (v + Pi.single i t) p - eval (v - Pi.single i t) p =
      2 * t * eval v (pderiv i p) + t ^ 3 / 3 * eval v (pderiv i (pderiv i (pderiv i p))) := by
  rw [eval_add_single v i cubic, eval_sub_single v i cubic]
  ring

theorem eval_second (cubic : p.totalDegree ≤ 3) (t : ℝ) :
    eval (v + Pi.single i t) p - 2 * eval v p + eval (v - Pi.single i t) p =
      t ^ 2 * eval v (pderiv i (pderiv i p)) := by
  rw [eval_add_single v i cubic, eval_sub_single v i cubic]
  ring

/-- A quadratic polynomial has no third derivatives. -/
theorem pderiv_third (quadratic : p.totalDegree ≤ 2) (k l : Fin n) :
    pderiv i (pderiv k (pderiv l p)) = 0 :=
  pderiv_eq_zero (totalDegree_pderiv_le (totalDegree_pderiv_le quadratic l) k) i

theorem eval_mixed (cubic : p.totalDegree ≤ 3) (t : ℝ) :
    eval (v + Pi.single i t + Pi.single j t) p - eval (v + Pi.single i t - Pi.single j t) p -
      eval (v - Pi.single i t + Pi.single j t) p + eval (v - Pi.single i t - Pi.single j t) p =
      4 * t ^ 2 * eval v (pderiv i (pderiv j p)) := by
  have quadratic : (pderiv j p).totalDegree ≤ 2 := totalDegree_pderiv_le cubic j
  have slope := eval_first v i (quadratic.trans (Nat.le_succ 2)) t
  rw [pderiv_third i quadratic i i, map_zero, mul_zero, add_zero] at slope
  -- The third derivative along the other axis is the same on both sides.
  have constant : (pderiv j (pderiv j (pderiv j p))).totalDegree ≤ 0 :=
    totalDegree_pderiv_le (totalDegree_pderiv_le quadratic j) j
  have level := eval_first v i (constant.trans (Nat.zero_le 3)) t
  simp only [pderiv_eq_zero constant, map_zero, mul_zero, add_zero] at level
  have ahead := eval_first (v + Pi.single i t) j cubic t
  have behind := eval_first (v - Pi.single i t) j cubic t
  linear_combination ahead - behind + 2 * t * slope + t ^ 3 / 3 * level

theorem pderiv_comm (p : MvPolynomial (Fin n) ℝ) :
    pderiv i (pderiv j p) = pderiv j (pderiv i p) := by
  rcases eq_or_ne i j with rfl | distinct
  · rfl
  · ext m
    simp only [coeff_pderiv, Finsupp.add_apply, Finsupp.single_eq_of_ne distinct,
      Finsupp.single_eq_of_ne distinct.symm, add_zero]
    rw [add_right_comm]
    ring

/-! ## Symmetry -/

/-- What every round of a loop preserves holds at its end. -/
theorem foldlM_preserves {α σ ω ι : Type} {step : ω → ι → Action α σ ω} {P : ω → Prop}
    (l : List ι) (each : ∀ i ∈ l, ∀ acc ledger acc' ledger', P acc →
      step acc i ledger = .ok acc' ledger' → P acc')
    {acc acc' : ω} {ledger ledger' : σ} (holds : P acc)
    (returned : l.foldlM step acc ledger = .ok acc' ledger') : P acc' := by
  induction l generalizing acc ledger with
  | nil =>
    cases returned
    exact holds
  | cons i l ih =>
    rw [List.foldlM_cons] at returned
    obtain ⟨acc₁, ledger₁, round, rest⟩ := bind_eq_ok.1 returned
    exact ih (fun j mem => each j (List.mem_cons_of_mem i mem))
      (each i List.mem_cons_self acc ledger acc₁ ledger₁ holds round) rest

namespace SquareMatrix

variable {α : Type} {A : SquareMatrix α n}

/-- Entries across the diagonal from each other are the same. -/
def Mirrored (A : SquareMatrix α n) : Prop := ∀ i j, A i j = A j i

theorem Mirrored.setEntry_diagonal (mirrored : A.Mirrored) (i : Fin n) (a : α) :
    (A.setEntry i i a).Mirrored := by
  intro p q
  rw [get_setEntry, get_setEntry, mirrored p q]
  exact if_congr and_comm rfl rfl

theorem Mirrored.setEntry_pair (mirrored : A.Mirrored) (i j : Fin n) (a : α) :
    ((A.setEntry i j a).setEntry j i a).Mirrored := by
  intro p q
  rw [get_setEntry, get_setEntry, get_setEntry, get_setEntry, mirrored p q]
  split_ifs <;> grind

end SquareMatrix

namespace Difference

section Mirrored

variable {α σ : Type} [Scalar α] {f : Tensor α → Action α σ (Tensor α)} {x fx : Tensor α} {eps : α}
  {ledger ledger' : σ}

theorem hessianRow_mirrored {acc acc' : SquareMatrix α n × Nat} (mirrored : acc.1.Mirrored)
    (returned : hessianRow f x fx eps acc i ledger = .ok acc' ledger') : acc'.1.Mirrored := by
  obtain ⟨a, ledger₁, -, rest⟩ := bind_eq_ok.1 returned
  refine foldlM_preserves _ (P := fun acc => acc.1.Mirrored) (fun j _ acc ledger acc' ledger' => ?_)
    (mirrored.setEntry_diagonal i a) rest
  intro mirrored round
  obtain ⟨b, ledger₂, -, set⟩ := bind_eq_ok.1 round
  cases set
  exact mirrored.setEntry_pair i j b

/-- A Hessian by differences is symmetric, whatever is differenced. -/
theorem hessian_mirrored {d : Differenced α} (returned : hessian f x eps ledger = .ok d ledger') :
    ∃ H : SquareMatrix α x.data.size, d.derivative = .ofSquare H ∧ H.Mirrored := by
  unfold hessian hessianOfSize at returned
  split at returned
  · cases returned
  · obtain ⟨fx, ledger₁, -, rest⟩ := bind_eq_ok.1 returned
    obtain ⟨acc, ledger₂, rows, built⟩ := bind_eq_ok.1 rest
    cases built
    refine ⟨acc.1, rfl, ?_⟩
    refine foldlM_preserves _ (fun i _ acc ledger acc' ledger' => hessianRow_mirrored i) ?_ rows
    intro i j
    simp

end Mirrored

/-! ## Values of a polynomial -/

variable {p : MvPolynomial (Fin n) ℝ} {x : Vector ℝ n} {eps q : ℝ} {i j : Fin n}

/-- The values of a polynomial. -/
def polynomialValues (p : MvPolynomial (Fin n) ℝ) (x : Vector ℝ n) (a : ℝ) : Prop :=
  a = eval x.get p

/-- A first quotient is off by the third derivative. -/
theorem IsFirst.eq_of_cubic (cubic : p.totalDegree ≤ 3) (positive : 0 < eps)
    (quotient : IsFirst (polynomialValues p) x (displacement eps i) eps q) :
    q = eval x.get (pderiv i p) +
      eps ^ 2 / 6 * eval x.get (pderiv i (pderiv i (pderiv i p))) := by
  obtain ⟨a, b, rfl, rfl, rfl⟩ := quotient
  have two : (2.0 : ℝ) = 2 := by norm_num
  rw [get_add_eq, get_sub_eq, get_displacement, eval_first x.get i cubic, two]
  field_simp
  ring

/-- An entry of the Hessian by differences is the second derivative. -/
theorem IsEntry.eq_of_cubic (cubic : p.totalDegree ≤ 3) (positive : 0 < eps)
    (entry : IsEntry (polynomialValues p) x eps i j q) :
    q = eval x.get (pderiv i (pderiv j p)) := by
  unfold IsEntry at entry
  split at entry
  · next same =>
    subst same
    obtain ⟨a, b, c, rfl, rfl, rfl, rfl⟩ := entry
    have two : (2.0 : ℝ) = 2 := by norm_num
    rw [get_add_eq, get_sub_eq, get_displacement, two, eval_second x.get i cubic,
      mul_div_cancel_left₀ _ (by positivity)]
  · obtain ⟨a, b, c, a', rfl, rfl, rfl, rfl, rfl⟩ := entry
    have four : (4.0 : ℝ) = 4 := by norm_num
    have ordered : pderiv (min i j) (pderiv (max i j) p) = pderiv i (pderiv j p) := by
      rcases le_total i j with le | le
      · rw [min_eq_left le, max_eq_right le]
      · rw [min_eq_right le, max_eq_left le, pderiv_comm]
    simp only [get_add_eq, get_sub_eq, get_displacement]
    rw [eval_mixed x.get _ _ cubic, ordered, four, mul_div_cancel_left₀ _ (by positivity)]

end Difference

/--
Of a polynomial of degree at most three the Hessian by differences is the Hessian, and the gradient
is off by a sixth of the third derivatives times the square of the width, so it is exact up to
degree two. Of any function whatsoever, the Hessian by differences is symmetric.
-/
theorem differences_exact {σ : Type} :
    (∀ (p : MvPolynomial (Fin n) ℝ) (f : Tensor ℝ → Action ℝ σ (Tensor ℝ)) (x : Vector ℝ n) (eps : ℝ),
      p.totalDegree ≤ 3 → (∀ y, Returns (f (.ofVector y)) (· = .scalar (eval y.get p))) → 0 < eps →
        Returns (Difference.hessian f (.ofVector x) eps) (fun d =>
          d.derivative = .ofSquare (.ofFn fun i j => eval x.get (pderiv i (pderiv j p)))) ∧
        Returns (Difference.gradient f (.ofVector x) eps) (fun d =>
          d.derivative = .ofVector (.ofFn fun i => eval x.get (pderiv i p) +
            eps ^ 2 / 6 * eval x.get (pderiv i (pderiv i (pderiv i p)))) ∧
          (p.totalDegree ≤ 2 →
            d.derivative = .ofVector (.ofFn fun i => eval x.get (pderiv i p))))) ∧
    ∀ (f : Tensor ℝ → Action ℝ σ (Tensor ℝ)) (x : Tensor ℝ) (eps : ℝ) (ledger ledger' : σ)
      (d : Differenced ℝ), Difference.hessian f x eps ledger = .ok d ledger' →
        ∃ H : SquareMatrix ℝ x.data.size, d.derivative = .ofSquare H ∧ ∀ i j, H i j = H j i := by
  refine ⟨fun p f x eps cubic answers positive => ?_,
    fun f x eps ledger ledger' d returned => Difference.hessian_mirrored returned⟩
  have values (y : Vector ℝ n) : Returns (f (.ofVector y)) fun t =>
      ∃ a, Difference.polynomialValues p y a ∧ t = .scalar a :=
    (answers y).weaken fun t value => ⟨_, rfl, value⟩
  constructor
  · refine (Difference.hessian_returns values x positive).weaken ?_
    rintro d ⟨H, derivative, entries⟩
    have exact_H : H = .ofFn fun i j => eval x.get (pderiv i (pderiv j p)) :=
      matrix_ext fun i j => by
        rw [SquareMatrix.get_ofFn, (entries i j).eq_of_cubic cubic positive]
    rw [derivative, exact_H]
  · refine (Difference.gradient_returns values x positive).weaken ?_
    rintro d ⟨g, derivative, quotients⟩
    have exact_g : g = .ofFn fun i => eval x.get (pderiv i p) +
        eps ^ 2 / 6 * eval x.get (pderiv i (pderiv i (pderiv i p))) :=
      vector_ext fun i => by rw [get_vectorOfFn, (quotients i).eq_of_cubic cubic positive]
    refine ⟨by rw [derivative, exact_g], fun quadratic => ?_⟩
    have exact_quadratic : g = .ofFn fun i => eval x.get (pderiv i p) := by
      rw [exact_g]
      refine vector_ext fun i => ?_
      rw [get_vectorOfFn, get_vectorOfFn, pderiv_third i quadratic, map_zero, mul_zero, add_zero]
    rw [derivative, exact_quadratic]

/-- The objective with the values of a polynomial. -/
noncomputable def polynomialObjective (p : MvPolynomial (Fin n) ℝ) (x : Tensor ℝ) :
    Action ℝ Unit (Tensor ℝ) :=
  match x.toVector? n with
  | some v => pure (.scalar (eval v.get p))
  | none => throw .shapeMismatch

theorem polynomialObjective_returns (p : MvPolynomial (Fin n) ℝ) (x : Vector ℝ n) :
    Returns (polynomialObjective p (.ofVector x)) (· = .scalar (eval x.get p)) := by
  unfold polynomialObjective
  rw [Tensor.toVector?_ofVector]
  exact .pure rfl

/-- The product `x y²`. -/
noncomputable def product : MvPolynomial (Fin 2) ℝ := X 0 * X 1 * X 1

theorem product_cubic : product.totalDegree ≤ 3 := by
  have outer := totalDegree_mul (X 0 * X 1 : MvPolynomial (Fin 2) ℝ) (X 1)
  have inner := totalDegree_mul (X 0 : MvPolynomial (Fin 2) ℝ) (X 1)
  rw [totalDegree_X] at outer inner
  rw [totalDegree_X] at inner
  unfold product
  omega

/-- At `(1, 2)` the differences of `x y²` are its second derivatives. -/
theorem differences_exact_product : product.totalDegree ≤ 3 ∧
    (∀ y, Returns (polynomialObjective product (.ofVector y)) (· = .scalar (eval y.get product))) ∧
    ∃ d : Differenced ℝ,
      Difference.hessian (polynomialObjective product) (.ofVector #v[1, 2]) 0.5 () = .ok d () ∧
      d.derivative = .ofSquare #v[#v[0, 4], #v[4, 2]] ∧
      ∃ H : SquareMatrix ℝ 2, d.derivative = .ofSquare H ∧ ∀ i j, H i j = H j i := by
  have answers := polynomialObjective_returns product
  have differences := differences_exact (n := 2) (σ := Unit)
  obtain ⟨d, ledger, returned, derivative⟩ :=
    (differences.1 product _ #v[1, 2] 0.5 product_cubic answers (by norm_num)).1 ()
  have entries : SquareMatrix.ofFn (fun i j =>
      eval (#v[1, 2] : Vector ℝ 2).get (pderiv i (pderiv j product))) = #v[#v[0, 4], #v[4, 2]] := by
    refine matrix_ext fun i j => ?_
    rw [SquareMatrix.get_ofFn]
    fin_cases i <;> fin_cases j <;> norm_num [product, pderiv_X]
  exact ⟨product_cubic, answers, d, returned, by rw [derivative, entries],
    differences.2 _ _ _ _ _ _ returned⟩

end TrustRegion
