/-
  What the difference formulas return.

  `Returns act post` says that an operation always returns, with a result that satisfies `post`; it
  has one rule for every way in which the formulas are put together. Read off with them, a gradient
  has a first quotient of values in every component (`Difference.gradient_returns`), and a Hessian
  has second quotients on its diagonal and mixed ones beside it (`Difference.hessian_returns`).

  The values of the objective may depend on its ledger. What is known of them is a relation `V`: at
  the point `x` they are numbers `a` with `V x a`.
-/
import TrustRegion.Proofs.Reals
import TrustRegion.Evaluator.Problem
import TrustRegion.Proofs.Turn

namespace TrustRegion

variable {α σ υ ω ι κ : Type}

/-- The operation returns from every ledger, with a result that satisfies `post`. -/
def Returns (act : Action α σ υ) (post : υ → Prop) : Prop :=
  ∀ ledger, ∃ a ledger', act ledger = .ok a ledger' ∧ post a

namespace Returns

variable {act : Action α σ υ} {next : υ → Action α σ ω} {post post₁ : υ → Prop} {post' : ω → Prop}

theorem pure {a : υ} (holds : post a) : Returns (Pure.pure a : Action α σ υ) post :=
  fun ledger => ⟨a, ledger, rfl, holds⟩

theorem weaken (returns : Returns act post) (implied : ∀ a, post a → post₁ a) :
    Returns act post₁ := by
  intro ledger
  obtain ⟨a, ledger', returned, holds⟩ := returns ledger
  exact ⟨a, ledger', returned, implied a holds⟩

theorem bind (first : Returns act post) (rest : ∀ a, post a → Returns (next a) post') :
    Returns (act >>= next) post' := by
  intro ledger
  obtain ⟨a, ledger₁, called, holds⟩ := first ledger
  obtain ⟨b, ledger₂, returned, holds'⟩ := rest a holds ledger₁
  exact ⟨b, ledger₂, bind_eq_ok.2 ⟨a, ledger₁, called, returned⟩, holds'⟩

theorem ofExcept {result : Except (Fault α) υ} {a : υ} (admitted : result = .ok a) (holds : post a) :
    Returns (MonadExcept.ofExcept result : Action α σ υ) post :=
  fun ledger => ⟨a, ledger, ofExcept_eq_ok.2 ⟨admitted, rfl⟩, holds⟩

/-- A check that is passed, and then the rest. -/
theorem check {result : Except (Fault α) υ} {a : υ} (admitted : result = .ok a)
    (rest : Returns (next a) post') : Returns (MonadExcept.ofExcept result >>= next) post' := by
  rw [admitted]
  exact rest

theorem mapM {f : ι → Action α σ υ} {post : ι → υ → Prop} (each : ∀ i, Returns (f i) (post i))
    (l : List ι) : Returns (l.mapM f) fun as => List.Forall₂ post l as := by
  induction l with
  | nil => exact pure .nil
  | cons i l ih =>
    rw [List.mapM_cons]
    exact (each i).bind fun a holds => ih.bind fun as all => pure (.cons holds all)

/-- One operation for each index: each has its own result. -/
theorem mapM_finRange {n : Nat} {f : Fin n → Action α σ υ} {post : Fin n → υ → Prop}
    (each : ∀ i, Returns (f i) (post i)) : Returns ((List.finRange n).mapM f) fun as =>
      ∃ v : Vector υ n, as = v.toList ∧ ∀ i, post i (v.get i) := by
  refine (mapM each (List.finRange n)).weaken fun as all => ?_
  obtain ⟨length, all⟩ := List.forall₂_iff_get.1 all
  rw [List.length_finRange] at length
  subst length
  refine ⟨⟨as.toArray, rfl⟩, rfl, fun i => ?_⟩
  have inside : i.val < (List.finRange as.length).length := by
    rw [List.length_finRange]
    exact i.isLt
  have holds := all i inside i.isLt
  rwa [List.get_eq_getElem, List.getElem_finRange] at holds

/-- A loop in which what is done stays done: each round does what its element adds. -/
theorem foldlM {step : ω → ι → Action α σ ω} {done : ω → κ → Prop} {adds : ι → κ → Prop}
    (l : List ι) (each : ∀ i ∈ l, ∀ acc, Returns (step acc i) fun acc' =>
      ∀ k, done acc k ∨ adds i k → done acc' k) (acc : ω) :
    Returns (l.foldlM step acc) fun acc' =>
      ∀ k, done acc k ∨ (∃ i ∈ l, adds i k) → done acc' k := by
  induction l generalizing acc with
  | nil =>
    refine pure fun k known => known.resolve_right ?_
    rintro ⟨i, mem, -⟩
    exact List.not_mem_nil mem
  | cons i l ih =>
    rw [List.foldlM_cons]
    refine (each i List.mem_cons_self acc).bind fun acc₁ first => ?_
    have later := ih (fun j mem => each j (List.mem_cons_of_mem i mem)) acc₁
    refine later.weaken fun acc' rest k known => rest k ?_
    rcases known with before | ⟨j, mem, added⟩
    · exact Or.inl (first k (Or.inl before))
    · rcases List.mem_cons.1 mem with rfl | mem
      · exact Or.inl (first k (Or.inr added))
      · exact Or.inr ⟨j, mem, added⟩

end Returns

/-! ## Numbers -/

namespace Tensor

theorem combine_scalar {φ : Type} (f : α → α → α) (a b : α) :
    (scalar a).combine f (scalar b) = (.ok (scalar (f a b)) : Except (Fault φ) (Tensor α)) := by
  rw [combine, zipWith?_scalar]
  rfl

theorem map_scalar (f : α → α) (a : α) : (scalar a).map f = scalar (f a) := by
  simp [map, scalar]

theorem entry_map_scalar {φ : Type} (f : α → α) (a : α) :
    ((scalar a).map f).entry = (.ok (f a) : Except (Fault φ) α) := by
  rw [map_scalar]
  rfl

theorem data_foldl_append (as : List α) (data : Array α) :
    (as.map scalar).foldl (fun acc u => acc ++ u.data) data = data ++ as.toArray := by
  induction as generalizing data with
  | nil => simp
  | cons a as ih =>
    rw [List.map_cons, List.foldl_cons, ih, List.toArray_cons, Array.append_assoc]
    rfl

/-- Numbers can be stacked; that gives the vector of them. -/
theorem stack?_map_scalar {n : Nat} (v : Vector α n) :
    stack? (v.toList.map scalar) = some (ofVector v) := by
  obtain ⟨⟨entries⟩, rfl⟩ := v
  cases entries with
  | nil => rfl
  | cons a as =>
    have shapes : (as.map scalar).all (fun u => u.shape == (scalar a).shape) = true := by
      refine List.all_eq_true.2 fun u mem => ?_
      obtain ⟨b, -, rfl⟩ := List.mem_map.1 mem
      rfl
    have entries : (as.map scalar).foldl (fun acc u => acc ++ u.data) (scalar a).data =
        (a :: as).toArray := by
      rw [data_foldl_append]
      exact (List.toArray_cons a as).symm
    have volume : ((as.map scalar).foldl (fun acc u => acc ++ u.data) (scalar a).data).size =
        Shape.volume (((as.map scalar).length + 1) :: (scalar a).shape) := by
      rw [entries, List.length_map]
      exact (Nat.mul_one _).symm
    refine (if_pos shapes).trans ((dif_pos volume).trans (congrArg some (ext_data ?_ entries)))
    have length : (as.map scalar).length + 1 = as.length + 1 := by rw [List.length_map]
    exact congrArg (· :: []) length

end Tensor

theorem SquareMatrix.get_setEntry {n : Nat} (M : SquareMatrix α n) (i j p q : Fin n) (a : α) :
    (M.setEntry i j a) p q = if i = p ∧ j = q then a else M p q := by
  have row : (M.setEntry i j a).get p = if i.val = p.val then (M.get i).set j a else M.get p :=
    Vector.getElem_set i.isLt p.isLt
  rw [row]
  by_cases same : i = p
  · subst same
    rw [if_pos rfl]
    have entry : ((M.get i).set j a).get q = if j.val = q.val then a else M i q :=
      Vector.getElem_set j.isLt q.isLt
    rw [entry]
    simp only [Fin.val_inj, true_and]
  · rw [if_neg fun equal => same (Fin.val_inj.1 equal), if_neg fun both => same both.1]

/-! ## Differences -/

namespace Difference

variable {n : Nat} {V : Vector ℝ n → ℝ → Prop}

/-- The number `q` is a first quotient of values at `x` along `e`. -/
def IsFirst (V : Vector ℝ n → ℝ → Prop) (x e : Vector ℝ n) (eps q : ℝ) : Prop :=
  ∃ a b, V (x + e) a ∧ V (x - e) b ∧ q = (a - b) / (2.0 * eps)

/-- The number `q` is a second quotient of values at `x` along `e`. -/
def IsSecond (V : Vector ℝ n → ℝ → Prop) (x e : Vector ℝ n) (eps q : ℝ) : Prop :=
  ∃ a b c, V (x + e) a ∧ V (x - e) b ∧ V x c ∧ q = (a - 2.0 * c + b) / eps ^ 2

/-- The number `q` is a mixed quotient of values at `x` along `d` and `e`. -/
def IsMixed (V : Vector ℝ n → ℝ → Prop) (x d e : Vector ℝ n) (eps q : ℝ) : Prop :=
  ∃ a b c a', V (x + d + e) a ∧ V (x + d - e) b ∧ V (x - d + e) c ∧ V (x - d - e) a' ∧
    q = (a - b - c + a') / (4.0 * eps ^ 2)

/-- The number `q` is an entry of a Hessian by differences: mixed quotients are taken once. -/
def IsEntry (V : Vector ℝ n → ℝ → Prop) (x : Vector ℝ n) (eps : ℝ) (i j : Fin n) (q : ℝ) : Prop :=
  if i = j then IsSecond V x (displacement eps i) eps q
  else IsMixed V x (displacement eps (min i j)) (displacement eps (max i j)) eps q

theorem IsEntry.symm {x : Vector ℝ n} {eps q : ℝ} {i j : Fin n} (entry : IsEntry V x eps i j q) :
    IsEntry V x eps j i q := by
  unfold IsEntry at entry ⊢
  by_cases same : i = j
  · subst same
    exact entry
  · rw [if_neg same] at entry
    rw [if_neg (Ne.symm same), min_comm, max_comm]
    exact entry

/-- The entry of a matrix at a place is one of a Hessian by differences. -/
def Filled (V : Vector ℝ n → ℝ → Prop) (x : Vector ℝ n) (eps : ℝ) (M : SquareMatrix ℝ n)
    (place : Fin n × Fin n) : Prop :=
  IsEntry V x eps place.1 place.2 (M place.1 place.2)

theorem Filled.setEntry {x : Vector ℝ n} {eps a : ℝ} {M : SquareMatrix ℝ n} {i j : Fin n}
    {place : Fin n × Fin n} (entry : IsEntry V x eps i j a)
    (known : Filled V x eps M place ∨ place = (i, j)) : Filled V x eps (M.setEntry i j a) place := by
  unfold Filled
  rw [SquareMatrix.get_setEntry]
  split
  · next same =>
    obtain ⟨rfl, rfl⟩ := same
    exact entry
  · next other =>
    refine known.resolve_right ?_
    rintro rfl
    exact other ⟨rfl, rfl⟩

variable {f : Tensor ℝ → Action ℝ σ (Tensor ℝ)}
  (values : ∀ x : Vector ℝ n, Returns (f (.ofVector x)) fun t => ∃ a, V x a ∧ t = .scalar a)
  (x d e : Vector ℝ n) (eps : ℝ)
include values

theorem ahead_returns : Returns (ahead f (.ofVector x) e) fun t =>
    ∃ a, V (x + e) a ∧ t = .scalar a :=
  .check (Tensor.combine_ofVector _ x e) (values (x + e))

theorem behind_returns : Returns (behind f (.ofVector x) e) fun t =>
    ∃ a, V (x - e) a ∧ t = .scalar a :=
  .check (Tensor.combine_ofVector _ x e) (values (x - e))

theorem first_returns : Returns (first f (.ofVector x) e eps) fun t =>
    ∃ q, IsFirst V x e eps q ∧ t = .scalar q := by
  refine (ahead_returns values x e).bind ?_
  rintro _ ⟨a, high, rfl⟩
  refine (behind_returns values x e).bind ?_
  rintro _ ⟨b, low, rfl⟩
  exact .check (Tensor.combine_scalar _ a b)
    (.pure ⟨_, ⟨a, b, high, low, rfl⟩, Tensor.map_scalar _ _⟩)

theorem second_returns {c : ℝ} (here : V x c) :
    Returns (second f (.ofVector x) e (.scalar c) eps) fun q => IsSecond V x e eps q := by
  refine (ahead_returns values x e).bind ?_
  rintro _ ⟨a, high, rfl⟩
  rw [Tensor.map_scalar]
  refine .check (Tensor.combine_scalar _ a _) ((behind_returns values x e).bind ?_)
  rintro _ ⟨b, low, rfl⟩
  exact .check (Tensor.combine_scalar _ _ b) (.check (checkedSquare_real eps)
    (.ofExcept (Tensor.entry_map_scalar _ _) ⟨a, b, c, high, low, here, rfl⟩))

theorem mixed_returns :
    Returns (mixed f (.ofVector x) d e eps) fun q => IsMixed V x d e eps q := by
  refine .check (Tensor.combine_ofVector _ x d) ((ahead_returns values (x + d) e).bind ?_)
  rintro _ ⟨a, here, rfl⟩
  refine (behind_returns values (x + d) e).bind ?_
  rintro _ ⟨b, right, rfl⟩
  refine .check (Tensor.combine_scalar _ a b) (.check (Tensor.combine_ofVector _ x d) ?_)
  refine (ahead_returns values (x - d) e).bind ?_
  rintro _ ⟨c, left, rfl⟩
  refine .check (Tensor.combine_scalar _ _ c) ((behind_returns values (x - d) e).bind ?_)
  rintro _ ⟨a', there, rfl⟩
  exact .check (Tensor.combine_scalar _ _ a') (.check (checkedSquare_real eps)
    (.ofExcept (Tensor.entry_map_scalar _ _) ⟨a, b, c, a', here, right, left, there, rfl⟩))

/-- The entries beside the diagonal are set in pairs. -/
theorem pair_returns {i j : Fin n} (lt : i < j) (acc : SquareMatrix ℝ n × Nat) :
    Returns (do
      let a ← mixed f (.ofVector x) (displacement eps i) (displacement eps j) eps
      pure (SquareMatrix.setEntry (SquareMatrix.setEntry acc.1 i j a) j i a, acc.2 + 4))
    fun acc' => ∀ place, Filled V x eps acc.1 place ∨ (place = (i, j) ∨ place = (j, i)) →
      Filled V x eps acc'.1 place := by
  refine (mixed_returns values x _ _ eps).bind fun a quotient => .pure fun place known => ?_
  have entry : IsEntry V x eps i j a := by
    unfold IsEntry
    rwa [if_neg lt.ne, min_eq_left lt.le, max_eq_right lt.le]
  refine .setEntry entry.symm ?_
  rcases known with before | above | below
  · exact Or.inl (.setEntry entry (Or.inl before))
  · exact Or.inl (.setEntry entry (Or.inr above))
  · exact Or.inr below

/-- A row of a Hessian sets the entries from the diagonal on, and those across it. -/
theorem hessianRow_returns {c : ℝ} (here : V x c) (i : Fin n) (acc : SquareMatrix ℝ n × Nat) :
    Returns (hessianRow f (.ofVector x) (.scalar c) eps acc i) fun acc' => ∀ place,
      Filled V x eps acc.1 place ∨ (place.1 = i ∧ i ≤ place.2 ∨ place.2 = i ∧ i ≤ place.1) →
        Filled V x eps acc'.1 place := by
  refine (second_returns values x (displacement eps i) eps here).bind fun a quotient => ?_
  have entry : IsEntry V x eps i i a := by
    unfold IsEntry
    rwa [if_pos rfl]
  have pairs := Returns.foldlM ((List.finRange n).filter fun j => decide (i < j))
    (fun j mem => pair_returns values x eps (of_decide_eq_true (List.mem_filter.1 mem).2))
    (acc.1.setEntry i i a, acc.2 + 2)
  refine pairs.weaken fun acc' all place known => all place ?_
  have later {j : Fin n} (lt : i < j) : j ∈ (List.finRange n).filter fun j => decide (i < j) :=
    List.mem_filter.2 ⟨List.mem_finRange j, decide_eq_true lt⟩
  obtain ⟨p, q⟩ := place
  dsimp only at known
  rcases known with before | ⟨rfl, le⟩ | ⟨rfl, le⟩
  · exact Or.inl (.setEntry entry (Or.inl before))
  · rcases le.lt_or_eq with lt | rfl
    · exact Or.inr ⟨q, later lt, Or.inl rfl⟩
    · exact Or.inl (.setEntry entry (Or.inr rfl))
  · rcases le.lt_or_eq with lt | rfl
    · exact Or.inr ⟨p, later lt, Or.inr rfl⟩
    · exact Or.inl (.setEntry entry (Or.inr rfl))

variable {eps} (positive : 0 < eps)
include positive

theorem gradient_returns : Returns (gradient f (.ofVector x) eps) fun d =>
    ∃ g : Vector ℝ n, d.derivative = .ofVector g ∧
      ∀ i, IsFirst V x (displacement eps i) eps (g i) := by
  rw [gradient_ofVector, gradientOfSize, if_neg (not_le.2 positive)]
  refine (Returns.mapM_finRange fun i => first_returns values x (displacement eps i) eps).bind ?_
  rintro _ ⟨rows, rfl, all⟩
  choose g first number using all
  have numbers : rows.toList = (Vector.ofFn g).toList.map Tensor.scalar := by
    have row : rows = (Vector.ofFn g).map Tensor.scalar := by
      refine Vector.ext fun i inside => ?_
      rw [Vector.getElem_map, Vector.getElem_ofFn]
      exact number ⟨i, inside⟩
    rw [row, Vector.toList_map]
  rw [numbers, Tensor.stack?_map_scalar]
  refine .pure ⟨Vector.ofFn g, rfl, fun i => ?_⟩
  rw [get_vectorOfFn]
  exact first i

theorem hessian_returns : Returns (hessian f (.ofVector x) eps) fun d =>
    ∃ H : SquareMatrix ℝ n, d.derivative = .ofSquare H ∧ ∀ i j, IsEntry V x eps i j (H i j) := by
  rw [hessian_ofVector, hessianOfSize, if_neg (not_le.2 positive)]
  refine (values x).bind ?_
  rintro _ ⟨c, here, rfl⟩
  have rows := Returns.foldlM (List.finRange n) (fun i _ => hessianRow_returns values x eps here i)
  refine (rows _).bind fun acc all => ?_
  refine .pure ⟨acc.1, rfl, fun i j => all (i, j) (Or.inr ?_)⟩
  rcases le_total i j with le | le
  · exact ⟨i, List.mem_finRange i, Or.inl ⟨rfl, le⟩⟩
  · exact ⟨j, List.mem_finRange j, Or.inr ⟨rfl, le⟩⟩

end Difference

end TrustRegion
