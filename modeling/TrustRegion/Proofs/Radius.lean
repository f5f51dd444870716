/-
  The radius along a run.

  A ratio that takes a step back lies below the lower threshold, so a step that is taken back always
  divides the radius by four, and only a step to the boundary that is kept can enlarge it, at most
  twofold (`Turn.radius_cases`). So over a run of any length the radius stays positive and at most
  the largest one, and the numbers of both kinds of steps bound it (`updates_radius`). A NaN among
  the ratios compares with no threshold: its step is kept and leaves the radius alone.
-/
import TrustRegion.Proofs.Rejection

namespace TrustRegion

variable {β σ : Type} {n : Nat}

/-- The radius of a state is positive and at most the largest one. -/
structure State.Bounded (method : Method ℝ) (st : State ℝ β n) : Prop where
  /-- It is positive. -/
  pos : 0 < st.delta
  /-- It is not too large. -/
  le : st.delta ≤ method.maxRadius

/-- How the radius of a state comes from that of the state before. -/
structure State.Resizes (st st' : State ℝ β n) : Prop where
  /-- A step that was taken back divides it by four. -/
  takenBack : st'.accepted = false → st'.delta = st.delta / 4
  /-- Only a step to the boundary that was kept enlarges it. -/
  grows : st.delta < st'.delta → st'.accepted = true ∧ st'.interior = false

/-- A step to the boundary that was kept. -/
def State.outward (st : State ℝ β n) : Bool := st.accepted && !st.interior

/-- A step that was taken back. -/
def State.rejected (st : State ℝ β n) : Bool := !st.accepted

/-- How many steps to the boundary were kept. -/
def outwardSteps (states : List (State ℝ β n)) : Nat := states.countP State.outward

/-- How many steps were taken back. -/
def rejectedSteps (states : List (State ℝ β n)) : Nat := states.countP State.rejected

theorem outwardSteps_cons (st : State ℝ β n) (states : List (State ℝ β n)) :
    outwardSteps (st :: states) = outwardSteps states + st.outward.toNat := by
  unfold outwardSteps
  rw [List.countP_cons]
  cases st.outward <;> rfl

theorem rejectedSteps_cons (st : State ℝ β n) (states : List (State ℝ β n)) :
    rejectedSteps (st :: states) = rejectedSteps states + st.rejected.toNat := by
  unfold rejectedSteps
  rw [List.countP_cons]
  cases st.rejected <;> rfl

variable [Scalar β] [Embeds ℝ β] {evaluator : Evaluator ℝ β σ} {method : Method ℝ}
  {solver : StepSolver ℝ β} {solvers : List (StepSolver ℝ β)} {S S' : Session ℝ β σ n}
  {st : State ℝ β n} {states : List (State ℝ β n)}

/-! ## One iteration -/

/-- The three radii that can follow a state. -/
theorem State.resize_cases (method : Method ℝ) (st : State ℝ β n) (rho : β) :
    (rho < Embeds.embed method.rhoLower ∧ st.resize method rho = st.delta / 4) ∨
      (¬ rho < Embeds.embed method.rhoLower ∧ st.interior = false ∧
        st.resize method rho = min (2 * st.delta) method.maxRadius) ∨
      (¬ rho < Embeds.embed method.rhoLower ∧ st.resize method rho = st.delta) := by
  have quarter : st.delta * 0.25 = st.delta / 4 := by
    norm_num
    ring
  have double : (2.0 : ℝ) = 2 := by norm_num
  unfold resize
  rw [Scalar.real_min, quarter, double]
  split
  · next low => exact Or.inl ⟨low, rfl⟩
  · next high =>
    split
    · next outward => exact Or.inr (Or.inl ⟨high, eq_false_of_ne_true outward.2, rfl⟩)
    · exact Or.inr (Or.inr ⟨high, rfl⟩)

theorem Trial.radius_cases (T : Trial ℝ β n) (method : Method ℝ) (st : State ℝ β n) :
    (T.ratio method st < Embeds.embed method.rhoLower ∧
        (T.judged method st).delta = st.delta / 4) ∨
      (¬ T.ratio method st < Embeds.embed method.rhoLower ∧
        (T.judged method st).interior = false ∧
        (T.judged method st).delta = min (2 * st.delta) method.maxRadius) ∨
      (¬ T.ratio method st < Embeds.embed method.rhoLower ∧
        (T.judged method st).delta = st.delta) :=
  State.resize_cases method _ (T.ratio method st)

theorem Trial.delta_pos (T : Trial ℝ β n) (valid : method.check = .ok ()) (pos : 0 < st.delta) :
    0 < (T.judged method st).delta := by
  have largest : 0 < method.maxRadius := ((Method.check_eq_ok_iff method).1 valid).1
  rcases T.radius_cases method st with ⟨-, radius⟩ | ⟨-, -, radius⟩ | ⟨-, radius⟩
  · rw [radius]
    positivity
  · rw [radius]
    exact lt_min (by positivity) largest
  · rwa [radius]

section Lawful

variable [LawfulOrder β] [LawfulEmbeds ℝ β]

/-- A step that is taken back divides the radius by four, whatever its ratio is. -/
theorem Trial.delta_of_le_eta {T : Trial ℝ β n} (valid : method.check = .ok ())
    (low : T.ratio method st ≤ Embeds.embed method.eta) :
    (T.judged method st).delta = st.delta / 4 := by
  have eta_lt := ((Method.check_eq_ok_iff method).1 valid).2.2.1.2
  have below := LawfulOrder.lt_of_le_of_lt low (LawfulEmbeds.embed_lt_embed.2 eta_lt)
  rcases T.radius_cases method st with ⟨-, radius⟩ | ⟨high, -⟩ | ⟨high, -⟩
  · exact radius
  · exact absurd below high
  · exact absurd below high

/-- The radius after an iteration, by what became of its step. -/
theorem Turn.radius_cases (turn : Turn evaluator method solver S S')
    (valid : method.check = .ok ()) :
    (S'.state.accepted = false ∧ S'.state.delta = S.state.delta / 4) ∨
      (S'.state.accepted = true ∧ S'.state.interior = false ∧
        S'.state.delta = min (2 * S.state.delta) method.maxRadius) ∨
      (S'.state.accepted = true ∧
        (S'.state.delta = S.state.delta / 4 ∨ S'.state.delta = S.state.delta)) := by
  cases turn with
  | takenBack happens low state =>
    rw [state]
    exact Or.inl ⟨rfl, Trial.delta_of_le_eta valid low⟩
  | @kept T ledger H happens high evaluated state =>
    rw [state]
    rcases T.radius_cases method S.state with ⟨-, radius⟩ | ⟨-, outward, radius⟩ | ⟨-, radius⟩
    · exact Or.inr (Or.inr ⟨rfl, Or.inl radius⟩)
    · exact Or.inr (Or.inl ⟨rfl, outward, radius⟩)
    · exact Or.inr (Or.inr ⟨rfl, Or.inr radius⟩)

theorem Turn.bounded (turn : Turn evaluator method solver S S') (valid : method.check = .ok ())
    (bounded : S.state.Bounded method) : S'.state.Bounded method := by
  have largest : 0 < method.maxRadius := ((Method.check_eq_ok_iff method).1 valid).1
  obtain ⟨pos, le⟩ := bounded
  rcases turn.radius_cases valid with ⟨-, radius⟩ | ⟨-, -, radius⟩ | ⟨-, radius | radius⟩
  · constructor <;> linarith
  · exact ⟨radius ▸ lt_min (by positivity) largest, radius ▸ min_le_right _ _⟩
  · constructor <;> linarith
  · constructor <;> linarith

theorem Turn.resizes (turn : Turn evaluator method solver S S') (valid : method.check = .ok ())
    (pos : 0 < S.state.delta) : S.state.Resizes S'.state := by
  rcases turn.radius_cases valid with
    ⟨rejected, radius⟩ | ⟨accepted, outward, -⟩ | ⟨accepted, radius⟩
  · exact ⟨fun _ => radius, fun larger => absurd larger (by linarith)⟩
  · exact ⟨fun rejected => absurd (accepted.symm.trans rejected) Bool.noConfusion,
      fun _ => ⟨accepted, outward⟩⟩
  · exact ⟨fun rejected => absurd (accepted.symm.trans rejected) Bool.noConfusion,
      fun larger => absurd larger (by rcases radius with radius | radius <;> linarith)⟩

/-- The factor by which an iteration can change the radius, by the kind of its step. -/
theorem Turn.delta_le (turn : Turn evaluator method solver S S') (valid : method.check = .ok ())
    (pos : 0 < S.state.delta) : S'.state.delta ≤
      S.state.delta * (2 ^ S'.state.outward.toNat / 4 ^ S'.state.rejected.toNat) := by
  unfold State.outward State.rejected
  rcases turn.radius_cases valid with
    ⟨rejected, radius⟩ | ⟨accepted, outward, radius⟩ | ⟨accepted, radius⟩
  · rw [rejected, radius]
    norm_num
    linarith
  · rw [accepted, outward, radius]
    norm_num
    exact Or.inl (by linarith)
  · rw [accepted]
    have least : (1 : ℝ) ≤ 2 ^ (true && !S'.state.interior).toNat := one_le_pow₀ one_le_two
    have grown := mul_le_mul_of_nonneg_left least pos.le
    rw [Bool.not_true, Bool.toNat_false, pow_zero, div_one]
    rcases radius with radius | radius <;> linarith

/-! ## Whole runs -/

/-- From a state with a radius in bounds on, what holds of the radii of all states of a run. -/
theorem updates_radius_from (valid : method.check = .ok ()) (bounded : S.state.Bounded method)
    (ran : updates evaluator (solvers.map fun solver => (method, solver)) S = .ok states S') :
    (∀ st ∈ states, st.Bounded method) ∧ List.IsChain State.Resizes (S.state :: states) ∧
    ∀ k (inside : k < (S.state :: states).length), (S.state :: states)[k].delta ≤
      S.state.delta * (2 ^ outwardSteps (states.take k) / 4 ^ rejectedSteps (states.take k)) := by
  induction solvers generalizing S states with
  | nil =>
    cases ran
    refine ⟨fun st mem => absurd mem List.not_mem_nil, List.isChain_singleton _, ?_⟩
    intro k inside
    obtain rfl : k = 0 := Nat.lt_one_iff.1 inside
    simp [outwardSteps, rejectedSteps]
  | cons solver solvers ih =>
    obtain ⟨T, later, updated, ran', rfl⟩ := updates_cons_eq_ok.1 ran
    have turn := turn_of_update updated
    have bounded' := turn.bounded valid bounded
    obtain ⟨all, chain, growth⟩ := ih bounded' ran'
    refine ⟨List.forall_mem_cons.2 ⟨bounded', all⟩,
      List.isChain_cons_cons.2 ⟨turn.resizes valid bounded.pos, chain⟩, ?_⟩
    intro k inside
    cases k with
    | zero => simp [outwardSteps, rejectedSteps]
    | succ k =>
      have inside' : k < (T.state :: later).length := Nat.lt_of_succ_lt_succ inside
      have first := turn.delta_le valid bounded.pos
      rw [List.take_succ_cons, outwardSteps_cons, rejectedSteps_cons, pow_add, pow_add]
      calc (T.state :: later)[k].delta
          ≤ T.state.delta *
              (2 ^ outwardSteps (later.take k) / 4 ^ rejectedSteps (later.take k)) :=
            growth k inside'
        _ ≤ S.state.delta * (2 ^ T.state.outward.toNat / 4 ^ T.state.rejected.toNat) *
              (2 ^ outwardSteps (later.take k) / 4 ^ rejectedSteps (later.take k)) :=
            mul_le_mul_of_nonneg_right first (by positivity)
        _ = _ := by
            rw [mul_assoc, div_mul_div_comm, mul_comm (2 ^ T.state.outward.toNat),
              mul_comm (4 ^ T.state.rejected.toNat)]

/--
In a run of any length the radius is positive and at most the largest radius after every update. An
update whose step is taken back divides it by four, and only one that keeps a step to the boundary
enlarges it. After `k` updates it is at most the initial radius, times two for every step to the
boundary that was kept and divided by four for every step that was taken back.
-/
theorem updates_radius {x₀ : Vector ℝ n} {ledger ledger' : σ} {st₀ : State ℝ β n}
    {journal : Array (Event ℝ β)} (valid : method.check = .ok ())
    (started : initialState evaluator method x₀ ledger = .ok st₀ ledger')
    (ran : updates evaluator (solvers.map fun solver => (method, solver)) ⟨st₀, ledger', journal⟩ =
      .ok states S') :
    (∀ st ∈ states, 0 < st.delta ∧ st.delta ≤ method.maxRadius) ∧
    List.IsChain State.Resizes (st₀ :: states) ∧
    ∀ k (inside : k < (st₀ :: states).length), (st₀ :: states)[k].delta ≤
      method.initialRadius * 2 ^ outwardSteps (states.take k) / 4 ^ rejectedSteps (states.take k) := by
  obtain ⟨-, ⟨initial_pos, initial_lt⟩, -⟩ := (Method.check_eq_ok_iff method).1 valid
  obtain ⟨value, g, ledger₁, H, f, -, -, -, rfl⟩ := initialState_eq_ok.1 started
  obtain ⟨bounded, chain, growth⟩ := updates_radius_from valid ⟨initial_pos, initial_lt.le⟩ ran
  refine ⟨fun st mem => ⟨(bounded st mem).pos, (bounded st mem).le⟩, chain, fun k inside => ?_⟩
  rw [mul_div_assoc]
  exact growth k inside

end Lawful

/-- The standard parameters pass the check. -/
theorem Method.standard_check : (Method.standard : Method ℝ).check = .ok () := by
  rw [Method.check_eq_ok_iff]
  norm_num [Method.standard]

/-- A step without a value, which is taken back, and one that goes down, which is kept. -/
theorem updates_radius_root : ∃ (st₀ : State ℝ Extended 1) (states : List (State ℝ Extended 1))
    (S' : Session ℝ Extended Unit 1),
    (Method.standard : Method ℝ).check = .ok () ∧
    initialState root.toEvaluator Method.standard #v[1] () = .ok st₀ () ∧
    updates root.toEvaluator ([.always #v[-2] (-1), .always #v[-0.75] (-0.5)].map fun solver =>
      (Method.standard, solver)) ⟨st₀, (), #[]⟩ = .ok states S' ∧
    (∀ st ∈ states, 0 < st.delta ∧ st.delta ≤ (Method.standard : Method ℝ).maxRadius) ∧
    List.IsChain State.Resizes (st₀ :: states) ∧
    ∀ k (inside : k < (st₀ :: states).length), (st₀ :: states)[k].delta ≤
      (Method.standard : Method ℝ).initialRadius * 2 ^ outwardSteps (states.take k) /
        4 ^ rejectedSteps (states.take k) := by
  have started : initialState root.toEvaluator Method.standard #v[1] () =
      .ok (atOne Method.standard).state () := by
    have value : root.value #v[1] = .scalar (.number 1) := by
      refine congrArg Tensor.scalar ((Extended.sqrt_number zero_le_one).trans ?_)
      rw [Real.sqrt_one]
    refine initialState_eq_ok.2 ⟨_, _, (), _, .number 1, root.valueAndGradient_toEvaluator _,
      root.hessian_toEvaluator _, ?_, rfl⟩
    rw [value]
    rfl
  have answering : ∀ choice ∈ ([.always #v[-2] (-1), .always #v[-0.75] (-0.5)].map fun solver =>
        (Method.standard, solver) : List (Method ℝ × StepSolver ℝ Extended)),
      ∀ st : State ℝ Extended 1, ∃ (proposal : Proposal ℝ) (s : Vector ℝ 1),
        choice.2.propose st = .ok proposal ∧ proposal.step = .ofVector s := by
    intro choice mem st
    rcases List.mem_pair.1 mem with rfl | rfl
    · exact ⟨_, #v[-2], rfl, rfl⟩
    · exact ⟨_, #v[-0.75], rfl, rfl⟩
  obtain ⟨states, S', ran⟩ := exists_updates root (S := atOne Method.standard)
    (fun x => ⟨_, rfl⟩) answering rfl rfl
  exact ⟨_, states, S', Method.standard_check, started, ran,
    updates_radius Method.standard_check started ran⟩

end TrustRegion
