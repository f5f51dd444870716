/-
  Real numbers with infinities and a NaN.

  Points and radii stay real, but an objective may answer with what is not a number. `Extended` has
  the special values of machine arithmetic and computes with them by its rules, without rounding
  and without a negative zero. `LawfulOrder`, `LawfulComparison` and `LawfulEmbeds` hold what order
  tests have in common with those of machine numbers, NaNs included.
-/
import TrustRegion.Proofs.Reals

namespace TrustRegion

/-- A real number, an infinity of either sign, or a NaN. -/
inductive Extended
  /-- A real number. -/
  | number (a : ℝ)
  /-- An infinity, by its sign. -/
  | infinity (negative : Bool)
  /-- Not a number. -/
  | nan

namespace Extended

/-- The strict order; a NaN compares with nothing. -/
def lt : Extended → Extended → Prop
  | number a, number b => a < b
  | number _, infinity negative => negative = false
  | infinity negative, number _ => negative = true
  | infinity negative, infinity negative' => negative = true ∧ negative' = false
  | _, _ => False

/-- The weak order; a NaN compares with nothing. -/
def le : Extended → Extended → Prop
  | number a, number b => a ≤ b
  | number _, infinity negative => negative = false
  | infinity negative, number _ => negative = true
  | infinity negative, infinity negative' => negative = true ∨ negative' = false
  | _, _ => False

/-- The number with its sign turned. -/
def neg : Extended → Extended
  | number a => number (-a)
  | infinity negative => infinity (!negative)
  | nan => nan

/-- The sum; infinities of different signs have none. -/
def add : Extended → Extended → Extended
  | number a, number b => number (a + b)
  | number _, infinity negative => infinity negative
  | infinity negative, number _ => infinity negative
  | infinity negative, infinity negative' => if negative = negative' then infinity negative else nan
  | _, _ => nan

open Classical in
/-- The product; zero times an infinity is not a number. -/
noncomputable def mul : Extended → Extended → Extended
  | number a, number b => number (a * b)
  | number a, infinity negative => if a = 0 then nan else infinity (negative ^^ decide (a < 0))
  | infinity negative, number a => if a = 0 then nan else infinity (negative ^^ decide (a < 0))
  | infinity negative, infinity negative' => infinity (negative ^^ negative')
  | _, _ => nan

open Classical in
/-- The quotient; zero divides every number but itself into an infinity. -/
noncomputable def div : Extended → Extended → Extended
  | number a, number b =>
    if b ≠ 0 then number (a / b) else if a = 0 then nan else infinity (decide (a < 0))
  | number _, infinity _ => number 0
  | infinity negative, number a => infinity (negative ^^ decide (a < 0))
  | _, _ => nan

/-- The absolute value. -/
def abs : Extended → Extended
  | number a => number |a|
  | infinity _ => infinity false
  | nan => nan

open Classical in
/-- The square root; negative numbers have none. -/
noncomputable def sqrt : Extended → Extended
  | number a => if a < 0 then nan else number √a
  | infinity negative => if negative then nan else infinity false
  | nan => nan

/-- Whether it is a real number. -/
def isFinite : Extended → Bool
  | number _ => true
  | _ => false

noncomputable instance : Scalar Extended where
  zero := number 0
  one := number 1
  neg := neg
  add := add
  sub := fun a b => add a (neg b)
  mul := mul
  div := div
  lt := lt
  le := le
  ofScientific := fun mantissa negative exponent =>
    number (OfScientific.ofScientific mantissa negative exponent)
  abs := abs
  sqrt := sqrt
  isFinite := isFinite
  decLt := Classical.decRel _
  decLe := Classical.decRel _

instance : Embeds ℝ Extended := ⟨number⟩

end Extended

/-- What order tests on machine numbers have in common with an order; a NaN fails every test. -/
class LawfulOrder (α : Type) [Scalar α] : Prop where
  /-- Nothing is below itself. -/
  lt_irrefl : ∀ a : α, ¬ a < a
  /-- Below is at most. -/
  le_of_lt : ∀ {a b : α}, a < b → a ≤ b
  /-- Tests can be chained, the strict one first. -/
  lt_of_lt_of_le : ∀ {a b c : α}, a < b → b ≤ c → a < c
  /-- Tests can be chained, the strict one last. -/
  lt_of_le_of_lt : ∀ {a b c : α}, a ≤ b → b < c → a < c
  /-- The absolute value is above what the number is above. -/
  lt_abs : ∀ {a b : α}, b < a → b < Scalar.abs a
  /-- The machine epsilon is positive. -/
  machineEpsilon_pos : (0 : α) < Scalar.machineEpsilon

/-- Order tests that only a NaN leaves open: it differs from itself, and all else is in order. -/
class LawfulComparison (α : Type) [Scalar α] : Prop extends LawfulOrder α where
  /-- What is below something is not a NaN. -/
  le_self_of_lt : ∀ {a b : α}, a < b → a ≤ a
  /-- Of two numbers that are not NaNs, one is at most the other. -/
  le_of_not_lt : ∀ {a b : α}, a ≤ a → b ≤ b → ¬ a < b → b ≤ a

/-- Numbers keep their order as objective values. -/
class LawfulEmbeds (α β : Type) [Scalar α] [Scalar β] [Embeds α β] : Prop where
  /-- The weak order. -/
  embed_le_embed : ∀ {a b : α}, (Embeds.embed a : β) ≤ Embeds.embed b ↔ a ≤ b
  /-- The strict order. -/
  embed_lt_embed : ∀ {a b : α}, (Embeds.embed a : β) < Embeds.embed b ↔ a < b

instance {α : Type} [Scalar α] : LawfulEmbeds α α where
  embed_le_embed := Iff.rfl
  embed_lt_embed := Iff.rfl

theorem machineEpsilon_eq : (Scalar.machineEpsilon : ℝ) = 1 / 2 ^ 52 := by
  norm_num [Scalar.machineEpsilon]

instance : LawfulOrder ℝ where
  lt_irrefl := fun _ h => h.ne rfl
  le_of_lt := fun h => h.le
  lt_of_lt_of_le := fun h h' => h.trans_le h'
  lt_of_le_of_lt := fun h h' => h.trans_lt h'
  lt_abs := fun h => h.trans_le (le_abs_self _)
  machineEpsilon_pos := by
    rw [machineEpsilon_eq]
    positivity

instance : LawfulComparison ℝ where
  le_self_of_lt := fun _ => le_refl _
  le_of_not_lt := fun _ _ h => not_lt.1 h

namespace Extended

@[simp] theorem number_lt_number {a b : ℝ} : number a < number b ↔ a < b := Iff.rfl

@[simp] theorem number_le_number {a b : ℝ} : number a ≤ number b ↔ a ≤ b := Iff.rfl

theorem lt_iff {a b : Extended} : a < b ↔ a.lt b := Iff.rfl

theorem le_iff {a b : Extended} : a ≤ b ↔ a.le b := Iff.rfl

theorem machineEpsilon_eq : (Scalar.machineEpsilon : Extended) = number Scalar.machineEpsilon :=
  if_pos (by norm_num)

theorem sqrt_number {a : ℝ} (nonneg : 0 ≤ a) : Scalar.sqrt (number a) = number √a :=
  if_neg (not_lt.2 nonneg)

end Extended

instance : LawfulOrder Extended where
  lt_irrefl := fun a below => by
    cases a with
    | number a => exact lt_irrefl a (Extended.number_lt_number.1 below)
    | infinity negative => exact Bool.noConfusion (below.1.symm.trans below.2)
    | nan => exact below
  le_of_lt := fun {a b} below => by
    cases a <;> cases b
    case number.number => exact (Extended.number_lt_number.1 below).le
    case infinity.infinity => exact Or.inl below.1
    all_goals exact below
  lt_of_lt_of_le := fun {a b c} below le => by
    cases a <;> cases b <;> cases c
    case number.number.number =>
      exact (Extended.number_lt_number.1 below).trans_le (Extended.number_le_number.1 le)
    all_goals simp_all [Extended.lt_iff, Extended.le_iff, Extended.lt, Extended.le]
  lt_of_le_of_lt := fun {a b c} le below => by
    cases a <;> cases b <;> cases c
    case number.number.number =>
      exact (Extended.number_le_number.1 le).trans_lt (Extended.number_lt_number.1 below)
    all_goals simp_all [Extended.lt_iff, Extended.le_iff, Extended.lt, Extended.le]
  lt_abs := fun {a b} below => by
    cases a <;> cases b
    case number.number => exact (Extended.number_lt_number.1 below).trans_le (le_abs_self _)
    all_goals simp_all [Extended.lt_iff, Extended.lt, Scalar.abs, Extended.abs]
  machineEpsilon_pos := by
    rw [Extended.machineEpsilon_eq]
    exact (LawfulOrder.machineEpsilon_pos : (0 : ℝ) < Scalar.machineEpsilon)

instance : LawfulComparison Extended where
  le_self_of_lt := fun {a b} below => by
    cases a with
    | number a => exact le_refl a
    | infinity negative => cases negative <;> simp [Extended.le_iff, Extended.le]
    | nan => cases b <;> exact below.elim
  le_of_not_lt := fun {a b} a_self b_self above => by
    cases a <;> cases b
    case number.number a b => exact not_lt.1 (show ¬ a < b from above)
    case infinity.infinity negative negative' =>
      cases negative <;> cases negative' <;>
        simp_all [Extended.lt_iff, Extended.le_iff, Extended.lt, Extended.le]
    all_goals simp_all [Extended.lt_iff, Extended.le_iff, Extended.lt, Extended.le]

instance : LawfulEmbeds ℝ Extended where
  embed_le_embed := Iff.rfl
  embed_lt_embed := Iff.rfl

end TrustRegion
