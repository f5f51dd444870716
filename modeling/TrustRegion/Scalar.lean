/-
  The numbers the library computes with.

  Every algorithm is written once, over a type `α` with the operations of `Scalar`: four
  operations of arithmetic, the two order tests, decimal literals, and absolute value, square root
  and a finiteness test. No law is assumed. At `Float` the definitions run; at an ordered field
  the same definitions have their exact meaning.

  Comparisons are written the way round that a number which compares with nothing (a NaN) needs:
  `¬ 0 < δ` refuses it, `δ ≤ 0` would let it pass.
-/

namespace TrustRegion

/-- Numbers with arithmetic, order tests, decimal literals, absolute value and square root. -/
class Scalar (α : Type) extends Zero α, One α, Neg α, Add α, Sub α, Mul α, Div α, LT α, LE α,
    OfScientific α where
  /-- Absolute value. -/
  abs : α → α
  /-- Square root. -/
  sqrt : α → α
  /--
  The second power, as the power function gives it; in rounded arithmetic it may differ from the
  product in the last digit.
  -/
  secondPower : α → α := fun a => a * a
  /-- Whether the number is neither infinite nor a NaN. -/
  isFinite : α → Bool
  /-- Strict comparison, decided. -/
  decLt : DecidableLT α
  /-- Weak comparison, decided. -/
  decLe : DecidableLE α

namespace Scalar

variable {α : Type} [Scalar α]

instance : DecidableLT α := Scalar.decLt

instance : DecidableLE α := Scalar.decLe

/-- The larger of two numbers; the first one unless the second is strictly larger. -/
def max (a b : α) : α := if a < b then b else a

/-- The smaller of two numbers; the first one unless the second is strictly smaller. -/
def min (a b : α) : α := if b < a then b else a

/-- The square, as one multiplication. -/
def square (a : α) : α := a * a

/-- Whether the number equals zero, of either sign. A NaN does not. -/
def isZero (a : α) : Bool := decide (a ≤ 0) && decide (0 ≤ a)

/-- Whether the number differs from itself in the order, as only a NaN does. -/
def isNaN (a : α) : Bool := !decide (a ≤ a)

/-- The sign of a number: `-1`, `0` or `1`. -/
def sign (a : α) : α := if 0 < a then 1 else if a < 0 then -1 else 0

/-- The distance from 1 to the next larger double, `2⁻⁵²`. -/
def machineEpsilon : α := 1.0 / 4503599627370496.0

/-- The largest relative error of one rounding to a double, `2⁻⁵³`. -/
def roundoff : α := 0.5 * machineEpsilon

/-- The smallest positive double of full precision, `2⁻¹⁰²²`. -/
def smallestNormal : α := 2.2250738585072014e-308

/-- Whether the number is below zero, or a zero that counts as negative because `1 / a` is. -/
def isNegative (a : α) : Bool := decide (a < 0) || (isZero a && decide (1 / a < 0))

/-- The absolute value of `a` with the sign of `b`. -/
def withSign (a b : α) : α := if isNegative b then -abs a else abs a

/-- One step of a running maximum: a NaN on either side stays. -/
def maxStep (acc a : α) : α :=
  if isNaN acc then acc else if isNaN a then a else max acc a

/-- The hypotenuse `√(a² + b²)`, through the larger leg, so that no square leaves the range. -/
def hypotenuse (a b : α) : α :=
  let long := maxStep (abs a) (abs b)
  let short := min (abs a) (abs b)
  if isZero short || !isFinite long then long else long * sqrt (1 + square (short / long))

/-- The largest entry of a list, at least zero; a NaN in the list makes it a NaN. -/
def maximum (xs : List α) : α := xs.foldl maxStep 0

/-- The largest entry of a list that has one; a NaN in the list makes it a NaN. -/
def maximum? (xs : List α) : Option α :=
  match xs with
  | [] => none
  | first :: rest => some (rest.foldl maxStep first)

end Scalar

/-- Numbers with the elementary functions that objectives may use. -/
class Elementary (α : Type) extends Scalar α where
  /-- Exponential function. -/
  exp : α → α
  /-- Natural logarithm. -/
  log : α → α
  /-- Sine. -/
  sin : α → α
  /-- Cosine. -/
  cos : α → α

/--
Objective values of type `β` contain the numbers of type `α` in which points, gradients and radii
are measured. The two are kept apart because a value at a trial point may be infinite or a NaN
while points stay ordinary numbers.
-/
class Embeds (α β : Type) where
  /-- A number as an objective value. -/
  embed : α → β

instance {α : Type} : Embeds α α := ⟨id⟩

instance : Elementary Float where
  zero := 0.0
  one := 1.0
  abs := Float.abs
  sqrt := Float.sqrt
  secondPower := fun a => Float.pow a 2.0
  isFinite := Float.isFinite
  decLt := Float.decLt
  decLe := Float.decLe
  exp := Float.exp
  log := Float.log
  sin := Float.sin
  cos := Float.cos

instance : Elementary Float32 where
  zero := 0.0
  one := 1.0
  abs := Float32.abs
  sqrt := Float32.sqrt
  isFinite := Float32.isFinite
  decLt := Float32.decLt
  decLe := Float32.decLe
  exp := Float32.exp
  log := Float32.log
  sin := Float32.sin
  cos := Float32.cos

end TrustRegion
