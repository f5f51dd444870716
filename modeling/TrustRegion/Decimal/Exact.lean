/-
  The exact value of a double, and exact decimal digits of a positive fraction.

  A finite double is `± m · 2^q` with natural `m`. Digits are taken from that value in natural
  numbers, so no rounding happens except the one that is asked for.
-/

namespace TrustRegion

/-- The value of a double. -/
inductive DoubleValue
  /-- Not a number. -/
  | nan
  /-- Infinity, with its sign. -/
  | infinite (negative : Bool)
  /-- The number `± mantissa · 2^exponent`. -/
  | finite (negative : Bool) (mantissa : Nat) (exponent : Int)
deriving Repr, DecidableEq

namespace DoubleValue

/-- The value that the 64 bits of a double stand for. -/
def ofFloat (x : Float) : DoubleValue :=
  let bits := x.toBits.toNat
  let negative := decide (Nat.pow 2 63 ≤ bits)
  let field := bits / Nat.pow 2 52 % 2048
  let fraction := bits % Nat.pow 2 52
  if field = 2047 then
    if fraction = 0 then infinite negative else nan
  else if field = 0 then finite negative fraction (-1074)
  else finite negative (Nat.pow 2 52 + fraction) (Int.ofNat field - 1075)

end DoubleValue

namespace Decimal

/-- The number `base^e` times `a`, as numerator and denominator. -/
def scaled (base a : Nat) (e : Int) : Nat × Nat :=
  match e with
  | .ofNat k => (a * Nat.pow base k, 1)
  | .negSucc k => (a, Nat.pow base (k + 1))

/-- The quotient `num / den` rounded to the nearest natural number, a half to the even one. -/
def roundDiv (num den : Nat) : Nat :=
  let quotient := num / den
  let twice := 2 * (num % den)
  if twice < den then quotient
  else if den < twice then quotient + 1
  else quotient + quotient % 2

/-- How many decimal digits a natural number has; one for zero. -/
def digitCount (n : Nat) : Nat := (Nat.toDigits 10 n).length

/-- The exponent `e` with `10^e ≤ num / den < 10^(e+1)`, for a positive fraction. -/
def leadingExponent (num den : Nat) : Int :=
  let guess := Int.ofNat (digitCount num) - Int.ofNat (digitCount den)
  let (power, unit) := scaled 10 1 guess
  if den * power ≤ num * unit then guess else guess - 1

/-- A positive decimal `digits · 10^(exponent - places)`, with one digit more than `places`. -/
structure Digits where
  /-- The significant digits, as one natural number. -/
  digits : Nat
  /-- The exponent of the leading digit. -/
  exponent : Int
deriving Repr, DecidableEq

/-- A positive fraction rounded to `count` significant digits. -/
def significant (count num den : Nat) : Digits :=
  let exponent := leadingExponent num den
  let (up, down) := scaled 10 1 (Int.ofNat count - 1 - exponent)
  let digits := roundDiv (num * up) (den * down)
  if Nat.pow 10 count ≤ digits then ⟨digits / 10, exponent + 1⟩ else ⟨digits, exponent⟩

end Decimal

end TrustRegion
