/-
  Floating-point numbers of 16 bits.

  Such a number is kept as one of single precision that fits the format. An operation is carried out
  in single precision and its result rounded to the format, to the nearest number and of two equally
  near ones to the even one.
-/
import TrustRegion.Scalar
import TrustRegion.Decimal.Exact

namespace TrustRegion

/-- A binary format of floating-point numbers. -/
structure FloatFormat where
  /-- How many binary digits a number has. -/
  digits : Nat
  /-- The exponent of the last digit of the smallest numbers. -/
  leastExponent : Int
  /-- Two to this power and everything beyond it counts as infinite. -/
  bound : Int
deriving Repr, DecidableEq

namespace FloatFormat

/-- 11 digits and a small range. -/
def half : FloatFormat := ⟨11, -24, 16⟩

/-- 8 digits and the range of single precision. -/
def brief : FloatFormat := ⟨8, -133, 128⟩

/-- The exponent of the last digit that a format keeps of `m · 2^q`. -/
def lastExponent (format : FloatFormat) (m : Nat) (q : Int) : Int :=
  let exponent := q + Int.ofNat (m.log2 + 1) - Int.ofNat format.digits
  if exponent < format.leastExponent then format.leastExponent else exponent

/-- The number `m · 2^q` rounded to a format. -/
def roundMagnitude (format : FloatFormat) (m : Nat) (q : Int) : Float :=
  let exponent := format.lastExponent m q
  let (up, down) := Decimal.scaled 2 1 (q - exponent)
  let kept := Decimal.roundDiv (m * up) down
  if kept ≠ 0 ∧ format.bound ≤ exponent + Int.ofNat kept.log2 then 1.0 / 0.0
  else (Float.ofNat kept).scaleB exponent

/-- A number rounded to a format. -/
def round (format : FloatFormat) (x : Float32) : Float32 :=
  match DoubleValue.ofFloat x.toFloat with
  | .nan | .infinite _ => x
  | .finite negative m q =>
    let magnitude := (format.roundMagnitude m q).toFloat32
    if negative then -magnitude else magnitude

end FloatFormat

/-- A number of a format with at most as many digits, and as much range, as single precision. -/
structure ShortFloat (format : FloatFormat) where
  /-- The number in single precision. -/
  value : Float32

namespace ShortFloat

variable {format : FloatFormat}

/-- A number of single precision rounded to the format. -/
def ofSingle (x : Float32) : ShortFloat format := ⟨format.round x⟩

/-- A double rounded to single precision, and then to the format. -/
def ofDouble (x : Float) : ShortFloat format := ofSingle x.toFloat32

/-- The number as a double. -/
def toDouble (a : ShortFloat format) : Float := a.value.toFloat

instance : Elementary (ShortFloat format) where
  zero := ⟨0.0⟩
  one := ⟨1.0⟩
  neg := fun a => ⟨-a.value⟩
  add := fun a b => ofSingle (a.value + b.value)
  sub := fun a b => ofSingle (a.value - b.value)
  mul := fun a b => ofSingle (a.value * b.value)
  div := fun a b => ofSingle (a.value / b.value)
  lt := fun a b => a.value < b.value
  le := fun a b => a.value ≤ b.value
  ofScientific := fun digits negative exponent =>
    ofSingle (Float32.ofScientific digits negative exponent)
  abs := fun a => ⟨a.value.abs⟩
  sqrt := fun a => ofSingle a.value.sqrt
  isFinite := fun a => a.value.isFinite
  decLt := fun a b => Float32.decLt a.value b.value
  decLe := fun a b => Float32.decLe a.value b.value
  exp := fun a => ofSingle a.value.exp
  log := fun a => ofSingle a.value.log
  sin := fun a => ofSingle a.value.sin
  cos := fun a => ofSingle a.value.cos

end ShortFloat

end TrustRegion
