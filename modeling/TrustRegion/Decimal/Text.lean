/-
  Numbers in writing.

  Three forms are in use: a fixed count of digits with an exponent (`1.250e-03`), the general form
  with a largest count of digits (`0.00125`, `1e-05`), and the shortest form that reads back
  (`0.25`, `2.0`, `1e-08`). An exponent has a sign and at least two digits. In the two forms that
  choose, positional notation ends below the exponent `-4` and at a bound of the form's own.
-/
import TrustRegion.Decimal.Shortest

namespace TrustRegion

namespace Decimal

/-- A list of characters repeated. -/
def zeros (count : Nat) : List Char := List.replicate count '0'

/-- The digits of a natural number, with zeros in front up to the given count. -/
def paddedDigits (count n : Nat) : List Char :=
  let digits := Nat.toDigits 10 n
  zeros (count - digits.length) ++ digits

/-- An exponent in writing: `e`, a sign and at least two digits. -/
def exponentText (e : Int) : List Char :=
  'e' :: (if e < 0 then '-' else '+') :: paddedDigits 2 e.natAbs

/-- Digits with a point after the first, where there is more than one. -/
def withPoint (digits : List Char) : List Char :=
  match digits with
  | first :: second :: rest => first :: '.' :: second :: rest
  | short => short

/-- Digits and the exponent of the first one, in exponent notation. -/
def scientificText (digits : List Char) (exponent : Int) : List Char :=
  withPoint digits ++ exponentText exponent

/-- Digits and the exponent of the first one, in positional notation. -/
def positionalText (digits : List Char) (exponent : Int) : List Char :=
  match exponent with
  | .negSucc k => '0' :: '.' :: (zeros k ++ digits)
  | .ofNat k =>
    if digits.length ≤ k + 1 then digits ++ zeros (k + 1 - digits.length)
    else digits.take (k + 1) ++ '.' :: digits.drop (k + 1)

/-- Digits without the zeros at their end; the first digit stays. -/
def dropTrailingZeros (digits : List Char) : List Char :=
  match digits with
  | [] => []
  | first :: rest => first :: (rest.reverse.dropWhile (· == '0')).reverse

/-- The text of a double, `body` giving that of a positive `m · 2^q` and `zero` that of zero. -/
def signedText (zero : List Char) (body : Nat → Int → List Char) (x : Float) : String :=
  match DoubleValue.ofFloat x with
  | .nan => "nan"
  | .infinite negative => if negative then "-inf" else "inf"
  | .finite negative m q =>
    let digits := if m = 0 then zero else body m q
    String.ofList (if negative then '-' :: digits else digits)

/-- A double with `places` digits after the point and an exponent, rounded half to even. -/
def exponential (places : Nat) (x : Float) : String :=
  signedText (scientificText (zeros (places + 1)) 0)
    (fun m q =>
      let (num, den) := scaled 2 m q
      let d := significant (places + 1) num den
      scientificText (paddedDigits (places + 1) d.digits) d.exponent) x

/--
A double rounded to `count` significant digits, without zeros at the end: positional for exponents
from `-4` up to `count`, with an exponent otherwise.
-/
def general (count : Nat) (x : Float) : String :=
  signedText ['0']
    (fun m q =>
      let (num, den) := scaled 2 m q
      let d := significant count num den
      let digits := dropTrailingZeros (paddedDigits count d.digits)
      if -4 ≤ d.exponent && d.exponent < count then positionalText digits d.exponent
      else scientificText digits d.exponent) x

/--
The shortest text that reads back as the double: positional for exponents from `-4` up to 15, a
whole number with `.0`, with an exponent otherwise.
-/
def shortestText (x : Float) : String :=
  signedText ['0', '.', '0']
    (fun m q =>
      let d := shortest m q
      let digits := dropTrailingZeros (Nat.toDigits 10 d.digits)
      if -4 ≤ d.exponent && d.exponent < 16 then
        let text := positionalText digits d.exponent
        if text.contains '.' then text else text ++ ['.', '0']
      else scientificText digits d.exponent) x

end Decimal

end TrustRegion
