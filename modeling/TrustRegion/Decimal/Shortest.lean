/-
  The shortest decimal that reads back as a given double.

  All reals closer to `m · 2^q` than to any other double read back as it; so do the two midpoints
  when `m` is even. For 1, 2, … 17 digits the two decimals next to the value are tried against that
  interval; the first count with a hit wins, and of two hits the nearer one, a tie going to the
  even digit.
-/
import TrustRegion.Decimal.Exact

namespace TrustRegion

namespace Decimal

/--
Whether `num / den` reads back as `m · 2^q`. Below the least mantissa of a binade, unless it is the
lowest one, the neighbouring double is only half as far.
-/
def readsBack (m : Nat) (q : Int) (num den : Nat) : Bool :=
  let (up, down) := scaled 2 1 (q - 2)
  let value := num * down
  let unit := den * up
  let low := if m = Nat.pow 2 52 ∧ -1074 < q then 4 * m - 1 else 4 * m - 2
  let high := 4 * m + 2
  if m % 2 = 0 then low * unit ≤ value && value ≤ high * unit
  else low * unit < value && value < high * unit

/-- The best decimal of `count` digits that reads back as `m · 2^q`, if there is one. -/
def candidate (m : Nat) (q : Int) (count : Nat) : Option Digits :=
  let (num, den) := scaled 2 m q
  let exponent := leadingExponent num den
  let (up, down) := scaled 10 1 (Int.ofNat count - 1 - exponent)
  let below := num * up / (den * down)
  let fits (digits : Nat) : Bool := readsBack m q (digits * down) up
  let pick (digits : Nat) : Digits :=
    if Nat.pow 10 count ≤ digits then ⟨digits / 10, exponent + 1⟩ else ⟨digits, exponent⟩
  match fits below, fits (below + 1) with
  | true, true => some (pick (roundDiv (num * up) (den * down)))
  | true, false => some (pick below)
  | false, true => some (pick (below + 1))
  | false, false => none

/-- The fewest digits that read back as the positive double `m · 2^q`, and the best of those. -/
def shortest (m : Nat) (q : Int) : Digits :=
  match (List.range 17).findSome? fun count => candidate m q (count + 1) with
  | some found => found
  | none =>
    let (num, den) := scaled 2 m q
    significant 17 num den

end Decimal

end TrustRegion
