/-
  Going through a tape backwards.

  Each number passes its share of the derivative on to the numbers it was made from, the last number
  first. The shares are numbers on the same tape, so that what arrives at the point can be gone
  through backwards once more. A share that is zero is passed on all the same: zero times infinity
  shows as a NaN in the result.

  The derivative of a sign is zero whatever the number, infinite or not. Such a share is only known
  to be zero. It stays so under products and quotients and becomes a number where it is negated or
  where it arrives at the point.
-/
import TrustRegion.Objective.Tape

namespace TrustRegion

namespace Objective

/-- The part of a derivative that has come to a number. -/
inductive Share (ν : Type)
  /-- Nothing, whatever it is multiplied with. -/
  | zero
  /-- A number on the tape. -/
  | number (entry : Entry ν)

namespace Share

variable {φ ν : Type} [Elementary ν]

/-- A share as a number on the tape. -/
def toEntry : Share ν → Recorder φ ν (Entry ν)
  | zero => Tape.constant 0
  | number entry => pure entry

/-- A share times a number. -/
def mul (g : Share ν) (a : Entry ν) : Recorder φ ν (Share ν) :=
  match g with
  | zero => pure zero
  | number entry => number <$> Tape.binary .mul entry a

/-- A share divided by a number. -/
def div (g : Share ν) (a : Entry ν) : Recorder φ ν (Share ν) :=
  match g with
  | zero => pure zero
  | number entry => number <$> Tape.binary .div entry a

/-- A share with the other sign. -/
def neg (g : Share ν) : Recorder φ ν (Share ν) := do
  number <$> Tape.unary .neg (← g.toEntry)

/-- Two shares together. -/
def add (g h : Share ν) : Recorder φ ν (Share ν) :=
  match g, h with
  | zero, h => pure h
  | g, zero => pure g
  | number a, number b => number <$> Tape.binary .add a b

/-- The share that `op a`, whose share is `g`, passes on to `a`; `result` is `op a`. -/
def ofUnary (op : UnaryOp) (a result : Entry ν) (g : Share ν) : Recorder φ ν (Share ν) :=
  match op with
  | .neg => g.neg
  | .exp => g.mul result
  | .log => g.div a
  | .sqrt => do g.div (← Tape.binary .mul (← Tape.constant 2.0) result)
  | .sin => do g.mul (← Tape.unary .cos a)
  | .cos => do g.mul (← Tape.unary .neg (← Tape.unary .sin a))
  | .abs => do g.mul (← Tape.unary .sign a)
  | .sign => pure zero

/-- The share that `op a b`, whose share is `g`, passes on to `a`. -/
def ofLeft (op : BinaryOp) (b : Entry ν) (g : Share ν) : Recorder φ ν (Share ν) :=
  match op with
  | .add | .sub => pure g
  | .mul => g.mul b
  | .div => g.div b

/-- The share that `op a b`, whose share is `g`, passes on to `b`. -/
def ofRight (op : BinaryOp) (a b : Entry ν) (g : Share ν) : Recorder φ ν (Share ν) :=
  match op with
  | .add => pure g
  | .sub => g.neg
  | .mul => g.mul a
  | .div => do
    let slope ← Tape.binary .div (← Tape.binary .div a b) b
    (← g.neg).mul slope

end Share

/-- How far a tape was gone through. -/
structure Sweep (ν : Type) where
  /-- The shares that have come to the numbers, by their place on the tape. -/
  shares : Array (Option (Share ν))
  /-- What has arrived at the point, by the place there, in the order of arrival. -/
  arrivals : List (Nat × Entry ν)

namespace Sweep

variable {φ ν : Type} [Elementary ν]

/-- No share has come to any of `size` numbers. -/
def start (size : Nat) : Sweep ν := ⟨Array.replicate size none, []⟩

/-- The share of the number at a place, if one has come there. -/
def share? (sweep : Sweep ν) (place : Nat) : Option (Share ν) := (sweep.shares[place]?).join

/-- A share added to those that have come to a number before; inactive numbers take none. -/
def deliver (sweep : Sweep ν) (target : Entry ν) (share : Share ν) : Recorder φ ν (Sweep ν) := do
  if target.active then
    let total ← match sweep.share? target.place with
      | some before => before.add share
      | none => pure share
    pure { sweep with shares := sweep.shares.setIfInBounds target.place (some total) }
  else pure sweep

/-- A share delivered if there is one. -/
def deliver? (sweep : Sweep ν) (target : Entry ν) (share : Option (Share ν)) :
    Recorder φ ν (Sweep ν) :=
  match share with
  | some share => sweep.deliver target share
  | none => pure sweep

/-- A share that arrives at an entry of the point, where it is written down as a number. -/
def arrive (sweep : Sweep ν) (index : Nat) (share : Share ν) : Recorder φ ν (Sweep ν) := do
  let entry ← Tape.copy (← share.toEntry)
  pure { sweep with arrivals := sweep.arrivals ++ [(index, entry)] }

/-- What the number at a place passes on; the second operand's share is computed first. -/
def passOn (sweep : Sweep ν) (place : Nat) : Recorder φ ν (Sweep ν) := do
  match sweep.share? place, (← get)[place]? with
  | some g, some (_, .coordinate index) => sweep.arrive index g
  | some g, some (_, .copy a) => sweep.deliver a g
  | some g, some (result, .unary op a) => sweep.deliver a (← Share.ofUnary op a result g)
  | some g, some (_, .binary op a b) =>
    let right ← if b.active then some <$> Share.ofRight op a b g else pure none
    let left ← if a.active then some <$> Share.ofLeft op b g else pure none
    (← sweep.deliver? a left).deliver? b right
  | _, _ => pure sweep

/-- The whole tape gone through, starting with the given shares of some numbers. -/
def backward (seeds : List (Entry ν × Entry ν)) : Recorder φ ν (Sweep ν) := do
  let size := (← get).size
  let seeded ← seeds.foldlM (fun sweep seed => sweep.deliver seed.1 (.number seed.2)) (start size)
  (List.range size).reverse.foldlM passOn seeded

/-- The vector with a number at one place and zero elsewhere. -/
def spike (n index : Nat) (a : ν) : Vector ν n :=
  Vector.ofFn fun i => if i.val = index then a else 0

/--
What has arrived at a point of `n` entries, added up in the order of arrival. Every arrival counts
as a vector that is zero elsewhere, and adding such a zero makes a negative zero positive.
-/
def total (n : Nat) (arrivals : List (Nat × Entry ν)) : Vector ν n :=
  match arrivals with
  | [] => Vector.ofFn fun _ => 0
  | (index, entry) :: rest =>
    rest.foldl (fun acc arrival => acc + spike n arrival.1 arrival.2.value)
      (spike n index entry.value)

end Sweep

end Objective

end TrustRegion
