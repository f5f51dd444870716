/-
  Exact derivatives of expressions.

  A gradient is one sweep through the tape of a value. What arrives at the point is on that tape
  again, and a sweep from there, seeded at one component, gives one row of the Hessian. Gradient and
  Hessian have the shape of the point, once and twice.
-/
import TrustRegion.Objective.Sweep

namespace TrustRegion

theorem Shape.volume_append (s t : Shape) : Shape.volume (s ++ t) = s.volume * t.volume := by
  induction s with
  | nil => simp
  | cons d ds ih => simp [ih, Nat.mul_assoc]

namespace Tensor

variable {α : Type}

/-- The array with the given entries. -/
def ofEntries (shape : Shape) (v : Vector α shape.volume) : Tensor α :=
  ⟨shape, v.toArray, v.size_toArray⟩

/-- The array whose slices have the given entries. -/
def ofRows (shape : Shape) (rows : Vector (Vector α shape.volume) shape.volume) : Tensor α :=
  ofEntries (shape ++ shape) (rows.flatten.cast (Shape.volume_append shape shape).symm)

end Tensor

namespace Objective

namespace Expr

variable {φ ν : Type} [Elementary ν]

/-- The value of an expression on a tape; it must be one number, in an array of any rank. -/
def trace (e : Expr ν) (x : Tensor ν) : Recorder φ ν (Entry ν) := do
  let t ← eval Tape.arithmetic x.indexed e
  match t.single? with
  | some value => pure value
  | none => throw (.objectiveShape t.shape)

/-- The derivatives of a traced value, as they arrive at the point. -/
def derivatives (value : Entry ν) : Recorder φ ν (List (Nat × Entry ν)) := do
  let sweep ← Sweep.backward [(value, ← Tape.constant 1)]
  pure sweep.arrivals

/-- The value and the gradient of an expression, which must depend on some variable. -/
def valueAndGradient (e : Expr ν) (x : Tensor ν) : Recorder φ ν (ν × Tensor ν) := do
  let value ← trace e x
  if value.active then
    let arrivals ← derivatives value
    pure (value.value, .ofEntries x.shape (Sweep.total x.shape.volume arrivals))
  else throw .constantValue

/-- Row `j` of the Hessian: the gradient gone through backwards, seeded at its component `j`. -/
def hessianRow (n : Nat) (gradient : List (Nat × Entry ν)) (j : Fin n) :
    Recorder φ ν (Vector ν n) := do
  let seeds ← gradient.mapM fun arrival => do
    pure (arrival.2, ← Tape.constant (if arrival.1 = j.val then 1 else 0))
  let sweep ← Sweep.backward seeds
  pure (Sweep.total n sweep.arrivals)

/--
The Hessian of an expression; zero where it depends on no variable. A point without entries has
none.
-/
def hessian (e : Expr ν) (x : Tensor ν) : Recorder φ ν (Tensor ν) := do
  let value ← trace e x
  if x.shape.volume = 0 then throw .emptyStack
  else
    let gradient ← if value.active then derivatives value else pure []
    let rows ← (Vector.finRange x.shape.volume).mapM fun j =>
      Tape.aside (hessianRow x.shape.volume gradient j)
    pure (.ofRows x.shape rows)

end Expr

end Objective

end TrustRegion
