/-
  Evaluators that differentiate an expression exactly.

  The arithmetic is that of doubles, of single precision or of a 16-bit format; points and constants
  are rounded to it and results widened again. Counts move only when an evaluation succeeds. One of
  the 16-bit formats has no way out: what was computed in it, and counted, cannot be handed out.
-/
import TrustRegion.Objective.Derivative
import TrustRegion.ShortFloat

namespace TrustRegion

/-- The numbers that an expression is computed in. -/
inductive Precision
  /-- 64 bits. -/
  | double
  /-- 32 bits. -/
  | single
  /-- 16 bits, 11 of them digits. -/
  | half
  /-- 16 bits, 8 of them digits. -/
  | brief
deriving Repr, DecidableEq

namespace Precision

/-- The number types that are not floating-point numbers, each with its full name. -/
def others : List (String × String) :=
  [("bool", "bool"), ("uint8", "uint8"), ("uint16", "uint16"), ("uint32", "uint32"),
   ("uint64", "uint64"), ("int8", "int8"), ("int16", "int16"), ("short", "int16"),
   ("int32", "int32"), ("int", "int32"), ("int64", "int64"), ("long", "int64"),
   ("complex32", "complex32"), ("chalf", "complex32"), ("complex64", "complex64"),
   ("cfloat", "complex64"), ("complex128", "complex128"), ("cdouble", "complex128"),
   ("quint8", "quint8"), ("qint8", "qint8"), ("qint32", "qint32"), ("quint4x2", "quint4x2"),
   ("quint2x4", "quint2x4")]

/-- The precision of a name; a name of something that is no floating-point number is refused. -/
def ofName {φ : Type} (name : String) : Except (Fault φ) Precision :=
  match name with
  | "float64" | "double" => pure double
  | "float32" | "float" => pure single
  | "float16" | "half" => pure half
  | "bfloat16" => pure brief
  | _ =>
    match others.lookup name with
    | some fullName => throw (.precision fullName)
    | none => throw (.unknownPrecision name)

end Precision

/-- A fault in a recorded computation; there, all trouble with the shapes of arrays is one fault. -/
def Fault.traced {α : Type} : Fault α → Fault α
  | .shapeMismatch | .ambiguousTruth => .tracedShapes
  | fault => fault

namespace Objective

namespace Expr

mutual

/-- The constants of an expression changed. -/
def map {α β : Type} (f : α → β) : Expr α → Expr β
  | number a => number (f a)
  | coordinate i => coordinate i
  | free a => free (f a)
  | unary op e => unary op (map f e)
  | binary op e e' => binary op (map f e) (map f e')
  | power e count => power (map f e) count
  | ifLess a b c d => ifLess (map f a) (map f b) (map f c) (map f d)
  | vector es => vector (mapAll f es)

/-- The constants of several expressions changed. -/
def mapAll {α β : Type} (f : α → β) : List (Expr α) → List (Expr β)
  | [] => []
  | e :: es => map f e :: mapAll f es

end

variable {α ν : Type} [Elementary ν]

/-- A computation on an empty tape. -/
def onTape {τ : Type} (act : Recorder α ν τ) : Action α Counts τ := fun counts =>
  match act #[] with
  | .ok result _ => .ok result counts
  | .error fault _ => .error fault.traced counts

/--
The evaluator that differentiates an expression in numbers of type `ν`, to which `narrow` rounds
and from which results are handed out by `handOut`.
-/
def evaluatorIn (narrow : α → ν) (handOut : Tensor ν → Except (Fault α) (Tensor α)) (e : Expr α) :
    Evaluator α α Counts where
  valueAndGradient := fun x => do
    let (value, g) ← onTape (valueAndGradient (map narrow e) (x.map narrow))
    modify fun counts =>
      { counts with values := counts.values + 1, gradients := counts.gradients + 1 }
    let value ← MonadExcept.ofExcept (handOut (.scalar value))
    let g ← MonadExcept.ofExcept (handOut g)
    pure (value, g)
  hessian := fun x => do
    let H ← onTape (hessian (map narrow e) (x.map narrow))
    modify fun counts => { counts with hessians := counts.hessians + 1 }
    MonadExcept.ofExcept (handOut H)
  counts := some

/-- The evaluator that differentiates an expression in a precision. -/
def evaluator (e : Expr Float) : Precision → Evaluator Float Float Counts
  | .double => evaluatorIn id pure e
  | .single => evaluatorIn Float.toFloat32 (fun t => pure (t.map Float32.toFloat)) e
  | .half =>
    evaluatorIn (fun a => (ShortFloat.ofDouble a : ShortFloat .half))
      (fun t => pure (t.map ShortFloat.toDouble)) e
  | .brief =>
    evaluatorIn (fun a => (ShortFloat.ofDouble a : ShortFloat .brief))
      (fun _ => throw .unreadablePrecision) e

end Expr

end Objective

end TrustRegion
