/-
  Objectives as expressions in the coordinates of a point.

  An expression is evaluated in the order in which it is written, without regrouping. What a number
  is, and what an operation does, is left to an `Arithmetic`: plain numbers give the value, entries
  of a tape record how the value came about. Of a case distinction only one branch is evaluated.

  A point may have any shape; its coordinates are the slices along its first axis. A value may be an
  array too. Operations on arrays work entry by entry, the shapes being stretched to each other.
-/
import TrustRegion.Tensor.Broadcast
import TrustRegion.Evaluator.Basic

namespace TrustRegion

namespace Objective

/-- A function of one number. -/
inductive UnaryOp
  /-- The number with the other sign. -/
  | neg
  /-- Exponential function. -/
  | exp
  /-- Natural logarithm. -/
  | log
  /-- Square root. -/
  | sqrt
  /-- Sine. -/
  | sin
  /-- Cosine. -/
  | cos
  /-- Absolute value. -/
  | abs
  /-- Sign: `-1`, `0` or `1`. -/
  | sign
deriving Repr, DecidableEq

/-- A function of two numbers. -/
inductive BinaryOp
  /-- Sum. -/
  | add
  /-- Difference. -/
  | sub
  /-- Product. -/
  | mul
  /-- Quotient. -/
  | div
deriving Repr, DecidableEq

/-- An expression in the coordinates of a point. -/
inductive Expr (α : Type)
  /-- A constant. -/
  | number (a : α)
  /-- A coordinate of the point; a negative index counts from the end. -/
  | coordinate (index : Int)
  /-- A variable of the given value that is not a coordinate. -/
  | free (a : α)
  /-- A function of one value. -/
  | unary (op : UnaryOp) (e : Expr α)
  /-- A function of two values. -/
  | binary (op : BinaryOp) (e f : Expr α)
  /-- The product of `count` equal factors, from the left; one factor if `count` is zero. -/
  | power (e : Expr α) (count : Nat)
  /-- The third or the fourth expression, depending on whether the first is below the second. -/
  | ifLess (a b c d : Expr α)
  /-- The array of some values. -/
  | vector (es : List (Expr α))
deriving Inhabited

/--
What the parts of an expression mean, where constants have type `α` and entries of a point type `κ`:
numbers of type `ν`, and operations in a monad.
-/
structure Arithmetic (α κ ν : Type) (m : Type → Type) where
  /-- A constant. -/
  number : α → m ν
  /-- An entry of the point, wherever it is used. -/
  coordinate : κ → m ν
  /-- A variable that is not a coordinate. -/
  free : α → m ν
  /-- A function of one number. -/
  unary : UnaryOp → ν → m ν
  /-- A function of two numbers. -/
  binary : BinaryOp → ν → ν → m ν
  /-- A comparison. -/
  less : ν → ν → m Bool
  /-- The array of no values. -/
  nothing : m (Tensor ν)

end Objective

namespace Tensor

/-- An operation on every entry, one after the other. -/
def mapM {α β : Type} {m : Type → Type} [Monad m] (f : α → m β) (t : Tensor α) : m (Tensor β) := do
  let entries ← Vector.mapM f (⟨t.data, t.size_eq⟩ : Vector α t.shape.volume)
  pure ⟨t.shape, entries.toArray, entries.size_toArray⟩

end Tensor

namespace Objective

namespace Expr

variable {α κ ν φ : Type} {m : Type → Type} [Monad m] [MonadExcept (Fault φ) m]

/-- Matching entries of two arrays, each stretched to the other. -/
def pairUp (t u : Tensor ν) : m (Tensor (ν × ν)) :=
  match Tensor.zipWith? Prod.mk t u with
  | some pairs => pure pairs
  | none => throw .shapeMismatch

/-- The answer of a comparison that has exactly one. -/
def truth (t : Tensor Bool) : m Bool :=
  match t.single? with
  | some b => pure b
  | none => throw .ambiguousTruth

mutual

/-- The value of an expression at a point. -/
def eval (arith : Arithmetic α κ ν m) (x : Tensor κ) : Expr α → m (Tensor ν)
  | number a => return .scalar (← arith.number a)
  | free a => return .scalar (← arith.free a)
  | coordinate i =>
    match x.slice? i with
    | some t => t.mapM arith.coordinate
    | none => throw (.coordinate i)
  | unary op e => do (← eval arith x e).mapM (arith.unary op)
  | binary op e f => do
    let t ← eval arith x e
    let u ← eval arith x f
    (← pairUp t u).mapM fun pair => arith.binary op pair.1 pair.2
  | power e count => do
    let t ← eval arith x e
    (List.replicate (count - 1) t).foldlM
      (fun acc factor => do
        (← pairUp acc factor).mapM fun pair => arith.binary .mul pair.1 pair.2) t
  | ifLess a b c d => do
    let t ← eval arith x a
    let u ← eval arith x b
    let below ← truth (← (← pairUp t u).mapM fun pair => arith.less pair.1 pair.2)
    if below then eval arith x c else eval arith x d
  | vector [] => arith.nothing
  | vector (e :: es) => do
    match Tensor.stack? (← evalAll arith x (e :: es)) with
    | some t => pure t
    | none => throw .shapeMismatch

/-- The values of several expressions, in order. -/
def evalAll (arith : Arithmetic α κ ν m) (x : Tensor κ) : List (Expr α) → m (List (Tensor ν))
  | [] => pure []
  | e :: es => do
    let t ← eval arith x e
    return t :: (← evalAll arith x es)

end

end Expr

namespace UnaryOp

/-- A function of one number, on numbers. -/
def apply {α : Type} [Elementary α] : UnaryOp → α → α
  | neg, a => -a
  | exp, a => Elementary.exp a
  | log, a => Elementary.log a
  | sqrt, a => Scalar.sqrt a
  | sin, a => Elementary.sin a
  | cos, a => Elementary.cos a
  | abs, a => Scalar.abs a
  | sign, a => Scalar.sign a

end UnaryOp

namespace BinaryOp

/-- A function of two numbers, on numbers. -/
def apply {α : Type} [Scalar α] : BinaryOp → α → α → α
  | add, a, b => a + b
  | sub, a, b => a - b
  | mul, a, b => a * b
  | div, a, b => a / b

end BinaryOp

/-- Numbers as they are. -/
def Arithmetic.plain {α : Type} [Elementary α] {m : Type → Type} [Monad m] :
    Arithmetic α α α m where
  number := pure
  coordinate := pure
  free := pure
  unary := fun op a => pure (op.apply a)
  binary := fun op a b => pure (op.apply a b)
  less := fun a b => pure (decide (a < b))
  nothing := pure .empty

namespace Expr

variable {α τ : Type} [Elementary α]

/-- An expression as an operation on points. -/
def action (e : Expr α) : PointAction α τ (Tensor α) := fun x => eval .plain x e

/-- A list of expressions as an operation on points: a gradient. -/
def actionOfList (es : List (Expr α)) : PointAction α τ (Tensor α) := (vector es).action

/-- Rows of expressions as an operation on points: a Hessian. -/
def actionOfRows (rows : List (List (Expr α))) : PointAction α τ (Tensor α) :=
  (vector (rows.map vector)).action

end Expr

end Objective

end TrustRegion
