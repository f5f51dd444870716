/-
  Computations that are recorded number by number.

  While a value is computed, a tape records for every intermediate number how it came about. Every
  use of a coordinate is an entry of its own, made from the point. Only numbers that depend on a
  variable are active; the others need no derivative.
-/
import TrustRegion.Objective.Expr

namespace TrustRegion

namespace Objective

/-- A number on a tape. -/
structure Entry (ν : Type) where
  /-- Its place on the tape. -/
  place : Nat
  /-- The number. -/
  value : ν
  /-- Whether it depends on a variable. -/
  active : Bool

/-- How a number came about. -/
inductive Origin (ν : Type)
  /-- It was given. -/
  | given
  /-- It is an entry of the point, by its place there. -/
  | coordinate (index : Nat)
  /-- It is another number over again. -/
  | copy (a : Entry ν)
  /-- It is a function of one number. -/
  | unary (op : UnaryOp) (a : Entry ν)
  /-- It is a function of two numbers. -/
  | binary (op : BinaryOp) (a b : Entry ν)

/-- All numbers of a computation, each with its origin. -/
abbrev Tape (ν : Type) := Array (Entry ν × Origin ν)

/-- A computation that writes on a tape. -/
abbrev Recorder (φ ν τ : Type) := EStateM (Fault φ) (Tape ν) τ

namespace Tape

variable {φ ν : Type} [Elementary ν]

/-- A number put on the tape. -/
def record (value : ν) (active : Bool) (origin : Origin ν) : Recorder φ ν (Entry ν) := fun tape =>
  let entry : Entry ν := ⟨tape.size, value, active⟩
  .ok entry (tape.push (entry, origin))

/-- A computation whose record is thrown away when it is done. -/
def aside {τ : Type} (act : Recorder φ ν τ) : Recorder φ ν τ := fun tape =>
  match act tape with
  | .ok result _ => .ok result tape
  | .error fault _ => .error fault tape

/-- A number that depends on no variable. -/
def constant (a : ν) : Recorder φ ν (Entry ν) := record a false .given

/-- A variable that is not part of the point. -/
def free (a : ν) : Recorder φ ν (Entry ν) := record a true .given

/-- An entry of the point, given with its place there. -/
def coordinate (entry : Nat × ν) : Recorder φ ν (Entry ν) :=
  record entry.2 true (.coordinate entry.1)

/-- A number over again. -/
def copy (a : Entry ν) : Recorder φ ν (Entry ν) := record a.value a.active (.copy a)

/-- A function of one number. -/
def unary (op : UnaryOp) (a : Entry ν) : Recorder φ ν (Entry ν) :=
  record (op.apply a.value) a.active (.unary op a)

/-- A function of two numbers. -/
def binary (op : BinaryOp) (a b : Entry ν) : Recorder φ ν (Entry ν) :=
  record (op.apply a.value b.value) (a.active || b.active) (.binary op a b)

/-- The arithmetic that records every number; an array of no values cannot be recorded. -/
def arithmetic : Arithmetic ν (Nat × ν) (Entry ν) (Recorder φ ν) where
  number := constant
  coordinate := coordinate
  free := free
  unary := unary
  binary := binary
  less := fun a b => pure (decide (a.value < b.value))
  nothing := throw .emptyStack

end Tape

end Objective

end TrustRegion
