/-
  Arrays of any rank whose shape is known only when the program runs.

  Gradients and Hessians come from the caller, so their shapes have to be checked before they can
  be used. A `Tensor` is the unchecked form: a shape together with the entries in row-major order.
  `toVector?` and `toSquare?` give the checked forms, a `Vector α n` and a `SquareMatrix α n`, and
  `ofVector` and `ofSquare` lead back.
-/

namespace TrustRegion

/-- The extent of an array along each of its axes. -/
abbrev Shape := List Nat

namespace Shape

/-- The number of entries of an array of the given shape. -/
def volume : Shape → Nat
  | [] => 1
  | d :: ds => d * volume ds

@[simp] theorem volume_nil : volume [] = 1 := rfl

@[simp] theorem volume_cons (d : Nat) (ds : Shape) : volume (d :: ds) = d * volume ds := rfl

/-- A shape in writing: `()`, `(3,)`, `(2, 1)`. -/
def text (shape : Shape) : String :=
  match shape with
  | [] => "()"
  | [d] => "(" ++ d.repr ++ ",)"
  | ds => "(" ++ ", ".intercalate (ds.map Nat.repr) ++ ")"

end Shape

/-- A square matrix of size `n`, as the vector of its rows. -/
abbrev SquareMatrix (α : Type) (n : Nat) := Vector (Vector α n) n

/-- An array of any shape, its entries in row-major order. -/
structure Tensor (α : Type) where
  /-- The extent along each axis. -/
  shape : Shape
  /-- The entries; the last index varies fastest. -/
  data : Array α
  /-- There are as many entries as the shape has places. -/
  size_eq : data.size = shape.volume

namespace Tensor

variable {α β : Type}

/-- The array of a given shape and given entries, if their number is right. -/
def ofData? (shape : Shape) (data : Array α) : Option (Tensor α) :=
  if h : data.size = shape.volume then some ⟨shape, data, h⟩ else none

/-- The array with one axis and no entries. -/
def empty : Tensor α := ⟨[0], #[], rfl⟩

instance : Inhabited (Tensor α) := ⟨empty⟩

/-- A single number, as an array without axes. -/
def scalar (a : α) : Tensor α := ⟨[], #[a], rfl⟩

/-- An array with one axis. -/
def ofVector {n : Nat} (v : Vector α n) : Tensor α := ⟨[n], v.toArray, by simp⟩

/-- A square matrix as an array with two axes. -/
def ofSquare {n : Nat} (M : SquareMatrix α n) : Tensor α :=
  ⟨[n, n], M.flatten.toArray, by simp⟩

/-- The array of a given shape with one number in every place. -/
def constant (shape : Shape) (a : α) : Tensor α :=
  ⟨shape, Array.replicate shape.volume a, by simp⟩

/-- The only entry of an array that has exactly one, whatever its rank. -/
def single? (t : Tensor α) : Option α :=
  if t.data.size = 1 then t.data[0]? else none

/-- The number that an array without axes holds. -/
def toScalar? (t : Tensor α) : Option α :=
  if t.shape = [] then t.data[0]? else none

/-- The array as a vector of length `n`, if it has one axis of that extent. -/
def toVector? (n : Nat) (t : Tensor α) : Option (Vector α n) :=
  if h : t.shape = [n] then some ⟨t.data, by simp [t.size_eq, h]⟩ else none

/-- The array as a square matrix of size `n`, if it has two axes of that extent. -/
def toSquare? (n : Nat) (t : Tensor α) : Option (SquareMatrix α n) :=
  if h : t.shape = [n, n] then
    have size_eq : t.data.size = n * n := by simp [t.size_eq, h]
    some (Vector.ofFn fun i => Vector.ofFn fun j =>
      have inside : i.val * n + j.val < t.data.size := by
        rw [size_eq]
        calc i.val * n + j.val < i.val * n + n := Nat.add_lt_add_left j.isLt _
          _ = (i.val + 1) * n := (Nat.succ_mul _ _).symm
          _ ≤ n * n := Nat.mul_le_mul_right n i.isLt
      t.data[i.val * n + j.val])
  else none

@[simp] theorem toVector?_ofVector {n : Nat} (v : Vector α n) :
    (ofVector v).toVector? n = some v := by
  simp [toVector?, ofVector]

theorem ofVector_inj {n : Nat} {v w : Vector α n} : ofVector v = ofVector w ↔ v = w := by
  constructor
  · intro same
    simpa using congrArg (toVector? n) same
  · intro same
    rw [same]

theorem ofVector_of_toVector? {n : Nat} {t : Tensor α} {v : Vector α n}
    (h : t.toVector? n = some v) : ofVector v = t := by
  unfold toVector? at h
  split at h
  · rename_i shape_eq
    cases h
    cases t
    cases shape_eq
    rfl
  · cases h

@[simp] theorem toSquare?_ofSquare {n : Nat} (M : SquareMatrix α n) :
    (ofSquare M).toSquare? n = some M := by
  unfold toSquare?
  split
  · refine congrArg some (Vector.ext fun i hi => Vector.ext fun j hj => ?_)
    have pos : 0 < n := Nat.lt_of_le_of_lt (Nat.zero_le j) hj
    have row : (i * n + j) / n = i := by
      rw [Nat.add_comm, Nat.add_mul_div_right j i pos, Nat.div_eq_of_lt hj, Nat.zero_add]
    simp [ofSquare, row, Nat.mod_eq_of_lt hj]
  · rename_i h
    exact absurd rfl h

theorem ofSquare_inj {n : Nat} {A B : SquareMatrix α n} : ofSquare A = ofSquare B ↔ A = B := by
  constructor
  · intro same
    simpa using congrArg (toSquare? n) same
  · intro same
    rw [same]

theorem ofSquare_of_toSquare? {n : Nat} {t : Tensor α} {M : SquareMatrix α n}
    (h : t.toSquare? n = some M) : ofSquare M = t := by
  unfold toSquare? at h
  split at h
  · rename_i shape_eq
    cases h
    obtain ⟨shape, data, size_eq⟩ := t
    cases shape_eq
    simp only [ofSquare, mk.injEq, true_and]
    refine Array.ext (by simp [size_eq]) fun place _ _ => ?_
    simp [Nat.div_add_mod']
  · cases h

/-- A function applied to every entry. -/
def map (f : α → β) (t : Tensor α) : Tensor β :=
  ⟨t.shape, t.data.map f, by simp [t.size_eq]⟩

/-- Every entry together with its place in row-major order. -/
def indexed (t : Tensor α) : Tensor (Nat × α) :=
  ⟨t.shape, t.data.mapIdx fun place a => (place, a), by simp [t.size_eq]⟩

/--
The place along an axis of extent `d` that an index means; a negative one counts from the end.
-/
def place? (d : Nat) (index : Int) : Option Nat :=
  let place := if index < 0 then index + d else index
  if 0 ≤ place ∧ place < d then some place.toNat else none

/-- The slice at an index along the first axis. -/
def slice? (t : Tensor α) (index : Int) : Option (Tensor α) :=
  match t.shape with
  | [] => none
  | d :: ds =>
    (place? d index).bind fun place =>
      let start := place * Shape.volume ds
      ofData? ds (t.data.extract start (start + Shape.volume ds))

/-- Arrays of one shape laid along a new first axis; no arrays give an empty vector. -/
def stack? : List (Tensor α) → Option (Tensor α)
  | [] => some empty
  | t :: ts =>
    if ts.all (fun u => u.shape == t.shape) then
      ofData? ((ts.length + 1) :: t.shape) (ts.foldl (fun acc u => acc ++ u.data) t.data)
    else none

end Tensor

end TrustRegion
