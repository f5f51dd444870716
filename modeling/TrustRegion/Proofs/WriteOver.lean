/-
  Arrays written over others and back.

  Writing an array over another may stretch it. Stretching repeats entries, so the number of entries
  grows unless nothing happens (`volume_le_of_stretch`), and an array that was written over another
  and back again is what it was (`writeOver_writeOver`).
-/
import Mathlib.Tactic.Ring
import TrustRegion.Update

namespace TrustRegion

namespace Tensor

variable {α : Type} {source target : Shape} {entries result : List α} {t u v : Tensor α}

theorem ext_data (shape : t.shape = u.shape) (data : t.data = u.data) : t = u := by
  cases t
  cases u
  cases shape
  cases data
  rfl

/-! ## Stretching -/

/-- Slices laid one after the other; there are none if one of them is missing. -/
def concat? (slices : List (Option (List α))) : Option (List α) :=
  slices.foldr (fun slice rest => slice.bind fun xs => rest.map (xs ++ ·)) (some [])

theorem concat?_map_some (slices : List (List α)) :
    concat? (slices.map some) = some slices.flatten := by
  induction slices with
  | nil => rfl
  | cons slice rest ih =>
    show (some slice).bind (fun xs => (concat? (rest.map some)).map (xs ++ ·)) = _
    rw [ih]
    rfl

theorem exists_of_concat? {slices : List (Option (List α))} (h : concat? slices = some result) :
    ∀ slice ∈ slices, ∃ xs, slice = some xs := by
  induction slices generalizing result with
  | nil => simp
  | cons slice rest ih =>
    change (slice.bind fun xs => (concat? rest).map (xs ++ ·)) = some result at h
    obtain ⟨xs, found, h⟩ := Option.bind_eq_some_iff.1 h
    obtain ⟨ys, found', -⟩ := Option.map_eq_some_iff.1 h
    intro other mem
    rcases List.mem_cons.1 mem with rfl | mem
    · exact ⟨xs, found⟩
    · exact ih found' other mem

theorem mem_of_concat? {slices : List (Option (List α))} (h : concat? slices = some result)
    {xs : List α} (mem : some xs ∈ slices) {a : α} (inside : a ∈ xs) : a ∈ result := by
  induction slices generalizing result with
  | nil => cases mem
  | cons slice rest ih =>
    change (slice.bind fun xs => (concat? rest).map (xs ++ ·)) = some result at h
    obtain ⟨ys, found, h⟩ := Option.bind_eq_some_iff.1 h
    obtain ⟨zs, found', rfl⟩ := Option.map_eq_some_iff.1 h
    rcases List.mem_cons.1 mem with same | mem
    · obtain rfl := Option.some.inj (same.trans found)
      exact List.mem_append_left zs inside
    · exact List.mem_append_right ys (ih found' mem)

theorem stretch_cons (d e : Nat) (ds es : Shape) (entries : List α) :
    stretch (d :: ds) (e :: es) entries =
      if d = e then
        concat? ((List.range d).map fun i =>
          stretch ds es ((entries.drop (i * Shape.volume ds)).take (Shape.volume ds)))
      else if d = 1 then (stretch ds es entries).map fun slice => (List.replicate e slice).flatten
      else none := by
  rw [stretch]
  rfl

/-- The leading entries, cut into slices of one length. -/
theorem flatten_slices (entries : List α) (width count : Nat) :
    ((List.range count).map fun i => (entries.drop (i * width)).take width).flatten =
      entries.take (count * width) := by
  induction count with
  | zero => simp
  | succ count ih =>
    rw [List.range_succ, List.map_append, List.flatten_append, ih, Nat.succ_mul, List.take_add]
    simp

/-- Stretching to the shape it has leaves an array alone. -/
theorem stretch_self (shape : Shape) (entries : List α) (size : entries.length = shape.volume) :
    stretch shape shape entries = some entries := by
  induction shape generalizing entries with
  | nil => rfl
  | cons d ds ih =>
    have slices : (List.range d).map (fun i =>
        stretch ds ds ((entries.drop (i * Shape.volume ds)).take (Shape.volume ds))) =
        ((List.range d).map fun i => (entries.drop (i * Shape.volume ds)).take (Shape.volume ds)).map some := by
      rw [List.map_map]
      refine List.map_congr_left fun i mem => ih _ ?_
      have room : i * Shape.volume ds + Shape.volume ds ≤ d * Shape.volume ds := by
        rw [← Nat.succ_mul]
        exact Nat.mul_le_mul_right _ (List.mem_range.1 mem)
      rw [Shape.volume_cons] at size
      rw [List.length_take, List.length_drop, size]
      omega
    rw [stretch_cons, if_pos rfl, slices, concat?_map_some, flatten_slices, List.take_of_length_le]
    rw [size, Shape.volume_cons]

/-- An empty array stays empty. -/
theorem volume_eq_zero_of_stretch (h : stretch source target entries = some result)
    (zero : source.volume = 0) : target.volume = 0 := by
  induction source generalizing target entries result with
  | nil => exact absurd zero Nat.one_ne_zero
  | cons d ds ih =>
    cases target with
    | nil => cases h
    | cons e es =>
      rw [stretch_cons] at h
      rw [Shape.volume_cons] at zero ⊢
      split at h
      · next same =>
        rw [← same]
        rcases Nat.mul_eq_zero.1 zero with none_left | zero
        · rw [none_left, Nat.zero_mul]
        · by_cases none_left : d = 0
          · rw [none_left, Nat.zero_mul]
          · have mem : 0 ∈ List.range d := List.mem_range.2 (Nat.pos_of_ne_zero none_left)
            obtain ⟨xs, found⟩ := exists_of_concat? h _ (List.mem_map_of_mem mem)
            rw [ih found zero, Nat.mul_zero]
      · split at h
        · next one =>
          obtain ⟨xs, found, -⟩ := Option.map_eq_some_iff.1 h
          rw [one, Nat.one_mul] at zero
          rw [ih found zero, Nat.mul_zero]
        · cases h

/-- Stretching does not lose entries, and it is the identity if it does not gain any. -/
theorem volume_le_of_stretch (h : stretch source target entries = some result)
    (nonempty : target.volume ≠ 0) :
    source.volume ≤ target.volume ∧ (source.volume = target.volume → source = target) := by
  induction source generalizing target entries result with
  | nil =>
    cases target with
    | nil => exact ⟨Nat.le_refl _, fun _ => rfl⟩
    | cons e es => cases h
  | cons d ds ih =>
    cases target with
    | nil => cases h
    | cons e es =>
      rw [stretch_cons] at h
      rw [Shape.volume_cons] at nonempty
      have e_ne : e ≠ 0 := fun zero => nonempty (by rw [zero, Nat.zero_mul])
      have es_ne : Shape.volume es ≠ 0 := fun zero => nonempty (by rw [zero, Nat.mul_zero])
      rw [Shape.volume_cons, Shape.volume_cons]
      split at h
      · next same =>
        subst same
        have mem : 0 ∈ List.range d := List.mem_range.2 (Nat.pos_of_ne_zero e_ne)
        obtain ⟨xs, found⟩ := exists_of_concat? h _ (List.mem_map_of_mem mem)
        obtain ⟨le, eq_of_eq⟩ := ih found es_ne
        refine ⟨Nat.mul_le_mul_left d le, fun volumes => ?_⟩
        rw [eq_of_eq (Nat.eq_of_mul_eq_mul_left (Nat.pos_of_ne_zero e_ne) volumes)]
      · split at h
        · next differ one =>
          obtain ⟨xs, found, -⟩ := Option.map_eq_some_iff.1 h
          obtain ⟨le, -⟩ := ih found es_ne
          have two_le : 2 ≤ e := by omega
          have more : 2 * Shape.volume es ≤ e * Shape.volume es := Nat.mul_le_mul_right _ two_le
          rw [one, Nat.one_mul]
          exact ⟨by omega, fun volumes => absurd volumes (by omega)⟩
        · cases h

/-- Stretching to a shape with places loses no entry. -/
theorem mem_of_stretch (h : stretch source target entries = some result)
    (size : entries.length = source.volume) (nonempty : target.volume ≠ 0) {a : α}
    (mem : a ∈ entries) : a ∈ result := by
  induction source generalizing target entries result with
  | nil =>
    cases target with
    | nil =>
      cases h
      exact mem
    | cons e es => cases h
  | cons d ds ih =>
    cases target with
    | nil => cases h
    | cons e es =>
      rw [stretch_cons] at h
      rw [Shape.volume_cons] at size nonempty
      have e_ne : e ≠ 0 := fun zero => nonempty (by rw [zero, Nat.zero_mul])
      have es_ne : Shape.volume es ≠ 0 := fun zero => nonempty (by rw [zero, Nat.mul_zero])
      split at h
      · -- The entry stands in one of the slices, and each slice is stretched by itself.
        rw [← List.take_of_length_le size.le, ← flatten_slices] at mem
        obtain ⟨slice, slice_mem, mem⟩ := List.mem_flatten.1 mem
        obtain ⟨i, inside, rfl⟩ := List.mem_map.1 slice_mem
        have mapped := List.mem_map_of_mem
          (f := fun i => stretch ds es ((entries.drop (i * Shape.volume ds)).take (Shape.volume ds)))
          inside
        obtain ⟨xs, found⟩ := exists_of_concat? h _ mapped
        rw [found] at mapped
        refine mem_of_concat? h mapped (ih found ?_ es_ne mem)
        have room : i * Shape.volume ds + Shape.volume ds ≤ d * Shape.volume ds := by
          rw [← Nat.succ_mul]
          exact Nat.mul_le_mul_right _ (List.mem_range.1 inside)
        rw [List.length_take, List.length_drop, size]
        omega
      · split at h
        · next one =>
          obtain ⟨xs, found, rfl⟩ := Option.map_eq_some_iff.1 h
          rw [one, Nat.one_mul] at size
          exact List.mem_flatten.2 ⟨xs, List.mem_replicate.2 ⟨e_ne, rfl⟩, ih found size es_ne mem⟩
        · cases h

/-! ## Writing over an array -/

theorem volume_padShape (rank : Nat) (shape : Shape) : (padShape rank shape).volume = shape.volume := by
  unfold padShape
  induction rank - shape.length with
  | zero => rfl
  | succ k ih => rw [List.replicate_succ, List.cons_append, Shape.volume_cons, ih, Nat.one_mul]

theorem broadcastTo?_spec (h : t.broadcastTo? target = some u) : u.shape = target ∧
    (u.data = t.data ∨
      stretch (padShape target.length t.shape) target t.data.toList = some u.data.toList) := by
  unfold broadcastTo? at h
  split at h
  · next same =>
    cases h
    exact ⟨same, Or.inl rfl⟩
  · obtain ⟨entries, stretched, h⟩ := Option.bind_eq_some_iff.1 h
    unfold ofData? at h
    split at h
    · cases h
      exact ⟨rfl, Or.inr stretched⟩
    · cases h

/-- Writing over an array keeps the entries or stretches them. -/
theorem assignTo?_spec (h : t.assignTo? target = some u) : u.shape = target ∧
    (u.data = t.data ∨ ∃ shape : Shape, shape.volume = t.shape.volume ∧
      stretch shape target t.data.toList = some u.data.toList) := by
  obtain ⟨shape, same | stretched⟩ := broadcastTo?_spec h
  · exact ⟨shape, Or.inl same⟩
  · exact ⟨shape, Or.inr ⟨_, by rw [volume_padShape, volume_trimShape], stretched⟩⟩

theorem size_eq_volume (h : t.assignTo? target = some u) : u.data.size = target.volume := by
  rw [u.size_eq, (assignTo?_spec h).1]

/-- Writing over an array of as many places keeps the entries. -/
theorem data_of_assignTo? (h : t.assignTo? target = some u)
    (volume : t.shape.volume = target.volume) : u.data = t.data := by
  rcases (assignTo?_spec h).2 with same | ⟨shape, shape_volume, stretched⟩
  · exact same
  · by_cases empty : target.volume = 0
    · have none_left : u.data.size = 0 := by rw [size_eq_volume h, empty]
      have none_left' : t.data.size = 0 := by rw [t.size_eq, volume, empty]
      rw [Array.size_eq_zero_iff.1 none_left, Array.size_eq_zero_iff.1 none_left']
    · have same : shape = target :=
        (volume_le_of_stretch stretched empty).2 (shape_volume.trans volume)
      have size : t.data.toList.length = target.volume := by
        rw [Array.length_toList, t.size_eq, volume]
      rw [same, stretch_self target _ size] at stretched
      exact (Array.toList_inj.1 (Option.some.inj stretched)).symm

theorem volume_le_of_assignTo? (h : t.assignTo? target = some u) (nonempty : target.volume ≠ 0) :
    t.shape.volume ≤ target.volume := by
  rcases (assignTo?_spec h).2 with same | ⟨shape, shape_volume, stretched⟩
  · rw [← t.size_eq, ← size_eq_volume h, same]
  · rw [← shape_volume]
    exact (volume_le_of_stretch stretched nonempty).1

theorem volume_eq_zero_of_assignTo? (h : t.assignTo? target = some u)
    (empty : t.shape.volume = 0) : target.volume = 0 := by
  rcases (assignTo?_spec h).2 with same | ⟨shape, shape_volume, stretched⟩
  · rw [← size_eq_volume h, same, t.size_eq, empty]
  · exact volume_eq_zero_of_stretch stretched (shape_volume.trans empty)

/-- An array written over another and back again is what it was. -/
theorem assignTo?_assignTo? (there : t.assignTo? target = some u)
    (back : u.assignTo? t.shape = some v) : v = t := by
  have shape_there := (assignTo?_spec there).1
  have volume : t.shape.volume = target.volume := by
    by_cases empty : t.shape.volume = 0
    · rw [empty, volume_eq_zero_of_assignTo? there empty]
    · have nonempty : target.volume ≠ 0 := fun zero => empty (by
        rw [← shape_there] at zero
        exact volume_eq_zero_of_assignTo? back zero)
      have le := volume_le_of_assignTo? back empty
      rw [shape_there] at le
      exact Nat.le_antisymm (volume_le_of_assignTo? there nonempty) le
  have volume_back : u.shape.volume = t.shape.volume := by rw [shape_there, volume]
  refine ext_data (assignTo?_spec back).1 ?_
  rw [data_of_assignTo? back volume_back, data_of_assignTo? there volume]

theorem assignTo?_of_writeOver (h : t.writeOver target = .ok u) : t.assignTo? target = some u := by
  unfold writeOver at h
  split at h
  · cases h
  · split at h
    · next found =>
      cases h
      exact found
    · cases h

theorem shape_writeOver (h : t.writeOver target = .ok u) : u.shape = target :=
  (assignTo?_spec (assignTo?_of_writeOver h)).1

/-- Writing over an array that has places loses no entry. -/
theorem mem_of_writeOver (h : t.writeOver target = .ok u) (nonempty : target.volume ≠ 0) {a : α}
    (mem : a ∈ t.data) : a ∈ u.data := by
  rcases (assignTo?_spec (assignTo?_of_writeOver h)).2 with same | ⟨shape, volume, stretched⟩
  · rwa [same]
  · have size : t.data.toList.length = shape.volume := by
      rw [Array.length_toList, t.size_eq, volume]
    exact Array.mem_toList_iff.1 (mem_of_stretch stretched size nonempty (Array.mem_toList_iff.2 mem))

/-- An array written over one of its own shape is left alone. -/
theorem eq_of_writeOver_shape (h : t.writeOver t.shape = .ok u) : u = t :=
  ext_data (shape_writeOver h) (data_of_assignTo? (assignTo?_of_writeOver h) rfl)

theorem writeOver_shape (axis : t.shape ≠ []) : t.writeOver t.shape = .ok t := by
  have trimmed : trimShape t.shape.length t.shape = t.shape := by
    unfold trimShape
    split
    · next ds shape =>
      rw [shape, List.length_cons, if_neg (Nat.not_succ_le_self ds.length)]
    · rfl
  have assigned : t.assignTo? t.shape = some t :=
    (if_pos trimmed).trans (congrArg some (ext_data trimmed rfl))
  unfold writeOver
  rw [if_neg (by rwa [List.isEmpty_iff]), assigned]
  rfl

theorem writeOverVector_ofVector {n : Nat} (v : Vector α n) :
    (ofVector v).writeOverVector n = .ok v := by
  have assigned : assignTo? [n] (ofVector v) = some (ofVector v) :=
    assignTo?_of_writeOver (writeOver_shape (t := ofVector v) (List.cons_ne_nil n []))
  unfold writeOverVector
  rw [assigned, Option.bind_some, toVector?_ofVector]
  rfl

theorem writeOver_writeOver (there : t.writeOver target = .ok u)
    (back : u.writeOver t.shape = .ok v) : v = t :=
  assignTo?_assignTo? (assignTo?_of_writeOver there) (assignTo?_of_writeOver back)

/-! ## Writing a vector over another -/

theorem trimShape_singleton (d : Nat) : trimShape 1 [d] = [d] := by
  by_cases one : d = 1
  · rw [one]
    rfl
  · rw [trimShape]
    rintro ds same
    exact one (List.cons.inj same).1

theorem assignTo?_ofVector_of_ne {k n : Nat} (v : Vector α k) (differ : k ≠ n) :
    (ofVector v).assignTo? [n] =
      if k = 1 then ofData? [n] (List.replicate n v.toList).flatten.toArray else none := by
  have trimmed : (⟨trimShape 1 [k], v.toArray, by rw [volume_trimShape]; simp⟩ : Tensor α) =
      ofVector v := ext_data (trimShape_singleton k) rfl
  have apart : ¬ (ofVector v).shape = [n] := fun same => differ (List.cons.inj same).1
  show broadcastTo? [n] ⟨trimShape 1 [k], v.toArray, _⟩ = _
  rw [trimmed, broadcastTo?, if_neg apart]
  show (stretch [k] [n] v.toList).bind _ = _
  rw [stretch_cons, if_neg differ]
  split
  · rfl
  · rfl

/-- A vector with one entry fills any vector. -/
theorem writeOverVector_of_one (n : Nat) (v : Vector α 1) :
    (ofVector v).writeOverVector n = .ok (Vector.replicate n (v.get 0)) := by
  have entries : v.toList = [v.get 0] := by
    refine List.ext_getElem (by simp) fun i hi _ => ?_
    obtain rfl : i = 0 := by simpa using hi
    simp [Vector.get]
  by_cases same : 1 = n
  · subst same
    rw [writeOverVector_ofVector]
    refine congrArg Except.ok (Vector.toList_inj.1 ?_)
    rw [entries, Vector.toList_replicate]
    rfl
  · have size : (List.replicate n (v.get 0)).toArray.size = Shape.volume [n] := by simp
    unfold writeOverVector
    rw [assignTo?_ofVector_of_ne v same, if_pos rfl, entries, List.flatten_replicate_singleton,
      ofData?, dif_pos size, Option.bind_some, toVector?, dif_pos rfl]
    refine congrArg Except.ok (Vector.toList_inj.1 ?_)
    rw [Vector.toList_replicate]
    rfl

/-- Any other vector fits only where it has the right length. -/
theorem eq_or_eq_one_of_writeOverVector {k n : Nat} {v : Vector α k} {w : Vector α n}
    (written : (ofVector v).writeOverVector n = .ok w) : k = n ∨ k = 1 := by
  by_contra neither
  obtain ⟨differ, many⟩ := not_or.1 neither
  unfold writeOverVector at written
  rw [assignTo?_ofVector_of_ne v differ, if_neg many] at written
  cases written

end Tensor

end TrustRegion
