import VectorGraph.Session.Vector
import VectorGraph.Proofs.Session
import VectorGraph.Proofs.Vector.Steps

/-! An index with more slots answers alike as long as the smaller one finds a vacant one. Its rows begin with the rows
of the smaller one, and the first vacant slot is the same in both. -/
namespace VectorGraph.VectorIndex

variable {x : VectorIndex} {slot capacity : Nat} {v : Vec}

/-- The same index with vacant slots after its own, up to a number of slots. -/
def resize (x : VectorIndex) (capacity : Nat) : VectorIndex :=
  { x with
    owners := x.owners ++ Array.replicate (capacity - x.capacity) none
    components := x.components ++ Array.replicate ((capacity - x.capacity) * x.dimension) .zero }

theorem capacity_resize (more : x.capacity ≤ capacity) : (x.resize capacity).capacity = capacity := by
  have size : (x.resize capacity).capacity = x.capacity + (capacity - x.capacity) := by
    simp [resize, VectorIndex.capacity]
  omega

theorem fresh_resize {dimension small large : Nat} (more : small ≤ large) :
    (fresh dimension small).resize large = fresh dimension large := by
  obtain ⟨extra, rfl⟩ := Nat.exists_eq_add_of_le more
  simp [resize, fresh, VectorIndex.capacity, Array.replicate_append_replicate, Nat.add_mul]

theorem overwrite_append (buffer rest : Array Binary32) (place : Nat) (values : List Binary32)
    (within : place + values.length ≤ buffer.size) :
    overwrite (buffer ++ rest) place values = overwrite buffer place values ++ rest := by
  induction values generalizing buffer place with
  | nil => rfl
  | cons value values ih =>
    rw [List.length_cons] at within
    have first : (buffer ++ rest).setIfInBounds place value = buffer.setIfInBounds place value ++ rest :=
      Array.setIfInBounds_append_left (by omega)
    rw [overwrite, first, ih _ _ (by rw [Array.size_setIfInBounds]; omega), overwrite]

theorem setRow_resize (within : slot * x.dimension + v.size ≤ x.components.size) :
    (x.resize capacity).setRow slot v = (x.setRow slot v).resize capacity := by
  have written := overwrite_append x.components (.replicate ((capacity - x.capacity) * x.dimension) .zero)
    (slot * x.dimension) v.toList within
  simp only [setRow, resize, written]
  rfl

/-- Slots keep their owners apart from the one that gets another. -/
theorem assign_resize (within : slot < x.capacity) (owner : Option Id) (slots : Std.HashMap Id Nat) :
    ({ x.resize capacity with owners := (x.resize capacity).owners.setIfInBounds slot owner, slots } : VectorIndex) =
      ({ x with owners := x.owners.setIfInBounds slot owner, slots } : VectorIndex).resize capacity := by
  simp [resize, VectorIndex.capacity, Array.setIfInBounds_append_left within]

theorem vacantSlot?_resize (vacant : x.vacantSlot? = some slot) : (x.resize capacity).vacantSlot? = some slot := by
  rw [vacantSlot?] at vacant
  simp [vacantSlot?, resize, Array.findIdx?_append, vacant]

namespace Valid

variable (valid : x.Valid)
include valid

theorem row_resize (within : slot < x.capacity) : (x.resize capacity).row slot = x.row slot := by
  have inside := valid.row_within within
  apply Array.ext_getElem?
  intro i
  have dimension : (x.resize capacity).dimension = x.dimension := rfl
  rw [getElem?_row, getElem?_row, dimension]
  split
  · exact Array.getElem?_append_left (by omega)
  · rfl

theorem get?_resize : (x.resize capacity).get? = x.get? := by
  funext id
  exact Option.map_congr fun _ place => valid.row_resize (valid.lt_size place)

theorem write_resize (within : slot < x.capacity) (fits : v.size = x.dimension) (owner : Option Id)
    (slots : Std.HashMap Id Nat) :
    setRow { x.resize capacity with owners := (x.resize capacity).owners.setIfInBounds slot owner, slots } slot v =
      (setRow { x with owners := x.owners.setIfInBounds slot owner, slots } slot v).resize capacity := by
  rw [assign_resize within, setRow_resize]
  rw [fits]
  exact valid.row_within within

theorem entries_resize : (x.resize capacity).entries = x.entries := by
  have owners : (x.resize capacity).owners.toList =
      x.owners.toList ++ List.replicate (capacity - x.capacity) none := by simp [resize]
  have vacant (select : Option Id × Nat → Option (Id × Vec)) (vacant : ∀ slot, select (none, slot) = none) :
      ((List.replicate (capacity - x.capacity) none).zipIdx (0 + x.owners.toList.length)).filterMap select = [] := by
    refine List.filterMap_eq_nil_iff.mpr ?_
    rintro ⟨owner, slot⟩ member
    obtain rfl : owner = none := List.eq_of_mem_replicate (List.fst_mem_of_mem_zipIdx member)
    exact vacant slot
  rw [entries, owners, List.zipIdx_append, List.filterMap_append, vacant _ fun _ => rfl, List.append_nil, entries]
  refine List.filterMap_congr ?_
  rintro ⟨_ | id, slot⟩ member
  · rfl
  · have owner := List.mk_mem_zipIdx_iff_getElem?.mp member
    rw [Array.getElem?_toList] at owner
    have within : slot < x.capacity := (Array.getElem?_eq_some_iff.mp owner).1
    simp only [Option.map_some, valid.row_resize within]

theorem set_resize (key : Id) (fits : (x.set key v).1 ≠ .error (.capacityExhausted x.capacity)) :
    (x.resize capacity).set key v = (x.set key v).map id (·.resize capacity) := by
  have dimension : (x.resize capacity).checkDimension v = x.checkDimension v := rfl
  have slots : (x.resize capacity).slots = x.slots := rfl
  unfold set at *
  rw [dimension, slots]
  split
  · rfl
  · rename_i named
    cases wide : x.checkDimension v with
    | error e => rfl
    | ok =>
      have size : v.size = x.dimension := by simpa [checkDimension] using wide
      cases own : x.slots[key]? with
      | some slot =>
        have inside : slot * x.dimension + v.size ≤ x.components.size := by
          rw [size]
          exact valid.row_within (valid.lt_size own)
        exact Prod.ext rfl (setRow_resize inside)
      | none =>
        cases vacant : x.vacantSlot? with
        | none => simp [named, wide, own, vacant] at fits
        | some slot =>
          have within := (Array.getElem?_eq_some_iff.mp (vacantSlot?_owner vacant)).1
          rw [vacantSlot?_resize vacant]
          exact Prod.ext rfl (valid.write_resize within size ..)

theorem remove_resize (key : Id) :
    (x.resize capacity).remove key = (x.remove key).map id (·.resize capacity) := by
  have slots : (x.resize capacity).slots = x.slots := rfl
  unfold remove
  rw [slots]
  cases own : x.slots[key]? with
  | none => rfl
  | some slot =>
    exact Prod.ext rfl (valid.write_resize (valid.lt_size own) Array.size_replicate ..)

theorem nearest_resize : (x.resize capacity).nearest = x.nearest := by
  funext query k
  rw [nearest, nearest, candidates, valid.entries_resize]
  rfl

end Valid

theorem ensureRoom_resize (more : x.capacity ≤ capacity)
    (fits : x.ensureRoom v ≠ .error (.capacityExhausted x.capacity)) :
    (x.resize capacity).ensureRoom v = x.ensureRoom v := by
  have dimension : (x.resize capacity).checkDimension v = x.checkDimension v := rfl
  unfold ensureRoom at *
  rw [dimension, capacity_resize more]
  cases wide : x.checkDimension v with
  | error e => rfl
  | ok =>
    by_cases room : x.size < x.capacity
    · have still : (x.resize capacity).size < capacity := Nat.lt_of_lt_of_le room more
      simp [room, still]
    · simp [wide, room] at fits

theorem Valid.contents_resize (valid : x.Valid) (more : x.capacity ≤ capacity) :
    (x.resize capacity).contents = ⟨{ x.info with capacity }, x.entries⟩ := by
  simp only [contents, info, valid.entries_resize, capacity_resize more]
  rfl

/-- The same answer with another number of slots. -/
def Reply.resize (capacity : Nat) : Reply → Reply
  | .info i => .info { i with capacity }
  | .contents c => .contents { c with info := { c.info with capacity } }
  | reply => reply

theorem Valid.answer_resize (valid : x.Valid) (more : x.capacity ≤ capacity) (q : Request)
    (fits : (x.answer q).1 ≠ .error (.capacityExhausted x.capacity)) :
    (x.resize capacity).answer q = (x.answer q).map (·.map (Reply.resize capacity)) (·.resize capacity) := by
  cases q with
  | set id v =>
    simp only [answer, valid.set_resize id (Session.ne_error_of_map fits)]
    rcases x.set id v with ⟨_ | _, y⟩ <;> rfl
  | remove id =>
    simp only [answer, valid.remove_resize]
    rcases x.remove id with ⟨_ | _, y⟩ <;> rfl
  | ensureRoom v =>
    simp only [answer, ensureRoom_resize more (Session.ne_error_of_map fits)]
    cases x.ensureRoom v <;> rfl
  | nearest query k =>
    simp only [answer, valid.nearest_resize]
    cases x.nearest query k <;> rfl
  | get id =>
    simp only [answer, valid.get?_resize]
    rfl
  | entries =>
    simp only [answer, valid.entries_resize]
    rfl
  | info =>
    simp only [answer, info, capacity_resize more]
    rfl
  | contents =>
    simp only [answer, valid.contents_resize more]
    rfl
  | contains => rfl

end VectorGraph.VectorIndex
