import Mathlib.Data.List.Nodup
import Mathlib.Data.List.ReduceOption
import VectorGraph.Proofs.Id
import VectorGraph.Vector.Index

/-! The invariant of a vector index. Its handles and the owners of its slots are each other's inverse, so each
handle has one row, and the index is full exactly when no slot is vacant. -/
namespace VectorGraph.VectorIndex

variable {x y : VectorIndex} {id : Id} {slot : Nat} {v : Vec}

theorem getElem?_overwrite (buffer : Array Binary32) (place : Nat) (values : List Binary32) (i : Nat) :
    (overwrite buffer place values)[i]? =
      if place ≤ i ∧ i < place + values.length ∧ i < buffer.size then values[i - place]? else buffer[i]? := by
  induction values generalizing buffer place with
  | nil =>
    have outside : ¬ (place ≤ i ∧ i < place + 0 ∧ i < buffer.size) := by omega
    simp only [overwrite, List.length_nil, if_neg outside]
  | cons value values ih =>
    rw [overwrite, ih, Array.getElem?_setIfInBounds, Array.size_setIfInBounds, List.length_cons]
    by_cases here : place = i
    · subst here
      by_cases inside : place < buffer.size
      · rw [if_neg (by omega), if_pos rfl, if_pos inside, if_pos (by omega), Nat.sub_self, List.getElem?_cons_zero]
      · simp [inside]
    · by_cases inside : place + 1 ≤ i ∧ i < place + 1 + values.length ∧ i < buffer.size
      · obtain ⟨k, rfl⟩ : ∃ k, i = place + 1 + k := ⟨i - (place + 1), by omega⟩
        rw [if_pos inside, if_pos (by omega), Nat.add_sub_cancel_left, Nat.add_assoc, Nat.add_sub_cancel_left,
          Nat.add_comm 1, List.getElem?_cons_succ]
      · rw [if_neg inside, if_neg here, if_neg (by omega)]

theorem size_overwrite (buffer : Array Binary32) (place : Nat) (values : List Binary32) :
    (overwrite buffer place values).size = buffer.size := by
  induction values generalizing buffer place with
  | nil => rfl
  | cons value values ih => rw [overwrite, ih, Array.size_setIfInBounds]

theorem getElem?_row (x : VectorIndex) (slot i : Nat) :
    (x.row slot)[i]? = if i < x.dimension then x.components[slot * x.dimension + i]? else none := by
  rw [row, Array.getElem?_extract]
  by_cases inside : i < x.dimension
  · by_cases present : slot * x.dimension + i < x.components.size
    · rw [if_pos (by omega), if_pos inside]
    · rw [if_neg (by omega), if_pos inside, Array.getElem?_eq_none (by omega)]
  · rw [if_neg (by omega), if_neg inside]

/-- Places of different rows are apart. -/
theorem row_place_ne {dimension other i j : Nat} (different : other ≠ slot) (left : i < dimension)
    (right : j < dimension) : other * dimension + i ≠ slot * dimension + j := by
  rcases Nat.lt_or_gt_of_ne different with before | after
  · have := Nat.mul_le_mul_right dimension (Nat.succ_le_of_lt before)
    rw [Nat.succ_mul] at this
    omega
  · have := Nat.mul_le_mul_right dimension (Nat.succ_le_of_lt after)
    rw [Nat.succ_mul] at this
    omega

@[simp] theorem dimension_setRow (x : VectorIndex) (slot : Nat) (v : Vec) :
    (x.setRow slot v).dimension = x.dimension := rfl

@[simp] theorem components_setRow (x : VectorIndex) (slot : Nat) (v : Vec) :
    (x.setRow slot v).components = overwrite x.components (slot * x.dimension) v.toList := rfl

theorem row_setRow (fits : v.size = x.dimension)
    (within : slot * x.dimension + x.dimension ≤ x.components.size) (other : Nat) :
    (x.setRow slot v).row other = if other = slot then v else x.row other := by
  apply Array.ext_getElem?
  intro i
  rw [getElem?_row, dimension_setRow, components_setRow, getElem?_overwrite, Array.length_toList, fits]
  by_cases inside : i < x.dimension
  · rw [if_pos inside]
    by_cases here : other = slot
    · subst here
      rw [if_pos rfl, if_pos (by omega), Nat.add_sub_cancel_left, Array.getElem?_toList]
    · rw [if_neg here, getElem?_row, if_pos inside, if_neg]
      rintro ⟨low, high, _⟩
      have apart := row_place_ne (j := other * x.dimension + i - slot * x.dimension) here inside (by omega)
      omega
  · rw [if_neg inside]
    split
    · exact (Array.getElem?_eq_none (by omega)).symm
    · rw [getElem?_row, if_neg inside]

structure Valid (x : VectorIndex) : Prop where
  buffer : x.components.size = x.owners.size * x.dimension
  inverse : ∀ (id : Id) (slot : Nat), x.slots[id]? = some slot ↔ x.owners[slot]? = some (some id)
  named : ∀ slot : Nat, x.owners[slot]? ≠ some (some .null)
  cleared : ∀ slot : Nat, x.owners[slot]? = some none → x.row slot = .replicate x.dimension .zero

theorem contains_eq_isSome (x : VectorIndex) (id : Id) : x.contains id = (x.get? id).isSome := by
  rw [contains, get?, Option.isSome_map, Std.HashMap.contains_eq_isSome_getElem?]

theorem contains_eq_false_iff : x.contains id = false ↔ x.slots[id]? = none := by
  rw [contains, Std.HashMap.contains_eq_isSome_getElem?, Option.isSome_eq_false_iff, Option.isNone_iff_eq_none]

theorem contains_of_slot (stored : x.slots[id]? = some slot) : x.contains id := by
  rw [contains, Std.HashMap.contains_eq_isSome_getElem?, stored]
  rfl

theorem Valid.row_within (valid : x.Valid) (within : slot < x.owners.size) :
    slot * x.dimension + x.dimension ≤ x.components.size := by
  rw [valid.buffer, ← Nat.succ_mul]
  exact Nat.mul_le_mul_right _ within

theorem Valid.lt_size (valid : x.Valid) (stored : x.slots[id]? = some slot) : slot < x.owners.size :=
  (Array.getElem?_eq_some_iff.mp ((valid.inverse id slot).mp stored)).1

theorem Valid.size_get? (valid : x.Valid) (stored : x.get? id = some v) : v.size = x.dimension := by
  obtain ⟨slot, place, rfl⟩ := Option.map_eq_some_iff.mp stored
  have within := valid.row_within (valid.lt_size place)
  simp only [row, Array.size_extract]
  omega

def holders (x : VectorIndex) : List Id := x.owners.toList.reduceOption

theorem Valid.mem_holders (valid : x.Valid) : id ∈ x.holders ↔ x.contains id := by
  rw [holders, List.reduceOption_mem_iff, List.mem_iff_getElem?, contains, Std.HashMap.contains_eq_isSome_getElem?,
    Option.isSome_iff_exists]
  simp only [Array.getElem?_toList, valid.inverse]

/-- No handle owns two slots. -/
theorem Valid.nodup_holders (valid : x.Valid) : x.holders.Nodup := by
  refine List.pairwise_filterMap.mpr (List.pairwise_iff_getElem.mpr ?_)
  rintro i j below above before first left second right rfl
  have one : x.owners[i]? = some (some first) := Array.getElem?_eq_some_iff.mpr ⟨by simpa using below, left⟩
  have two : x.owners[j]? = some (some first) := Array.getElem?_eq_some_iff.mpr ⟨by simpa using above, right⟩
  rw [← valid.inverse] at one two
  have := Option.some.inj (one.symm.trans two)
  omega

theorem Valid.length_holders (valid : x.Valid) : x.holders.length = x.size := by
  have same : x.holders.Perm x.slots.keys := by
    refine (List.perm_ext_iff_of_nodup valid.nodup_holders Std.HashMap.nodup_keys).mpr fun id => ?_
    rw [valid.mem_holders, Std.HashMap.mem_keys, contains, Std.HashMap.contains_iff_mem]
  rw [same.length_eq, Std.HashMap.length_keys, size]

theorem Valid.size_le (valid : x.Valid) : x.size ≤ x.capacity := by
  rw [← valid.length_holders, holders, capacity, ← Array.length_toList]
  exact List.reduceOption_length_le _

/-- A slot is vacant as long as fewer vectors are stored than there are slots. -/
theorem Valid.vacantSlot?_eq_none_iff (valid : x.Valid) : x.vacantSlot? = none ↔ x.size = x.capacity := by
  rw [← valid.length_holders, holders, capacity, ← Array.length_toList, List.reduceOption_length_eq_iff,
    vacantSlot?, Array.findIdx?_eq_none_iff]
  simp

theorem vacantSlot?_owner (vacant : x.vacantSlot? = some slot) : x.owners[slot]? = some none := by
  obtain ⟨within, isNone, _⟩ := Array.findIdx?_eq_some_iff_getElem.mp vacant
  exact Array.getElem?_eq_some_iff.mpr ⟨within, by simpa using isNone⟩

theorem map_fst_entries (x : VectorIndex) : x.entries.map Prod.fst = x.holders := by
  have owners : x.holders = (x.owners.toList.zipIdx.map Prod.fst).reduceOption := by rw [List.zipIdx_map_fst, holders]
  rw [owners, entries, List.map_filterMap, List.reduceOption, List.filterMap_map]
  apply List.filterMap_congr
  rintro ⟨_ | id, slot⟩ _ <;> rfl

theorem Valid.mem_entries (valid : x.Valid) : (id, v) ∈ x.entries ↔ x.get? id = some v := by
  simp only [entries, List.mem_filterMap, Prod.exists, List.mk_mem_zipIdx_iff_getElem?, get?,
    Option.map_eq_some_iff, valid.inverse, Prod.mk.injEq, Array.getElem?_toList]
  constructor
  · rintro ⟨_, slot, owner, _, rfl, rfl, rfl⟩
    exact ⟨slot, owner, rfl⟩
  · rintro ⟨slot, owner, rfl⟩
    exact ⟨_, slot, owner, _, rfl, rfl, rfl⟩

theorem Valid.nodup_entries (valid : x.Valid) : (x.entries.map Prod.fst).Nodup := by
  rw [map_fst_entries]
  exact valid.nodup_holders

theorem Valid.length_entries (valid : x.Valid) : x.entries.length = x.size := by
  rw [← valid.length_holders, ← map_fst_entries, List.length_map]

def fresh (dimension capacity : Nat) : VectorIndex :=
  ⟨dimension, .replicate capacity none, .replicate (capacity * dimension) .zero, ∅⟩

theorem create_eq_ok_iff {dimension capacity : Nat} {allocator : Allocator} :
    create dimension capacity allocator = .ok x ↔
      (0 < dimension ∧ 0 < capacity ∧ capacity * dimension < UInt64.size ∧ allocator.reserves 0 (8 * capacity) ∧
        allocator.reserves (8 * capacity) (4 * (capacity * dimension))) ∧ x = fresh dimension capacity := by
  unfold create
  split
  · simp_all
  · split
    · simp_all
    · split
      · simp
        omega
      · split
        · rename_i granted
          obtain ⟨handles, components⟩ := Bool.and_eq_true_iff.mp granted
          simp only [Except.ok.injEq, eq_comm (b := x), fresh]
          constructor
          · intro same
            exact ⟨⟨by omega, by omega, by omega, handles, components⟩, same⟩
          · exact And.right
        · simp_all

@[simp] theorem fresh_get? (dimension capacity : Nat) (id : Id) : (fresh dimension capacity).get? id = none := by
  simp [get?, fresh]

theorem fresh_valid (dimension capacity : Nat) : (fresh dimension capacity).Valid where
  buffer := by simp [fresh]
  inverse := by
    intro id slot
    simp [fresh, Array.getElem?_replicate]
  named := by
    intro slot
    simp [fresh, Array.getElem?_replicate]
  cleared := by
    intro slot vacant
    have within : slot < capacity := by simpa [fresh] using (Array.getElem?_eq_some_iff.mp vacant).1
    apply Array.ext_getElem?
    intro i
    have inside := Nat.mul_le_mul_right dimension (Nat.succ_le_of_lt within)
    rw [Nat.succ_mul] at inside
    rw [getElem?_row]
    simp only [fresh, Array.getElem?_replicate]
    split
    · rw [if_pos (by omega)]
    · rfl

end VectorGraph.VectorIndex
