import VectorGraph.Id

/-! Handles are told apart by their slot and generation, and arenas only build handles that give both back. -/
namespace VectorGraph.Id

variable {slot generation : Nat}

theorem raw_eq (id : Id) :
    id.raw.toNat = id.generation * UInt32.size + id.raw.toNat % UInt32.size := by
  simp only [Id.generation]
  rw [Nat.mul_comm]
  exact (Nat.div_add_mod ..).symm

theorem slot?_eq_some_iff {id : Id} : id.slot? = some slot ↔ id.raw.toNat % UInt32.size = slot + 1 := by
  unfold slot?
  split <;> simp_all
  omega

theorem generation_lt (id : Id) : id.generation < UInt32.size := by
  have := id.raw.toNat_lt
  simp only [Id.generation, UInt32.size] at *
  omega

/-- No bit is lost where slot and generation fit their halves. -/
theorem raw_ofParts (slots : slot + 1 < UInt32.size) (generations : generation < UInt32.size) :
    (ofParts slot generation).raw.toNat = generation * UInt32.size + (slot + 1) := by
  simp only [ofParts, UInt64.toNat_ofNat', UInt32.size] at *
  apply Nat.mod_eq_of_lt
  omega

theorem slot?_ofParts (slots : slot + 1 < UInt32.size) (generations : generation < UInt32.size) :
    (ofParts slot generation).slot? = some slot := by
  rw [slot?_eq_some_iff, raw_ofParts slots generations, Nat.mul_comm, Nat.mul_add_mod,
    Nat.mod_eq_of_lt slots]

theorem generation_ofParts (slots : slot + 1 < UInt32.size) (generations : generation < UInt32.size) :
    (ofParts slot generation).generation = generation := by
  have raw := raw_ofParts slots generations
  simp only [Id.generation, raw, UInt32.size] at *
  omega

theorem eq_of_raw {a b : Id} (same : a.raw.toNat = b.raw.toNat) : a = b := by
  cases a; cases b
  exact congrArg Id.mk (UInt64.toNat_inj.mp same)

theorem eq_of_parts {a b : Id} (left : a.slot? = some slot) (right : b.slot? = some slot)
    (same : a.generation = b.generation) : a = b := by
  apply eq_of_raw
  rw [raw_eq a, raw_eq b, slot?_eq_some_iff.mp left, slot?_eq_some_iff.mp right, same]

theorem isNull_eq_true_iff {id : Id} : id.isNull = true ↔ id = null := by
  cases id
  simp [isNull, null]

theorem ne_null_of_slot? {id : Id} (at_slot : id.slot? = some slot) : id ≠ null := by
  rintro rfl
  simp [slot?, null] at at_slot

end VectorGraph.Id
