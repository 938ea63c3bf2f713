import VectorGraph.Proofs.Vector.Invariant

/-! What storing and removing a vector do to slots and handles, and that the index stays valid. -/
namespace VectorGraph.VectorIndex

variable {x y : VectorIndex} {id : Id} {slot : Nat} {v : Vec}

/-- What a write to one slot does: the slot gets an owner and a row. -/
structure Puts (x : VectorIndex) (slot : Nat) (owner : Option Id) (v : Vec) (y : VectorIndex) : Prop where
  dimension : y.dimension = x.dimension
  capacity : y.capacity = x.capacity
  buffer : y.components.size = x.components.size
  owners : ∀ i : Nat, y.owners[i]? = if i = slot then some owner else x.owners[i]?
  row : ∀ i, y.row i = if i = slot then v else x.row i

theorem setRow_puts (valid : x.Valid) (within : slot < x.owners.size) (fits : v.size = x.dimension)
    (owner : Option Id) (slots : Std.HashMap Id Nat) :
    x.Puts slot owner v
      (setRow { x with owners := x.owners.setIfInBounds slot owner, slots } slot v) where
  dimension := rfl
  capacity := Array.size_setIfInBounds
  buffer := size_overwrite ..
  owners := by
    intro i
    simp only [setRow, Array.getElem?_setIfInBounds, within, if_true, eq_comm (a := slot)]
  row := row_setRow (x := { x with owners := x.owners.setIfInBounds slot owner, slots }) fits
    (valid.row_within within)

/-- A write keeps an index valid that keeps its handles the inverse of its owners and clears what it vacates. -/
theorem Puts.valid {owner : Option Id} (step : x.Puts slot owner v y) (valid : x.Valid) (named : owner ≠ some .null)
    (cleared : owner = none → v = .replicate x.dimension .zero)
    (inverse : ∀ (id : Id) (i : Nat), y.slots[id]? = some i ↔ y.owners[i]? = some (some id)) : y.Valid where
  buffer := by
    rw [step.buffer, valid.buffer, step.dimension]
    exact congrArg (· * x.dimension) step.capacity.symm
  inverse := inverse
  named := by
    intro i
    rw [step.owners]
    split
    · simpa using named
    · exact valid.named i
  cleared := by
    intro i vacant
    rw [step.owners] at vacant
    rw [step.row, step.dimension]
    split
    · rename_i here
      rw [if_pos here] at vacant
      exact cleared (Option.some.inj vacant)
    · rename_i elsewhere
      rw [if_neg elsewhere] at vacant
      exact valid.cleared i vacant

/-- A handle that keeps its slot keeps its vector, unless the slot was written. -/
theorem Puts.get? {owner : Option Id} (step : x.Puts slot owner v y) (valid : x.Valid)
    (apart : x.owners[slot]? ≠ some (some id)) (same : y.slots[id]? = x.slots[id]?) : y.get? id = x.get? id := by
  rw [VectorIndex.get?, VectorIndex.get?, same]
  apply Option.map_congr
  intro i place
  rw [step.row, if_neg]
  rintro rfl
  exact apart ((valid.inverse id i).mp place)

/-- What storing a vector does. A handle that is new to the index takes the first vacant slot. -/
structure Stores (x : VectorIndex) (id : Id) (slot : Nat) (v : Vec) (y : VectorIndex) : Prop
    extends x.Puts slot (some id) v y where
  named : id ≠ .null
  fits : v.size = x.dimension
  place : x.slots[id]? = some slot ∨ x.slots[id]? = none ∧ x.vacantSlot? = some slot
  slots : ∀ other : Id, y.slots[other]? = if other = id then some slot else x.slots[other]?
  size : y.size = if x.contains id then x.size else x.size + 1

/-- What removing a vector does. -/
structure Removes (x : VectorIndex) (id : Id) (slot : Nat) (y : VectorIndex) : Prop
    extends x.Puts slot none (.replicate x.dimension .zero) y where
  place : x.slots[id]? = some slot
  slots : ∀ other : Id, y.slots[other]? = if other = id then none else x.slots[other]?
  size : y.size + 1 = x.size

theorem Stores.owner (step : x.Stores id slot v y) (valid : x.Valid) {other : Id} (different : other ≠ id) :
    x.owners[slot]? ≠ some (some other) := by
  rcases step.place with own | ⟨_, vacant⟩
  · rw [(valid.inverse id slot).mp own]
    simpa using Ne.symm different
  · rw [vacantSlot?_owner vacant]
    simp

theorem Stores.room (step : x.Stores id slot v y) (valid : x.Valid) : x.contains id ∨ x.size < x.capacity := by
  rcases step.place with own | ⟨_, vacant⟩
  · exact .inl (contains_of_slot own)
  · have bound := valid.size_le
    have notFull : x.size ≠ x.capacity := by
      rw [Ne, ← valid.vacantSlot?_eq_none_iff, vacant]
      simp
    exact .inr (by omega)

theorem Stores.valid (step : x.Stores id slot v y) (valid : x.Valid) : y.Valid := by
  refine step.toPuts.valid valid (by simpa using step.named) (by simp) fun other i => ?_
  rw [step.slots, step.owners]
  by_cases same : other = id
  · subst same
    rw [if_pos rfl]
    split
    · rename_i here
      simp [here]
    · rename_i elsewhere
      rw [← valid.inverse]
      rcases step.place with own | ⟨fresh, _⟩
      · rw [own]
      · simpa [fresh] using Ne.symm elsewhere
  · rw [if_neg same, valid.inverse]
    split
    · rename_i here
      subst here
      simpa [Ne.symm same] using step.owner valid same
    · rfl

theorem Stores.get? (step : x.Stores id slot v y) (valid : x.Valid) (other : Id) :
    y.get? other = if other = id then some v else x.get? other := by
  split
  · rename_i same
    rw [VectorIndex.get?, step.slots, if_pos same, Option.map_some, step.row, if_pos rfl]
  · rename_i different
    exact step.toPuts.get? valid (step.owner valid different) (by rw [step.slots, if_neg different])

theorem Stores.contains (step : x.Stores id slot v y) (valid : x.Valid) (other : Id) :
    y.contains other ↔ other = id ∨ x.contains other := by
  rw [contains_eq_isSome, contains_eq_isSome, step.get? valid]
  split <;> simp_all

theorem Removes.owner (step : x.Removes id slot y) (valid : x.Valid) : x.owners[slot]? = some (some id) :=
  (valid.inverse id slot).mp step.place

theorem Removes.valid (step : x.Removes id slot y) (valid : x.Valid) : y.Valid := by
  refine step.toPuts.valid valid (by simp) (fun _ => rfl) fun other i => ?_
  rw [step.slots, step.owners]
  by_cases same : other = id
  · subst same
    rw [if_pos rfl]
    split
    · simp
    · rename_i elsewhere
      rw [← valid.inverse, step.place]
      simpa using Ne.symm elsewhere
  · rw [if_neg same, valid.inverse]
    split
    · rename_i here
      subst here
      simpa [step.owner valid] using Ne.symm same
    · rfl

theorem Removes.get? (step : x.Removes id slot y) (valid : x.Valid) (other : Id) :
    y.get? other = if other = id then none else x.get? other := by
  split
  · rename_i same
    rw [VectorIndex.get?, step.slots, if_pos same]
    rfl
  · rename_i different
    refine step.toPuts.get? valid ?_ (by rw [step.slots, if_neg different])
    rw [step.owner valid]
    simpa using Ne.symm different

theorem set_of_stored (valid : x.Valid) (named : id ≠ .null) (fits : v.size = x.dimension)
    (own : x.slots[id]? = some slot) :
    x.set id v = (.ok (), x.setRow slot v) ∧ x.Stores id slot v (x.setRow slot v) := by
  have within := valid.lt_size own
  have kept : x.owners.setIfInBounds slot (some id) = x.owners := by
    apply Array.ext_getElem?
    intro i
    rw [Array.getElem?_setIfInBounds, if_pos within]
    split
    · rename_i here
      rw [← here, (valid.inverse id slot).mp own]
    · rfl
  have puts := setRow_puts valid within fits (some id) x.slots
  rw [kept] at puts
  refine ⟨by simp [set, checkDimension, fits, Id.isNull_eq_true_iff, named, own], puts, named, fits, .inl own,
    ?_, ?_⟩
  · intro other
    split
    · rename_i same
      rw [same]
      exact own
    · rfl
  · rw [if_pos (contains_of_slot own)]
    rfl

theorem set_of_vacant (valid : x.Valid) (named : id ≠ .null) (fits : v.size = x.dimension)
    (fresh : x.slots[id]? = none) (vacant : x.vacantSlot? = some slot) :
    ∃ y, x.set id v = (.ok (), y) ∧ x.Stores id slot v y := by
  have within := (Array.getElem?_eq_some_iff.mp (vacantSlot?_owner vacant)).1
  have absent := contains_eq_false_iff.mpr fresh
  refine ⟨_, by simp [set, checkDimension, fits, Id.isNull_eq_true_iff, named, fresh, vacant]; rfl,
    setRow_puts valid within fits .., named, fits, .inr ⟨fresh, vacant⟩, ?_, ?_⟩
  · intro other
    simp only [setRow, Std.HashMap.getElem?_insert, beq_iff_eq, eq_comm (a := id)]
  · rw [if_neg (by simp [absent])]
    exact Std.HashMap.size_insert.trans (if_neg (by simpa [contains] using absent))

theorem set_cases (valid : x.Valid) (id : Id) (v : Vec) :
    (id = .null ∧ x.set id v = (.error .nullId, x)) ∨
    (id ≠ .null ∧ v.size ≠ x.dimension ∧ x.set id v = (.error (.dimensionMismatch x.dimension v.size), x)) ∨
    (id ≠ .null ∧ v.size = x.dimension ∧ x.contains id = false ∧ x.size = x.capacity ∧
      x.set id v = (.error (.capacityExhausted x.capacity), x)) ∨
    ∃ slot y, x.set id v = (.ok (), y) ∧ x.Stores id slot v y := by
  by_cases named : id = .null
  · exact .inl ⟨named, by simp [set, Id.isNull_eq_true_iff, named]⟩
  by_cases fits : v.size = x.dimension
  · cases own : x.slots[id]? with
    | some slot =>
      obtain ⟨stored, step⟩ := set_of_stored valid named fits own
      exact .inr (.inr (.inr ⟨slot, _, stored, step⟩))
    | none =>
      cases vacant : x.vacantSlot? with
      | none =>
        refine .inr (.inr (.inl ⟨named, fits, contains_eq_false_iff.mpr own,
          valid.vacantSlot?_eq_none_iff.mp vacant, ?_⟩))
        simp [set, checkDimension, fits, Id.isNull_eq_true_iff, named, own, vacant]
      | some slot =>
        obtain ⟨y, stored, step⟩ := set_of_vacant valid named fits own vacant
        exact .inr (.inr (.inr ⟨slot, y, stored, step⟩))
  · exact .inr (.inl ⟨named, fits, by simp [set, checkDimension, fits, Id.isNull_eq_true_iff, named]⟩)

theorem set_stores (valid : x.Valid) (id : Id) (v : Vec) :
    (∃ e, x.set id v = (.error e, x)) ∨ ∃ slot y, x.set id v = (.ok (), y) ∧ x.Stores id slot v y := by
  rcases set_cases valid id v with ⟨_, refused⟩ | ⟨_, _, refused⟩ | ⟨_, _, _, _, refused⟩ | stored
  · exact .inl ⟨_, refused⟩
  · exact .inl ⟨_, refused⟩
  · exact .inl ⟨_, refused⟩
  · exact .inr stored

theorem remove_cases (valid : x.Valid) (id : Id) :
    (x.contains id = false ∧ x.remove id = (.error (.notFound id), x)) ∨
      x.contains id ∧ ∃ slot y, x.remove id = (.ok (), y) ∧ x.Removes id slot y := by
  rw [remove]
  cases own : x.slots[id]? with
  | none => exact .inl ⟨contains_eq_false_iff.mpr own, rfl⟩
  | some slot =>
    have live := contains_of_slot own
    refine .inr ⟨live, slot, _, rfl, setRow_puts valid (valid.lt_size own) Array.size_replicate .., own, ?_, ?_⟩
    · intro other
      simp only [setRow, Std.HashMap.getElem?_erase, beq_iff_eq, eq_comm (a := id)]
    · have positive : 0 < x.size := by
        rw [← valid.length_holders]
        exact List.length_pos_of_mem (valid.mem_holders.mpr live)
      have erased : (x.slots.erase id).size = x.slots.size - 1 :=
        Std.HashMap.size_erase.trans (if_pos (by simpa [contains] using live))
      simp only [setRow, size, erased] at *
      omega

/-- What leaves a handle without a vector, whether it had one or not. -/
inductive Forgets (x : VectorIndex) (id : Id) : VectorIndex → Prop where
  | absent : x.contains id = false → Forgets x id x
  | removed {slot : Nat} {y : VectorIndex} : x.Removes id slot y → Forgets x id y

theorem Forgets.valid (step : x.Forgets id y) (valid : x.Valid) : y.Valid := by
  cases step with
  | absent _ => exact valid
  | removed removes => exact removes.valid valid

theorem Forgets.get? (step : x.Forgets id y) (valid : x.Valid) (other : Id) :
    y.get? other = if other = id then none else x.get? other := by
  cases step with
  | absent missing =>
    split
    · rename_i same
      subst same
      simpa [contains_eq_isSome] using missing
    · rfl
  | removed removes => exact removes.get? valid other

theorem Forgets.contains (step : x.Forgets id y) (valid : x.Valid) (other : Id) :
    y.contains other ↔ other ≠ id ∧ x.contains other := by
  rw [contains_eq_isSome, contains_eq_isSome, step.get? valid]
  split <;> simp_all

theorem ensureRoom_outcome (valid : x.Valid) (v : Vec) : x.ensureRoom v =
    if v.size ≠ x.dimension then .error (.dimensionMismatch x.dimension v.size)
    else if x.size = x.capacity then .error (.capacityExhausted x.capacity)
    else .ok () := by
  have bound := valid.size_le
  unfold ensureRoom checkDimension
  by_cases fits : v.size = x.dimension
  · rw [if_pos fits, if_neg (not_not_intro fits)]
    by_cases full : x.size = x.capacity
    · simp [full]
    · have room : x.size < x.capacity := by omega
      simp [full, room]
  · simp [fits]

/-- The reasons to refuse a vector, in the order in which they are looked at. -/
theorem set_outcome (valid : x.Valid) (id : Id) (v : Vec) : (x.set id v).1 =
    if id = .null then .error .nullId
    else if v.size ≠ x.dimension then .error (.dimensionMismatch x.dimension v.size)
    else if ¬ x.contains id ∧ x.size = x.capacity then .error (.capacityExhausted x.capacity)
    else .ok () := by
  rcases set_cases valid id v with
    ⟨null, refused⟩ | ⟨named, wide, refused⟩ | ⟨named, fits, absent, full, refused⟩ | ⟨slot, y, stored, step⟩
  · rw [refused, if_pos null]
  · rw [refused, if_neg named, if_pos wide]
  · rw [refused, if_neg named, if_neg (not_not_intro fits), if_pos ⟨by simp [absent], full⟩]
  · rw [stored, if_neg step.named, if_neg (not_not_intro step.fits), if_neg]
    rintro ⟨absent, full⟩
    rcases step.room valid with live | room
    · exact absent live
    · omega

theorem remove_outcome (valid : x.Valid) (id : Id) :
    (x.remove id).1 = if x.contains id then .ok () else .error (.notFound id) := by
  rcases remove_cases valid id with ⟨absent, refused⟩ | ⟨live, slot, y, removed, step⟩
  · rw [refused, if_neg (by simp [absent])]
  · rw [removed, if_pos live]

end VectorGraph.VectorIndex
