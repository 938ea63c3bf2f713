import VectorGraph.Proofs.Arena.Supply
import VectorGraph.Proofs.Table

/-!
Calls that stop at a step that is not defined: at a place past the end of a buffer, at a number that does not fit its
type, at a counter below zero. A call on an arena or a table comes to no such step as long as what it meets is valid,
and then does what it does without the checks. Lookups and writes come to none in any arena.
-/
namespace VectorGraph

/-- A step that is not defined. -/
inductive Fault where
  /-- A place at or past the end of a buffer. -/
  | place (place size : Nat)
  /-- A slot on the stack of free ones that holds a record. -/
  | occupied (slot : Nat)
  /-- A slot whose number, or the number after it, does not fit 32 bits. -/
  | slot (slot : Nat)
  /-- A number that does not fit 64 bits. -/
  | number (n : Nat)
  /-- A count of zero that is to be lowered. -/
  | count
  /-- A part of a buffer that ends past its end. -/
  | span (stop size : Nat)
  /-- A copy into a place of another length. -/
  | copy (length room : Nat)
  /-- A buffer in chunks of no elements. -/
  | chunks
  /-- An element that is selected by a rank that no element has. -/
  | rank (rank count : Nat)
  /-- An edge list that starts at an edge that is not live. -/
  | head (e : EdgeId)
  /-- A loop that has not ended after as many rounds as there are edges. -/
  | loop
deriving DecidableEq

abbrev Checked := Except Fault

/-- Stops with a fault unless the step is defined. -/
def require (defined : Prop) [Decidable defined] (fault : Fault) : Checked Unit :=
  if defined then pure () else throw fault

theorem require_eq {defined : Prop} [Decidable defined] (holds : defined) (fault : Fault) :
    require defined fault = pure () := if_pos holds

variable {α : Type}

namespace Arena

/-- A handle is decoded and compared with the slot it names, which is indexed only if it is live. -/
def reachChecked (a : Arena α) (id : Id) : Checked Unit :=
  match a.find? id with
  | some (slot, _) => require (slot < a.slots.size) (.place slot a.slots.size)
  | none => pure ()

def getChecked (a : Arena α) (id : Id) : Checked (Option α) := do
  a.reachChecked id
  return a.get? id

def modifyChecked (a : Arena α) (id : Id) (f : α → α) : Checked (Arena α) := do
  a.reachChecked id
  return a.modify id f

def nextSlotChecked (a : Arena α) : Checked (Option (Nat × Nat × Option Nat)) :=
  match a.freed with
  | some slot =>
    match a.slots[slot]? with
    | some (.vacant generation next) => return some (slot, generation, next)
    | some (.live ..) => throw (.occupied slot)
    | none => throw (.place slot a.slots.size)
  | none => return if a.slots.size < a.capacity then some (a.slots.size, 0, none) else none

/-- A slot that was never used is pushed before it is indexed. The handle takes the number after the slot's. -/
def allocateChecked [Inhabited α] (a : Arena α) : Checked (Option (Id × Arena α)) := do
  match ← a.nextSlotChecked with
  | none => return none
  | some (slot, generation, freed) =>
    let generation := nextGeneration generation
    let slots := setSlot a.slots slot (.live generation default)
    require (slot < slots.size) (.place slot slots.size)
    require (a.size + 1 < UInt64.size) (.number (a.size + 1))
    require (slot + 1 < UInt32.size) (.slot slot)
    return some (.ofParts slot generation, { a with slots, freed, size := a.size + 1 })

def freeChecked (a : Arena α) (id : Id) : Checked (Option (Arena α)) := do
  a.reachChecked id
  match a.find? id with
  | none => return none
  | some (slot, _) =>
    require (slot < UInt32.size) (.slot slot)
    require (0 < a.size) .count
    return some { a with
      slots := a.slots.setIfInBounds slot (.vacant id.generation a.freed)
      freed := some slot
      size := a.size - 1 }

variable {a : Arena α}

theorem reachChecked_eq (a : Arena α) (id : Id) : a.reachChecked id = pure () := by
  unfold reachChecked
  split
  · rename_i slot value found
    exact require_eq (Array.getElem?_eq_some_iff.mp (find?_eq_some_iff.mp found).2).1 _
  · rfl

@[simp] theorem getChecked_eq (a : Arena α) (id : Id) : a.getChecked id = pure (a.get? id) := by
  simp [getChecked, reachChecked_eq]

@[simp] theorem modifyChecked_eq (a : Arena α) (id : Id) (f : α → α) :
    a.modifyChecked id f = pure (a.modify id f) := by
  simp [modifyChecked, reachChecked_eq]

theorem nextSlotChecked_eq (valid : a.Valid) : a.nextSlotChecked = pure a.nextSlot? := by
  obtain ⟨free, all_free⟩ := valid.free
  have chain := all_free.chain
  unfold nextSlotChecked nextSlot?
  cases first : a.freed with
  | none => rfl
  | some slot =>
    rw [first] at chain
    cases chain with
    | cons content _ => simp [content]

theorem allocateChecked_eq [Inhabited α] (valid : a.Valid) : a.allocateChecked = pure a.allocate := by
  unfold allocateChecked
  rw [nextSlotChecked_eq valid, pure_bind, allocate]
  cases next : a.nextSlot? with
  | none => rfl
  | some found =>
    obtain ⟨slot, generation, freed⟩ := found
    have small : UInt32.size < UInt64.size := by decide
    have bound := valid.bound
    have count := valid.size_le
    have fits := valid.fits
    have within := valid.nextSlot?_within next
    have indexed := size_setSlot within.2 (.live (nextGeneration generation) (default : α))
    simp only
    rw [require_eq (by omega), require_eq (by omega), require_eq (by omega)]
    rfl

theorem freeChecked_eq (valid : a.Valid) (id : Id) : a.freeChecked id = pure (a.free? id) := by
  unfold freeChecked
  rw [reachChecked_eq, pure_bind, free?]
  cases found : a.find? id with
  | none => rfl
  | some place =>
    obtain ⟨slot, value⟩ := place
    have content := (find?_eq_some_iff.mp found).2
    have within := (Array.getElem?_eq_some_iff.mp content).1
    have bound := valid.bound
    have fits := valid.fits
    simp only
    rw [require_eq (by omega), require_eq (size_pos valid content)]
    rfl

theorem use_valid [Inhabited α] (valid : a.Valid) (u : Use α) : (a.use u).2.Valid := by
  cases u with
  | allocate =>
    rw [use]
    split
    · rename_i allocated
      obtain ⟨slot, step⟩ := allocate_allocates valid allocated
      exact step.valid valid
    · exact valid
  | free id =>
    rw [use]
    split
    · rename_i freed
      obtain ⟨slot, step⟩ := free?_frees freed
      exact step.valid valid
    · exact valid
  | write id value => exact valid.modify id _

/-- However often a slot was taken, also when its generations have started again. -/
theorem after_valid [Inhabited α] (valid : a.Valid) (uses : List (Use α)) : (a.after uses).Valid := by
  induction uses generalizing a with
  | nil => exact valid
  | cons u uses ih => exact ih (use_valid valid u)

/-- A slot on the stack is a used one, and so is the slot below it. -/
theorem Chain.next_mem {slots : Array (Slot α)} {first : Option Nat} {free : List Nat} (chain : Chain slots first free)
    {slot generation next : Nat} (member : slot ∈ free)
    (content : slots[slot]? = some (.vacant generation (some next))) : next ∈ free := by
  induction chain with
  | nil => simp at member
  | cons here rest ih =>
    rcases List.mem_cons.mp member with rfl | later
    · obtain rfl : _ = some next := (Slot.vacant.inj (Option.some.inj (here.symm.trans content))).2
      cases rest with
      | cons _ _ => simp
    · exact .tail _ (ih later)

theorem Valid.freed_lt (valid : a.Valid) {slot : Nat} (first : a.freed = some slot) : slot < a.slots.size := by
  obtain ⟨free, all_free⟩ := valid.free
  have chain := all_free.chain
  rw [first] at chain
  cases chain with
  | cons content _ => exact (Array.getElem?_eq_some_iff.mp content).1

theorem Valid.next_lt (valid : a.Valid) {slot generation next : Nat}
    (content : a.slots[slot]? = some (.vacant generation (some next))) : next < a.slots.size := by
  obtain ⟨free, all_free⟩ := valid.free
  have member := (all_free.vacant slot).mpr ⟨_, _, content⟩
  exact all_free.lt_size (all_free.chain.next_mem member content)

/-- No call on the arena faults. The slot freed last and the slots below it on the stack are used ones. -/
structure Safe [Inhabited α] (a : Arena α) : Prop where
  first : ∀ slot, a.freed = some slot → slot < a.slots.size
  next : ∀ slot generation next : Nat, a.slots[slot]? = some (.vacant generation (some next)) → next < a.slots.size
  allocate : a.allocateChecked = .ok a.allocate
  free : ∀ id, a.freeChecked id = .ok (a.free? id)
  get : ∀ id, a.getChecked id = .ok (a.get? id)
  modify : ∀ id f, a.modifyChecked id f = .ok (a.modify id f)

theorem Valid.safe [Inhabited α] (valid : a.Valid) : a.Safe where
  first := fun _ freed => valid.freed_lt freed
  next := fun _ _ _ content => valid.next_lt content
  allocate := allocateChecked_eq valid
  free := freeChecked_eq valid
  get := getChecked_eq a
  modify := modifyChecked_eq a

end Arena

variable {kind : Kind}

/-- A handle is searched for, and taken out at the place where it was found. -/
def CreationOrder.eraseChecked (o : CreationOrder kind) (ref : Ref kind) : Checked (CreationOrder kind) := do
  match o.refs.idxOf? ref with
  | some place => require (place < o.refs.size) (.place place o.refs.size)
  | none => pure ()
  return o.erase ref

@[simp] theorem CreationOrder.eraseChecked_eq (o : CreationOrder kind) (ref : Ref kind) :
    o.eraseChecked ref = pure (o.erase ref) := by
  unfold eraseChecked
  split
  · rename_i place found
    rw [Array.idxOf?_eq_map_finIdxOf?_val] at found
    obtain ⟨i, -, rfl⟩ := Option.map_eq_some_iff.mp found
    rw [require_eq i.isLt]
    rfl
  · rfl

namespace Table

def getChecked (t : Table kind α) (ref : Ref kind) : Checked (Option α) := t.records.getChecked ref.id

def modifyChecked (t : Table kind α) (ref : Ref kind) (f : α → α) : Checked (Table kind α) :=
  return { t with records := ← t.records.modifyChecked ref.id f }

def allocateChecked [Inhabited α] (t : Table kind α) (make : Ref kind → α) :
    Checked (Option (Ref kind × Table kind α)) := do
  match ← t.records.allocateChecked with
  | some (id, records) => return some (⟨id⟩, { t with records := records.set id (make ⟨id⟩) })
  | none => return none

def releaseChecked (t : Table kind α) (ref : Ref kind) : Checked (Option (Table kind α)) := do
  match ← t.records.freeChecked ref.id with
  | some records => return some { t with records }
  | none => return none

def forgetChecked (t : Table kind α) (ref : Ref kind) : Checked (Table kind α) :=
  return { t with order := ← t.order.eraseChecked ref }

def insertChecked [Inhabited α] (t : Table kind α) (make : Ref kind → α) :
    Checked (Option (Ref kind) × Table kind α) := do
  match ← t.allocateChecked make with
  | some (ref, stored) =>
    match stored.record? ref with
    | some recorded => return (some ref, recorded)
    | none => return (none, (← stored.releaseChecked ref).getD stored)
  | none => return (none, t)

def eraseChecked (t : Table kind α) (ref : Ref kind) : Checked (Option (Table kind α)) := do
  match ← t.releaseChecked ref with
  | some t => return some (← t.forgetChecked ref)
  | none => return none

variable {t : Table kind α}

@[simp] theorem getChecked_eq (t : Table kind α) (ref : Ref kind) : t.getChecked ref = pure (t.get? ref) :=
  Arena.getChecked_eq ..

@[simp] theorem modifyChecked_eq (t : Table kind α) (ref : Ref kind) (f : α → α) :
    t.modifyChecked ref f = pure (t.modify ref f) := by
  simp [modifyChecked, modify]

@[simp] theorem forgetChecked_eq (t : Table kind α) (ref : Ref kind) :
    t.forgetChecked ref = pure (t.forget ref) := by
  simp [forgetChecked, forget]

theorem allocateChecked_eq [Inhabited α] (valid : t.records.Valid) (make : Ref kind → α) :
    t.allocateChecked make = pure (t.allocate? make) := by
  unfold allocateChecked allocate?
  rw [Arena.allocateChecked_eq valid, pure_bind]
  cases t.records.allocate <;> rfl

theorem releaseChecked_eq (valid : t.records.Valid) (ref : Ref kind) :
    t.releaseChecked ref = pure (t.release? ref) := by
  unfold releaseChecked release?
  rw [Arena.freeChecked_eq valid, pure_bind]
  cases t.records.free? ref.id <;> rfl

theorem eraseChecked_eq (valid : t.records.Valid) (ref : Ref kind) : t.eraseChecked ref = pure (t.erase? ref) := by
  unfold eraseChecked erase?
  rw [releaseChecked_eq valid, pure_bind]
  cases t.release? ref <;> simp

/-- A table that gives out a record has room for it in the creation order, so that no record is freed again. -/
theorem insertChecked_eq [Inhabited α] (valid : t.Valid) (make : Ref kind → α) :
    t.insertChecked make = pure (t.insert make) := by
  unfold insertChecked insert
  rw [allocateChecked_eq valid.records, pure_bind]
  cases stored : t.allocate? make with
  | none => rfl
  | some issue =>
    obtain ⟨ref, u⟩ := issue
    have same : u.Similar id u := .refl u
    obtain ⟨v, recorded, _⟩ := (allocate?_stores valid stored).record? same
    simp only [recorded]

end Table

end VectorGraph
