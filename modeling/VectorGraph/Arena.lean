import VectorGraph.Id

/-!
A bounded table of records under generation-tagged handles. A removed record leaves its slot to the next
allocation, last freed first; a slot that no record has used is taken only when none was freed. Each
allocation raises the slot's generation, and lookups compare it with the handle's.
-/
namespace VectorGraph

inductive ArenaError where
  | zeroCapacity
  | capacityOverflow (capacity : Nat)
deriving DecidableEq

def ArenaError.message : ArenaError → String
  | zeroCapacity => "arena capacity must be greater than zero"
  | capacityOverflow capacity =>
    "arena capacity " ++ toString capacity ++ " exceeds the 32-bit slot index space"

/-- A vacant slot remembers the generation of its last record and the slot freed before it. -/
inductive Slot (α : Type) where
  | vacant (generation : Nat) (next : Option Nat)
  | live (generation : Nat) (value : α)
deriving DecidableEq

/-- Only the slots used so far are kept, with the one freed last and the number of live records. -/
structure Arena (α : Type) where
  capacity : Nat
  slots : Array (Slot α)
  freed : Option Nat
  size : Nat
deriving DecidableEq

namespace Arena

variable {α : Type}

/-- Slot numbers and the number of slots fit 32 bits. -/
def create (capacity : Nat) : Except ArenaError (Arena α) :=
  if capacity = 0 then .error .zeroCapacity
  else if UInt32.size ≤ capacity then .error (.capacityOverflow capacity)
  else .ok ⟨capacity, #[], none, 0⟩

/-- Generations run from 1 to `2 ^ 32 - 1` and then start again at 1; 0 marks a slot never used. -/
def nextGeneration (generation : Nat) : Nat :=
  if generation + 1 < UInt32.size then generation + 1 else 1

/-- The slot of the next record, with the generation it has now and the slots left free after it. -/
def nextSlot? (a : Arena α) : Option (Nat × Nat × Option Nat) :=
  match a.freed with
  | some slot =>
    match a.slots[slot]? with
    | some (.vacant generation next) => some (slot, generation, next)
    | _ => none
  | none => if a.slots.size < a.capacity then some (a.slots.size, 0, none) else none

/-- Writes a used slot, or the first one that was never used. -/
def setSlot (slots : Array (Slot α)) (slot : Nat) (content : Slot α) : Array (Slot α) :=
  if slot < slots.size then slots.setIfInBounds slot content else slots.push content

/-- A new default record; none where every slot is live. -/
def allocate [Inhabited α] (a : Arena α) : Option (Id × Arena α) :=
  match a.nextSlot? with
  | some (slot, generation, freed) =>
    let generation := nextGeneration generation
    some (.ofParts slot generation,
      { a with slots := setSlot a.slots slot (.live generation default), freed, size := a.size + 1 })
  | none => none

/-- The slot and record of a live handle. -/
def find? (a : Arena α) (id : Id) : Option (Nat × α) :=
  match id.slot? with
  | some slot =>
    match a.slots[slot]? with
    | some (.live generation value) =>
      if generation = id.generation then some (slot, value) else none
    | _ => none
  | none => none

def get? (a : Arena α) (id : Id) : Option α := (a.find? id).map (·.2)

def contains (a : Arena α) (id : Id) : Bool := (a.find? id).isSome

def modify (a : Arena α) (id : Id) (f : α → α) : Arena α :=
  match a.find? id with
  | some (slot, value) => { a with slots := a.slots.setIfInBounds slot (.live id.generation (f value)) }
  | none => a

def set (a : Arena α) (id : Id) (value : α) : Arena α := a.modify id fun _ => value

def free? (a : Arena α) (id : Id) : Option (Arena α) :=
  match a.find? id with
  | some (slot, _) =>
    some { a with
      slots := a.slots.setIfInBounds slot (.vacant id.generation a.freed)
      freed := some slot
      size := a.size - 1 }
  | none => none

def isEmpty (a : Arena α) : Bool := a.size == 0

end Arena

end VectorGraph
