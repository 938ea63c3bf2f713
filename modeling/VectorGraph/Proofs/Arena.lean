import VectorGraph.Arena
import VectorGraph.Proofs.Id

/-! What holds of every arena, and what its operations do to the records behind handles. The free slots
form one chain from the slot freed last, and it meets each vacant slot once. -/
namespace VectorGraph

variable {α : Type}

def Slot.generation : Slot α → Nat
  | .vacant generation _ => generation
  | .live generation _ => generation

namespace Arena

/-- The slots met from one free slot on, each naming the next. -/
inductive Chain (slots : Array (Slot α)) : Option Nat → List Nat → Prop where
  | nil : Chain slots none []
  | cons {slot generation : Nat} {next : Option Nat} {rest : List Nat} :
      slots[slot]? = some (.vacant generation next) → Chain slots next rest →
      Chain slots (some slot) (slot :: rest)

/-- The vacant slots, freed last first. -/
structure Free (a : Arena α) (free : List Nat) : Prop where
  chain : Chain a.slots a.freed free
  nodup : free.Nodup
  vacant : ∀ slot, slot ∈ free ↔ ∃ generation next, a.slots[slot]? = some (.vacant generation next)
  count : a.size + free.length = a.slots.size

structure Valid (a : Arena α) : Prop where
  bound : a.capacity < UInt32.size
  fits : a.slots.size ≤ a.capacity
  generations : ∀ (slot : Nat) (content : Slot α), a.slots[slot]? = some content →
    content.generation < UInt32.size
  free : ∃ free, a.Free free

/-- How often a slot was taken, as far as generations tell: 0 for a slot never used. -/
def generationAt (a : Arena α) (slot : Nat) : Nat := (a.slots[slot]?.map Slot.generation).getD 0

theorem nextGeneration_lt (generation : Nat) : nextGeneration generation < UInt32.size := by
  unfold nextGeneration
  split <;> simp_all [UInt32.size]

/-- An arena without a slot that was ever used. -/
def fresh (capacity : Nat) : Arena α := ⟨capacity, #[], none, 0⟩

theorem create_eq_ok_iff {capacity : Nat} {a : Arena α} : create capacity = .ok a ↔
    (0 < capacity ∧ capacity < UInt32.size) ∧ a = fresh capacity := by
  unfold create fresh
  split
  · simp_all
  · split
    · rename_i large
      have : ¬ capacity < UInt32.size := by omega
      simp [this]
    · simp only [Except.ok.injEq, eq_comm]
      constructor
      · intro same
        exact ⟨by omega, same⟩
      · exact And.right

theorem fresh_valid {capacity : Nat} (bound : capacity < UInt32.size) :
    (fresh capacity : Arena α).Valid :=
  ⟨bound, by simp [fresh], by simp [fresh], [], .nil, .nil, by simp [fresh], rfl⟩

theorem Valid.size_le {a : Arena α} (valid : a.Valid) : a.size ≤ a.capacity := by
  obtain ⟨free, all_free⟩ := valid.free
  have count := all_free.count
  have fits := valid.fits
  omega

theorem find?_eq_some_iff {a : Arena α} {id : Id} {slot : Nat} {value : α} :
    a.find? id = some (slot, value) ↔
      id.slot? = some slot ∧ a.slots[slot]? = some (.live id.generation value) := by
  unfold find?
  cases at_slot : id.slot? with
  | none => simp
  | some place =>
    simp only [Option.some.injEq]
    constructor
    · intro found
      split at found
      · rename_i generation stored content
        split at found
        · rename_i current
          obtain ⟨rfl, rfl⟩ := by simpa using found
          exact ⟨rfl, current ▸ content⟩
        · simp at found
      · simp at found
    · rintro ⟨rfl, content⟩
      simp [content]

theorem get?_eq_some_iff {a : Arena α} {id : Id} {value : α} : a.get? id = some value ↔
    ∃ slot, id.slot? = some slot ∧ a.slots[slot]? = some (.live id.generation value) := by
  simp [get?, Option.map_eq_some_iff, find?_eq_some_iff]

@[simp] theorem fresh_get? (capacity : Nat) (id : Id) : (fresh capacity : Arena α).get? id = none := by
  apply Option.eq_none_iff_forall_ne_some.mpr
  intro value stored
  obtain ⟨slot, _, content⟩ := get?_eq_some_iff.mp stored
  simp [fresh] at content

theorem contains_eq_isSome (a : Arena α) (id : Id) : a.contains id = (a.get? id).isSome := by
  simp [contains, get?]

/-- A lookup reads no slot but the handle's own. -/
theorem get?_congr {a b : Arena α} {id : Id}
    (same : ∀ slot, id.slot? = some slot → a.slots[slot]? = b.slots[slot]?) : a.get? id = b.get? id := by
  apply Option.ext
  intro value
  simp only [get?_eq_some_iff]
  constructor <;> rintro ⟨slot, at_slot, content⟩ <;> refine ⟨slot, at_slot, ?_⟩
  · rw [← same slot at_slot, content]
  · rw [same slot at_slot, content]

theorem get?_eq_none_of_slot {a : Arena α} {id : Id} {slot : Nat} (at_slot : id.slot? = some slot)
    (dead : ∀ value, a.slots[slot]? ≠ some (.live id.generation value)) : a.get? id = none := by
  apply Option.eq_none_iff_forall_ne_some.mpr
  intro value lookup
  obtain ⟨place, at_place, content⟩ := get?_eq_some_iff.mp lookup
  obtain rfl : slot = place := Option.some.inj (at_slot.symm.trans at_place)
  exact dead value content

/-- Where a slot holds a record, the record answers to one handle. -/
def Answers (a : Arena α) (slot : Nat) (id : Id) : Prop :=
  ∀ (generation : Nat) (value : α), a.slots[slot]? = some (.live generation value) → generation = id.generation

theorem Answers.get?_other {a : Arena α} {slot : Nat} {id other : Id} (owned : a.Answers slot id)
    (at_slot : id.slot? = some slot) (here : other.slot? = some slot) (different : other ≠ id) :
    a.get? other = none := by
  apply get?_eq_none_of_slot here
  intro value content
  exact different (Id.eq_of_parts here at_slot (owned _ _ content))

theorem get?_frame {a b : Arena α} {slot : Nat} {id other : Id} (at_slot : id.slot? = some slot)
    (before : a.Answers slot id) (after : b.Answers slot id)
    (same : ∀ i : Nat, i ≠ slot → b.slots[i]? = a.slots[i]?) (different : other ≠ id) :
    b.get? other = a.get? other := by
  by_cases here : other.slot? = some slot
  · rw [before.get?_other at_slot here different, after.get?_other at_slot here different]
  · apply get?_congr
    intro place at_place
    apply same
    rintro rfl
    exact here at_place

theorem getElem?_setUsed {slots : Array (Slot α)} {slot : Nat} (used : slot < slots.size) (content : Slot α)
    (i : Nat) : (slots.setIfInBounds slot content)[i]? = if i = slot then some content else slots[i]? := by
  simp only [Array.getElem?_setIfInBounds, used, if_true, eq_comm (a := slot)]

theorem getElem?_setSlot {slots : Array (Slot α)} {slot : Nat} (within : slot ≤ slots.size)
    (content : Slot α) (i : Nat) :
    (setSlot slots slot content)[i]? = if i = slot then some content else slots[i]? := by
  unfold setSlot
  split
  · rename_i used
    exact getElem?_setUsed used content i
  · rename_i unused
    obtain rfl : slot = slots.size := by omega
    exact Array.getElem?_push

theorem size_setSlot {slots : Array (Slot α)} {slot : Nat} (within : slot ≤ slots.size)
    (content : Slot α) : (setSlot slots slot content).size = max slots.size (slot + 1) := by
  unfold setSlot
  split <;> simp <;> omega

/-- A chain does not see a slot that it does not meet. -/
theorem Chain.put {slots changed : Array (Slot α)} {first : Option Nat} {free : List Nat} {slot : Nat}
    (chain : Chain slots first free) (apart : slot ∉ free)
    (same : ∀ i : Nat, i ≠ slot → changed[i]? = slots[i]?) : Chain changed first free := by
  induction chain with
  | nil => exact .nil
  | cons content _ ih =>
    have here := List.ne_of_not_mem_cons apart
    exact .cons ((same _ (Ne.symm here)).trans content) (ih (List.not_mem_of_not_mem_cons apart))

section Put

variable {a b : Arena α} {slot : Nat} {content : Slot α}
  (put : ∀ i : Nat, b.slots[i]? = if i = slot then some content else a.slots[i]?)
include put

theorem getElem?_put_other (i : Nat) (other : i ≠ slot) : b.slots[i]? = a.slots[i]? := by
  rw [put, if_neg other]

theorem get?_put_other {id other : Id} (at_slot : id.slot? = some slot) (before : a.Answers slot id)
    (after : ∀ (generation : Nat) (value : α), content = .live generation value → generation = id.generation)
    (different : other ≠ id) : b.get? other = a.get? other := by
  refine get?_frame at_slot before ?_ (getElem?_put_other put) different
  intro generation value found
  rw [put, if_pos rfl] at found
  exact after generation value (Option.some.inj found)

theorem Valid.generations_put (valid : a.Valid) (bound : content.generation < UInt32.size) (i : Nat)
    (found : Slot α) (at_i : b.slots[i]? = some found) : found.generation < UInt32.size := by
  rw [put] at at_i
  split at at_i
  · exact Option.some.inj at_i ▸ bound
  · exact valid.generations i found at_i

theorem generationAt_put (i : Nat) :
    b.generationAt i = if i = slot then content.generation else a.generationAt i := by
  unfold generationAt
  rw [put]
  split <;> rfl

theorem generationAt_put_same (same : a.generationAt slot = content.generation) (i : Nat) :
    b.generationAt i = a.generationAt i := by
  rw [generationAt_put put]
  split
  · rename_i here
    rw [here, same]
  · rfl

end Put

theorem Free.no_record {a : Arena α} {free : List Nat} {slot : Nat} (valid : a.Free free)
    (member : slot ∈ free) (generation : Nat) (value : α) :
    a.slots[slot]? ≠ some (.live generation value) := by
  obtain ⟨old, next, content⟩ := (valid.vacant slot).mp member
  simp [content]

/-- What an allocation does, seen from the slots. It takes the slot freed last, and else the first slot
never used. -/
structure Allocates [Inhabited α] (a : Arena α) (slot : Nat) (id : Id) (b : Arena α) : Prop where
  at_slot : id.slot? = some slot
  generation : id.generation = nextGeneration (a.generationAt slot)
  vacant : ∀ (old : Nat) (stored : α), a.slots[slot]? ≠ some (.live old stored)
  put : ∀ i : Nat, b.slots[i]? = if i = slot then some (.live id.generation default) else a.slots[i]?
  size : b.size = a.size + 1
  capacity : b.capacity = a.capacity
  fits : b.slots.size ≤ b.capacity
  place : ∀ free, a.Free free → free.head? = some slot ∨ free = [] ∧ slot = a.slots.size
  free : ∀ free, a.Free free → b.Free free.tail

/-- The place of the next record. -/
theorem nextSlot?_cases {a : Arena α} {free : List Nat} {slot generation : Nat} {freed : Option Nat}
    (valid : a.Free free) (next : a.nextSlot? = some (slot, generation, freed)) :
    generation = a.generationAt slot ∧
      ((∃ rest, free = slot :: rest ∧ Chain a.slots freed rest) ∨
        free = [] ∧ freed = none ∧ slot = a.slots.size ∧ slot < a.capacity) := by
  have chain := valid.chain
  unfold nextSlot? at next
  cases first : a.freed with
  | none =>
    rw [first] at next chain
    cases chain
    by_cases room : a.slots.size < a.capacity
    · simp only [room, if_true, Option.some.injEq, Prod.mk.injEq] at next
      obtain ⟨rfl, rfl, rfl⟩ := next
      exact ⟨by simp [generationAt], .inr ⟨rfl, rfl, rfl, room⟩⟩
    · simp [room] at next
  | some place =>
    rw [first] at next chain
    cases chain with
    | cons content rest =>
      simp only [content, Option.some.injEq, Prod.mk.injEq] at next
      obtain ⟨rfl, rfl, rfl⟩ := next
      exact ⟨by simp [generationAt, content, Slot.generation], .inl ⟨_, rfl, rest⟩⟩

/-- Taking the first free slot leaves the rest free. -/
theorem Free.take {a b : Arena α} {slot generation : Nat} {rest : List Nat} {value : α}
    (valid : a.Free (slot :: rest)) (chain : Chain a.slots b.freed rest)
    (put : ∀ i : Nat, b.slots[i]? = if i = slot then some (.live generation value) else a.slots[i]?)
    (slots : b.slots.size = a.slots.size) (size : b.size = a.size + 1) : b.Free rest := by
  have apart : slot ∉ rest := (List.nodup_cons.mp valid.nodup).1
  refine ⟨chain.put apart (getElem?_put_other put), (List.nodup_cons.mp valid.nodup).2, ?_, ?_⟩
  · intro i
    by_cases here : i = slot
    · subst here
      simp [put, apart]
    · rw [put, if_neg here, ← valid.vacant i]
      simp [here]
  · have count := valid.count
    simp only [List.length_cons] at count
    omega

theorem Free.grow {a b : Arena α} {generation : Nat} {value : α} (valid : a.Free []) (freed : b.freed = none)
    (put : ∀ i : Nat, b.slots[i]? = if i = a.slots.size then some (.live generation value) else a.slots[i]?)
    (slots : b.slots.size = a.slots.size + 1) (size : b.size = a.size + 1) : b.Free [] := by
  refine ⟨freed ▸ .nil, .nil, ?_, ?_⟩
  · intro i
    by_cases here : i = a.slots.size
    · simp [put, here]
    · rw [put, if_neg here, ← valid.vacant i]
  · have count := valid.count
    simp only [List.length_nil] at *
    omega

theorem Free.lt_size {a : Arena α} {free : List Nat} {slot : Nat} (valid : a.Free free)
    (member : slot ∈ free) : slot < a.slots.size := by
  obtain ⟨generation, next, content⟩ := (valid.vacant slot).mp member
  exact (Array.getElem?_eq_some_iff.mp content).1

theorem Valid.nextSlot?_within {a : Arena α} {slot generation : Nat} {freed : Option Nat} (valid : a.Valid)
    (next : a.nextSlot? = some (slot, generation, freed)) : slot < a.capacity ∧ slot ≤ a.slots.size := by
  obtain ⟨free, all_free⟩ := valid.free
  have fits := valid.fits
  rcases (nextSlot?_cases all_free next).2 with ⟨rest, rfl, _⟩ | ⟨_, _, rfl, room⟩
  · have := all_free.lt_size (List.mem_cons_self : slot ∈ slot :: rest)
    omega
  · omega

theorem allocate_allocates [Inhabited α] {a b : Arena α} {id : Id} (valid : a.Valid)
    (allocated : a.allocate = some (id, b)) : ∃ slot, a.Allocates slot id b := by
  unfold allocate at allocated
  cases next : a.nextSlot? with
  | none => simp [next] at allocated
  | some found =>
    obtain ⟨slot, generation, freed⟩ := found
    simp only [next, Option.some.injEq, Prod.mk.injEq] at allocated
    obtain ⟨rfl, rfl⟩ := allocated
    obtain ⟨free, all_free⟩ := valid.free
    have within := valid.nextSlot?_within next
    have slots : slot + 1 < UInt32.size := by
      have := valid.bound
      omega
    have put := getElem?_setSlot within.2 (.live (nextGeneration generation) (default : α))
    have size := size_setSlot within.2 (.live (nextGeneration generation) (default : α))
    have decoded := Id.generation_ofParts slots (nextGeneration_lt generation)
    have used (used : List Nat) (free : a.Free used) := nextSlot?_cases free next
    refine ⟨slot, Id.slot?_ofParts slots (nextGeneration_lt generation), ?_, ?_, ?_, rfl, rfl, ?_, ?_, ?_⟩
    · rw [decoded, (used free all_free).1]
    · rcases (used free all_free).2 with ⟨rest, rfl, _⟩ | ⟨_, _, rfl, _⟩
      · exact all_free.no_record (by simp)
      · simp
    · rw [decoded]
      exact put
    · have fits := valid.fits
      simp only [size]
      omega
    · intro other other_free
      rcases (used other other_free).2 with ⟨rest, rfl, _⟩ | ⟨rfl, _, rfl, _⟩
      · exact .inl rfl
      · exact .inr ⟨rfl, rfl⟩
    · intro other other_free
      rcases (used other other_free).2 with ⟨rest, rfl, chain⟩ | ⟨rfl, rfl, rfl, _⟩
      · have below := other_free.lt_size (List.mem_cons_self : slot ∈ slot :: rest)
        exact other_free.take chain put (by simp only [size]; omega) rfl
      · exact other_free.grow rfl put (by simp only [size]; omega) rfl

theorem Allocates.valid [Inhabited α] {a b : Arena α} {slot : Nat} {id : Id}
    (step : a.Allocates slot id b) (before : a.Valid) : b.Valid := by
  obtain ⟨free, all_free⟩ := before.free
  exact ⟨step.capacity ▸ before.bound, step.fits, before.generations_put step.put id.generation_lt, _,
    step.free free all_free⟩

theorem Allocates.get? [Inhabited α] {a b : Arena α} {slot : Nat} {id : Id}
    (step : a.Allocates slot id b) (other : Id) :
    b.get? other = if other = id then some default else a.get? other := by
  split
  · rename_i same
    subst same
    exact get?_eq_some_iff.mpr ⟨slot, step.at_slot, by simp [step.put]⟩
  · rename_i different
    refine get?_put_other step.put step.at_slot ?_ ?_ different
    · intro old stored content
      exact absurd content (step.vacant old stored)
    · rintro generation value ⟨⟩
      rfl

theorem Allocates.fresh [Inhabited α] {a b : Arena α} {slot : Nat} {id : Id}
    (step : a.Allocates slot id b) : a.get? id = none :=
  get?_eq_none_of_slot step.at_slot (step.vacant _)

theorem allocate_eq_none_iff [Inhabited α] {a : Arena α} (valid : a.Valid) :
    a.allocate = none ↔ a.size = a.capacity := by
  obtain ⟨free, all_free⟩ := valid.free
  have chain := all_free.chain
  have count := all_free.count
  have fits := valid.fits
  have next : a.allocate = none ↔ a.nextSlot? = none := by
    unfold allocate
    cases a.nextSlot? <;> simp
  rw [next]
  unfold nextSlot?
  cases first : a.freed with
  | none =>
    rw [first] at chain
    cases chain
    simp only [List.length_nil, Nat.add_zero] at count
    by_cases room : a.slots.size < a.capacity
    · simp only [room, if_true, reduceCtorEq, false_iff]
      omega
    · simp only [room, if_false, true_iff]
      omega
  | some place =>
    rw [first] at chain
    cases chain with
    | cons content rest =>
      simp only [List.length_cons] at count
      simp only [content, reduceCtorEq, false_iff]
      omega

theorem free?_isSome (a : Arena α) (id : Id) : (a.free? id).isSome = a.contains id := by
  unfold free? contains
  cases a.find? id <;> rfl

/-- What a removal does, seen from the slots. The slot becomes the first free one. -/
structure Frees (a : Arena α) (slot : Nat) (id : Id) (b : Arena α) : Prop where
  at_slot : id.slot? = some slot
  live : ∃ value, a.slots[slot]? = some (.live id.generation value)
  put : ∀ i : Nat, b.slots[i]? = if i = slot then some (.vacant id.generation a.freed) else a.slots[i]?
  freed : b.freed = some slot
  size : b.size = a.size - 1
  capacity : b.capacity = a.capacity
  slots : b.slots.size = a.slots.size

theorem free?_frees {a b : Arena α} {id : Id} (removed : a.free? id = some b) :
    ∃ slot, a.Frees slot id b := by
  unfold free? at removed
  cases found : a.find? id with
  | none => simp [found] at removed
  | some place =>
    obtain ⟨slot, value⟩ := place
    obtain ⟨at_slot, content⟩ := find?_eq_some_iff.mp found
    have within := (Array.getElem?_eq_some_iff.mp content).1
    simp only [found, Option.some.injEq] at removed
    subst removed
    exact ⟨slot, at_slot, ⟨value, content⟩, getElem?_setUsed within _, rfl, rfl, rfl, Array.size_setIfInBounds⟩

theorem size_pos {a : Arena α} {slot generation : Nat} {value : α} (valid : a.Valid)
    (content : a.slots[slot]? = some (.live generation value)) : 0 < a.size := by
  obtain ⟨free, all_free⟩ := valid.free
  have apart : slot ∉ free := fun member => all_free.no_record member _ _ content
  have below := (Array.getElem?_eq_some_iff.mp content).1
  have distinct : (slot :: free).Nodup := List.nodup_cons.mpr ⟨apart, all_free.nodup⟩
  have subset : slot :: free ⊆ List.range a.slots.size := by
    intro i member
    rcases List.mem_cons.mp member with rfl | member
    · exact List.mem_range.mpr below
    · exact List.mem_range.mpr (all_free.lt_size member)
  have lengths := distinct.length_le_of_subset subset
  have count := all_free.count
  simp only [List.length_cons, List.length_range] at lengths
  omega

theorem Frees.size_pos {a b : Arena α} {slot : Nat} {id : Id} (step : a.Frees slot id b)
    (valid : a.Valid) : 0 < a.size := by
  obtain ⟨value, content⟩ := step.live
  exact Arena.size_pos valid content

theorem Frees.free {a b : Arena α} {slot : Nat} {id : Id} {free : List Nat} (step : a.Frees slot id b)
    (valid : a.Valid) (before : a.Free free) : b.Free (slot :: free) := by
  obtain ⟨value, content⟩ := step.live
  have apart : slot ∉ free := fun member => before.no_record member _ _ content
  have chain : Chain b.slots a.freed free := before.chain.put apart (getElem?_put_other step.put)
  refine ⟨?_, List.nodup_cons.mpr ⟨apart, before.nodup⟩, ?_, ?_⟩
  · rw [step.freed]
    exact .cons (by rw [step.put, if_pos rfl]) chain
  · intro i
    by_cases here : i = slot
    · subst here
      simp [step.put]
    · rw [step.put, if_neg here, ← before.vacant i]
      simp [here]
  · have positive := step.size_pos valid
    have count := before.count
    simp only [step.size, step.slots, List.length_cons]
    omega

theorem Frees.valid {a b : Arena α} {slot : Nat} {id : Id} (step : a.Frees slot id b)
    (before : a.Valid) : b.Valid := by
  obtain ⟨free, all_free⟩ := before.free
  refine ⟨step.capacity ▸ before.bound, ?_, before.generations_put step.put id.generation_lt, _,
    step.free before all_free⟩
  rw [step.capacity, step.slots]
  exact before.fits

theorem Frees.get? {a b : Arena α} {slot : Nat} {id : Id} (step : a.Frees slot id b) (other : Id) :
    b.get? other = if other = id then none else a.get? other := by
  split
  · rename_i same
    subst same
    exact get?_eq_none_of_slot step.at_slot (by simp [step.put])
  · rename_i different
    obtain ⟨value, live⟩ := step.live
    refine get?_put_other step.put step.at_slot ?_ ?_ different
    · intro generation stored content
      simp_all
    · rintro generation stored ⟨⟩

theorem modify_of_none {a : Arena α} {id : Id} (f : α → α) (missing : a.get? id = none) :
    a.modify id f = a := by
  unfold modify
  cases found : a.find? id with
  | none => rfl
  | some place => simp [Arena.get?, found] at missing

/-- What a write to a live record does, seen from the slots. -/
structure Writes (a : Arena α) (slot : Nat) (id : Id) (old new : α) (b : Arena α) : Prop where
  at_slot : id.slot? = some slot
  live : a.slots[slot]? = some (.live id.generation old)
  put : ∀ i : Nat, b.slots[i]? = if i = slot then some (.live id.generation new) else a.slots[i]?
  slots : b.slots.size = a.slots.size

theorem modify_writes {a : Arena α} {id : Id} {value : α} (f : α → α) (stored : a.get? id = some value) :
    ∃ slot, a.Writes slot id value (f value) (a.modify id f) := by
  obtain ⟨slot, at_slot, content⟩ := get?_eq_some_iff.mp stored
  have within := (Array.getElem?_eq_some_iff.mp content).1
  have found := find?_eq_some_iff.mpr ⟨at_slot, content⟩
  refine ⟨slot, at_slot, content, ?_, by simp [modify, found]⟩
  simp only [modify, found]
  exact getElem?_setUsed within _

@[simp] theorem freed_modify (a : Arena α) (id : Id) (f : α → α) : (a.modify id f).freed = a.freed := by
  unfold modify
  split <;> rfl

@[simp] theorem size_modify (a : Arena α) (id : Id) (f : α → α) : (a.modify id f).size = a.size := by
  unfold modify
  split <;> rfl

@[simp] theorem capacity_modify (a : Arena α) (id : Id) (f : α → α) :
    (a.modify id f).capacity = a.capacity := by
  unfold modify
  split <;> rfl

theorem get?_modify (a : Arena α) (id other : Id) (f : α → α) :
    (a.modify id f).get? other = if other = id then (a.get? other).map f else a.get? other := by
  cases stored : a.get? id with
  | none =>
    rw [modify_of_none f stored]
    split <;> simp_all
  | some value =>
    obtain ⟨slot, write⟩ := modify_writes f stored
    split
    · rename_i same
      subst same
      simp only [stored, Option.map_some]
      exact get?_eq_some_iff.mpr ⟨slot, write.at_slot, by simp [write.put]⟩
    · rename_i different
      refine get?_put_other write.put write.at_slot ?_ ?_ different
      · intro generation found content
        have := write.live
        simp_all
      · rintro generation found ⟨⟩
        rfl

theorem Free.modify {a : Arena α} {free : List Nat} (valid : a.Free free) (id : Id) (f : α → α) :
    (a.modify id f).Free free := by
  cases stored : a.get? id with
  | none =>
    rw [modify_of_none f stored]
    exact valid
  | some value =>
    obtain ⟨slot, write⟩ := modify_writes f stored
    have apart : slot ∉ free := fun member => valid.no_record member _ _ write.live
    refine ⟨?_, valid.nodup, ?_, ?_⟩
    · rw [freed_modify]
      exact valid.chain.put apart (getElem?_put_other write.put)
    · intro i
      rw [write.put]
      split
      · rename_i here
        subst here
        simp [apart]
      · exact valid.vacant i
    · rw [size_modify, write.slots]
      exact valid.count

theorem Valid.modify {a : Arena α} (valid : a.Valid) (id : Id) (f : α → α) : (a.modify id f).Valid := by
  obtain ⟨free, all_free⟩ := valid.free
  cases stored : a.get? id with
  | none =>
    rw [modify_of_none f stored]
    exact valid
  | some value =>
    obtain ⟨slot, write⟩ := modify_writes f stored
    refine ⟨by simpa using valid.bound, ?_, valid.generations_put write.put id.generation_lt, free,
      all_free.modify id f⟩
    rw [write.slots, capacity_modify]
    exact valid.fits

theorem Allocates.generationAt [Inhabited α] {a b : Arena α} {slot : Nat} {id : Id}
    (step : a.Allocates slot id b) (i : Nat) :
    b.generationAt i = if i = slot then id.generation else a.generationAt i :=
  generationAt_put step.put i

theorem Frees.generationAt {a b : Arena α} {slot : Nat} {id : Id} (step : a.Frees slot id b) (i : Nat) :
    b.generationAt i = a.generationAt i := by
  obtain ⟨value, live⟩ := step.live
  exact generationAt_put_same step.put (by simp [Arena.generationAt, live, Slot.generation]) i

theorem generationAt_modify (a : Arena α) (id : Id) (f : α → α) (i : Nat) :
    (a.modify id f).generationAt i = a.generationAt i := by
  cases stored : a.get? id with
  | none => rw [modify_of_none f stored]
  | some value =>
    obtain ⟨slot, write⟩ := modify_writes f stored
    exact generationAt_put_same write.put (by simp [generationAt, write.live, Slot.generation]) i

end Arena

end VectorGraph
