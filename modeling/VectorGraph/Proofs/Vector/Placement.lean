import VectorGraph.Proofs.Vector.Runs

/-! Where an index keeps its vectors. A handle that is new to it takes the lowest vacant slot and stays there until it
is removed, so an index lists its handles in the order of a shelf that is always filled at its lowest free place. -/
namespace VectorGraph.VectorIndex

variable {x y : VectorIndex} {id : Id} {slot : Nat} {v : Vec}

/-- Places in a row, free or taken by a handle. -/
abbrev Shelf := List (Option Id)

namespace Shelf

/-- A handle takes the lowest free place. A shelf without one stays as it is. -/
def fill (id : Id) : Shelf → Shelf
  | [] => []
  | none :: places => some id :: places
  | some taken :: places => some taken :: fill id places

def vacate (id : Id) (shelf : Shelf) : Shelf :=
  shelf.map fun place => if place = some id then none else place

/-- What a request to an index does to a shelf, which knows of vectors only that they need a handle and a length. -/
def note (dimension : Nat) (shelf : Shelf) : Request → Shelf
  | .set id v => if id = .null ∨ v.size ≠ dimension ∨ some id ∈ shelf then shelf else shelf.fill id
  | .remove id => shelf.vacate id
  | _ => shelf

theorem fill_eq (id : Id) (shelf : Shelf) : shelf.fill id =
    match shelf.findIdx? (·.isNone) with
    | some slot => shelf.set slot (some id)
    | none => shelf := by
  induction shelf with
  | nil => rfl
  | cons place places ih =>
    cases place with
    | none => rfl
    | some taken =>
      rw [fill, ih, List.findIdx?_cons, Option.isNone_some, if_neg Bool.false_ne_true]
      cases places.findIdx? (·.isNone) <;> rfl

theorem vacate_of_not_mem {shelf : Shelf} (absent : some id ∉ shelf) : shelf.vacate id = shelf := by
  refine (List.map_congr_left fun place member => if_neg ?_).trans (List.map_id _)
  rintro rfl
  exact absent member

theorem vacate_eq_set {shelf : Shelf} (own : ∀ i, shelf[i]? = some (some id) ↔ i = slot) :
    shelf.vacate id = shelf.set slot none := by
  have within := (List.getElem?_eq_some_iff.mp ((own slot).mpr rfl)).1
  apply List.ext_getElem?
  intro i
  rw [vacate, List.getElem?_map, List.getElem?_set]
  by_cases here : slot = i
  · rw [if_pos here, if_pos (here ▸ within), (own i).mpr here.symm, Option.map_some, if_pos rfl]
  · rw [if_neg here]
    cases place : shelf[i]? with
    | none => rfl
    | some owner =>
      rw [Option.map_some, if_neg]
      rintro rfl
      exact here ((own i).mp place).symm

end Shelf

theorem Valid.mem_owners (valid : x.Valid) : some id ∈ x.owners.toList ↔ x.contains id :=
  List.reduceOption_mem_iff.symm.trans valid.mem_holders

theorem vacantSlot?_eq_findIdx? (x : VectorIndex) : x.vacantSlot? = x.owners.toList.findIdx? (·.isNone) :=
  List.findIdx?_toArray _ x.owners.toList

theorem Puts.toList_owners {owner : Option Id} (step : x.Puts slot owner v y) :
    y.owners.toList = x.owners.toList.set slot owner := by
  have written : y.owners[slot]? = some owner := by rw [step.owners, if_pos rfl]
  have within : slot < x.owners.size := Nat.lt_of_lt_of_eq (Array.getElem?_eq_some_iff.mp written).1 step.capacity
  apply List.ext_getElem?
  intro i
  rw [Array.getElem?_toList, step.owners, List.getElem?_set, Array.getElem?_toList, Array.length_toList]
  by_cases here : i = slot
  · rw [if_pos here, if_pos here.symm, if_pos (here ▸ within)]
  · rw [if_neg here, if_neg (Ne.symm here)]

theorem Stores.toList_owners (step : x.Stores id slot v y) (valid : x.Valid) :
    y.owners.toList = Shelf.note x.dimension x.owners.toList (.set id v) := by
  have fits : ¬ v.size ≠ x.dimension := not_not_intro step.fits
  rw [step.toPuts.toList_owners, Shelf.note]
  rcases step.place with own | ⟨fresh, vacant⟩
  · rw [if_pos (.inr (.inr (valid.mem_owners.mpr (contains_of_slot own))))]
    have owner := (valid.inverse id slot).mp own
    rw [← Array.getElem?_toList] at owner
    obtain ⟨within, same⟩ := List.getElem?_eq_some_iff.mp owner
    rw [← same, List.set_getElem_self]
  · have absent : some id ∉ x.owners.toList := by simp [valid.mem_owners, contains_eq_false_iff.mpr fresh]
    rw [if_neg (by simp [step.named, step.fits, absent]), Shelf.fill_eq, ← vacantSlot?_eq_findIdx?, vacant]

theorem Removes.toList_owners (step : x.Removes id slot y) (valid : x.Valid) :
    y.owners.toList = Shelf.vacate id x.owners.toList := by
  rw [step.toPuts.toList_owners, Shelf.vacate_eq_set]
  intro i
  rw [Array.getElem?_toList, ← valid.inverse, step.place, Option.some.injEq, eq_comm]

/-- What an answer does to the slots, the shelf foretells without looking at slots or rows. -/
theorem answer_owners (valid : x.Valid) (q : Request) :
    (x.answer q).2.owners.toList = Shelf.note x.dimension x.owners.toList q := by
  cases q with
  | set id v =>
    rcases set_cases valid id v with
      ⟨null, refused⟩ | ⟨_, wide, refused⟩ | ⟨_, _, _, full, refused⟩ | ⟨slot, y, stored, step⟩
    · rw [answer, refused, Shelf.note, if_pos (.inl null)]
    · rw [answer, refused, Shelf.note, if_pos (.inr (.inl wide))]
    · rw [answer, refused, Shelf.note, Shelf.fill_eq, ← vacantSlot?_eq_findIdx?,
        valid.vacantSlot?_eq_none_iff.mpr full, ite_self]
    · rw [answer, stored, step.toList_owners valid]
  | remove id =>
    rcases remove_cases valid id with ⟨absent, refused⟩ | ⟨_, slot, y, removed, step⟩
    · rw [answer, refused, Shelf.note, Shelf.vacate_of_not_mem (by simp [valid.mem_owners, absent])]
    · rw [answer, removed, step.toList_owners valid, Shelf.note]
  | _ => rfl

theorem after_owners (valid : x.Valid) (requests : List Request) : (Session.after answer x requests).owners.toList =
    requests.foldl (Shelf.note x.dimension) x.owners.toList := by
  induction requests generalizing x with
  | nil => rfl
  | cons q requests ih =>
    rw [Session.after, ih (answer_valid x q valid), (answer_effect valid q).shape.1, answer_owners valid,
      List.foldl_cons]

/-- The slot of a handle, or the lowest vacant one for a handle without a slot. -/
def Seat (x : VectorIndex) (id : Id) (slot : Nat) : Prop :=
  x.slots[id]? = some slot ∨
    x.slots[id]? = none ∧ x.owners[slot]? = some none ∧ ∀ lower < slot, x.owners[lower]? ≠ some none

theorem Stores.seat (step : x.Stores id slot v y) : x.Seat id slot := by
  refine step.place.imp_right fun ⟨fresh, vacant⟩ => ⟨fresh, vacantSlot?_owner vacant, ?_⟩
  obtain ⟨_, _, taken⟩ := Array.findIdx?_eq_some_iff_getElem.mp vacant
  intro lower below free
  obtain ⟨within, owner⟩ := Array.getElem?_eq_some_iff.mp free
  simpa [owner] using taken lower below

/-- In every index the handles are the inverse of the owners and vacant rows are clear. A vector goes to the slot of its
handle, else to the lowest vacant one, and storing or removing it touches no other slot. So the slots have the owners
of a shelf that is filled at its lowest free place, and the index lists its handles in the order of that shelf. -/
theorem slots_filled_lowest_first {dimension capacity : Nat} {allocator : Allocator} {start : VectorIndex}
    (created : create dimension capacity allocator = .ok start) (requests : List Request) :
    let x := Session.after answer start requests
    let shelf := requests.foldl (Shelf.note dimension) (.replicate capacity none)
    x.Valid ∧
    (∀ id v, (∃ e, x.set id v = (.error e, x)) ∨
      ∃ slot y, x.set id v = (.ok (), y) ∧ x.Seat id slot ∧ x.Stores id slot v y) ∧
    (∀ id, (∃ e, x.remove id = (.error e, x)) ∨ ∃ slot y, x.remove id = (.ok (), y) ∧ x.Removes id slot y) ∧
    x.owners.toList = shelf ∧ x.entries.map Prod.fst = shelf.reduceOption := by
  intro x shelf
  have valid : x.Valid := (after_shape created requests).1
  have owners : x.owners.toList = shelf := by
    obtain ⟨_, rfl⟩ := create_eq_ok_iff.mp created
    exact (after_owners (fresh_valid ..) requests).trans (by simp [shelf, fresh])
  refine ⟨valid, fun id v => ?_, fun id => ?_, owners, by rw [map_fst_entries, holders, owners]⟩
  · rcases set_stores valid id v with refused | ⟨slot, y, stored, step⟩
    · exact .inl refused
    · exact .inr ⟨slot, y, stored, step.seat, step⟩
  · rcases remove_cases valid id with ⟨_, refused⟩ | ⟨_, slot, y, removed, step⟩
    · exact .inl ⟨_, refused⟩
    · exact .inr ⟨slot, y, removed, step⟩

/-- Two of three slots become vacant. The next handle takes the lower one, ahead of the handle that stayed, and the
one after it the other, although it has left the lower one. -/
theorem slots_filled_lowest_first_reuse :
    let a : Id := ⟨1⟩
    let b : Id := ⟨2⟩
    let c : Id := ⟨3⟩
    let d : Id := ⟨4⟩
    let v : Vec := #[.infinity]
    let requests := [.set a v, .set b v, .set c v, .remove b, .remove a, .set d v]
    ∃ start, create 1 3 = .ok start ∧
      let x := Session.after answer start requests
      x.entries.map Prod.fst = [d, c] ∧ x.row 1 = #[.zero] ∧
        ∃ y, x.set a v = (.ok (), y) ∧ y.slots[a]? = some 1 ∧ y.entries.map Prod.fst = [d, a, c] := by
  intro a b c d v requests
  let start : VectorIndex := fresh 1 3
  have created : create 1 3 = .ok start := rfl
  have dimension := (after_shape created requests).2.1
  obtain ⟨valid, set, _, owners, order⟩ := slots_filled_lowest_first created requests
  refine ⟨start, created, order.trans (by decide), ?_⟩
  generalize Session.after answer start requests = x at *
  have free : x.owners.toList = [some d, none, some c] := owners.trans (by decide)
  have vacant : x.owners[1]? = some none := by rw [← Array.getElem?_toList, free]; rfl
  refine ⟨(valid.cleared 1 vacant).trans (by rw [dimension]; rfl), ?_⟩
  have taken := answer_owners valid (.set a v)
  rw [answer, dimension, free] at taken
  rcases set a v with ⟨e, refused⟩ | ⟨slot, y, stored, _, step⟩
  · rw [refused, free] at taken
    exact absurd taken (by decide)
  · rw [stored] at taken
    have all : y.owners.toList = [some d, some a, some c] := taken.trans (by decide)
    have here : y.owners[1]? = some (some a) := by rw [← Array.getElem?_toList, all]; rfl
    refine ⟨y, stored, ((step.valid valid).inverse a 1).mpr here, ?_⟩
    rw [map_fst_entries, holders, all]
    rfl

end VectorGraph.VectorIndex
