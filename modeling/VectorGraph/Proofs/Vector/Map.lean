import Mathlib.Data.Finmap
import VectorGraph.Proofs.Vector.Runs

/-! A vector index as a bounded finite map: what it stores is what was put under each handle last, and it
refuses a vector only for the handle, the length or the bound. -/
namespace VectorGraph.VectorIndex

abbrev VectorMap := Finmap fun _ : Id => Vec

namespace VectorMap

/-- Storing overwrites and removal takes away. Refusals and queries change nothing. -/
def note (m : VectorMap) : Request × Except VectorError Reply → VectorMap
  | (.set id v, .ok _) => m.insert id v
  | (.remove id, .ok _) => m.erase id
  | _ => m

@[simp] theorem note_error (m : VectorMap) (q : Request) (e : VectorError) : m.note (q, .error e) = m := by
  cases q <;> rfl

theorem note_query (m : VectorMap) {q : Request} (query : q.changes = false) (reply : Reply) :
    m.note (q, .ok reply) = m := by
  cases q <;> simp_all [note, Request.changes]

def replay (transcript : List (Request × Except VectorError Reply)) : VectorMap := transcript.foldl note ∅

theorem lookup_insert_eq (m : VectorMap) (id other : Id) (v : Vec) :
    (m.insert id v).lookup other = if other = id then some v else m.lookup other := by
  split
  · rename_i same
    rw [same, Finmap.lookup_insert]
  · rename_i different
    exact Finmap.lookup_insert_of_ne m different

theorem lookup_erase_eq (m : VectorMap) (id other : Id) :
    (m.erase id).lookup other = if other = id then none else m.lookup other := by
  split
  · rename_i same
    rw [same, Finmap.lookup_erase]
  · rename_i different
    exact Finmap.lookup_erase_ne different

theorem eq_empty_iff {m : VectorMap} : m = ∅ ↔ m.keys = ∅ := by
  constructor
  · rintro rfl
    exact Finmap.keys_empty
  · intro empty
    apply Finmap.ext_lookup
    intro id
    rw [Finmap.lookup_empty, Finmap.lookup_eq_none, ← Finmap.mem_keys, empty]
    simp

end VectorMap

variable {x y : VectorIndex} {m : VectorMap}

/-- Under each handle an index holds what a map has there. -/
structure Holds (x : VectorIndex) (m : VectorMap) : Prop where
  valid : x.Valid
  lookup : ∀ id, x.get? id = m.lookup id

/-- An answer tells what it does to the map. -/
theorem Effect.holds {q : Request} {reply : Except VectorError Reply} (effect : x.Effect q reply y)
    (before : x.Holds m) : y.Holds (m.note (q, reply)) := by
  obtain ⟨valid, lookup⟩ := before
  refine ⟨effect.valid valid, fun id => ?_⟩
  cases effect with
  | stores step => rw [step.get? valid, VectorMap.note, VectorMap.lookup_insert_eq, lookup]
  | removes step => rw [step.get? valid, VectorMap.note, VectorMap.lookup_erase_eq, lookup]
  | refuses e => rw [VectorMap.note_error, lookup]
  | tells reply query => rw [VectorMap.note_query m query, lookup]

variable {dimension capacity : Nat} {allocator : Allocator} {start : VectorIndex}

theorem create_holds (created : create dimension capacity allocator = .ok start) : start.Holds ∅ := by
  obtain ⟨_, rfl⟩ := create_eq_ok_iff.mp created
  exact ⟨fresh_valid .., fun id => by simp⟩

theorem after_holds (created : create dimension capacity allocator = .ok start) (requests : List Request) :
    (Session.after answer start requests).Holds (.replay (Session.transcript answer start requests)) := by
  have step (past : List (Request × Except VectorError Reply)) (x : VectorIndex) (q : Request)
      (holds : x.Holds (.replay past)) : (x.answer q).2.Holds (.replay (past ++ [(q, (x.answer q).1)])) := by
    rw [VectorMap.replay, List.foldl_concat]
    exact (answer_effect holds.valid q).holds holds
  exact Session.run_preserves (fun past x => Holds x (.replay past)) step [] (create_holds created) requests

/-- An index is a map to all its operations: they read it, and refuse what does not fit it. -/
structure Refines (x : VectorIndex) (m : VectorMap) : Prop where
  get? : ∀ id, x.get? id = m.lookup id
  contains : ∀ id, x.contains id ↔ id ∈ m
  size : x.size = m.keys.card
  bound : m.keys.card ≤ x.capacity
  isEmpty : x.isEmpty ↔ m = ∅
  distinct : (x.entries.map Prod.fst).Nodup
  entries : ∀ id v, (id, v) ∈ x.entries ↔ m.lookup id = some v
  set : ∀ id v, (x.set id v).1 =
    if id = .null then .error .nullId
    else if v.size ≠ x.dimension then .error (.dimensionMismatch x.dimension v.size)
    else if id ∉ m ∧ m.keys.card = x.capacity then .error (.capacityExhausted x.capacity)
    else .ok ()
  remove : ∀ id, (x.remove id).1 = if id ∈ m then .ok () else .error (.notFound id)

theorem Holds.refines (holds : x.Holds m) : x.Refines m := by
  obtain ⟨valid, lookup⟩ := holds
  have member (id : Id) : x.contains id ↔ id ∈ m := by
    rw [contains_eq_isSome, lookup, Finmap.lookup_isSome]
  have keys : m.keys = x.holders.toFinset := by
    ext id
    rw [Finmap.mem_keys, List.mem_toFinset, valid.mem_holders, member]
  have size : x.size = m.keys.card := by
    rw [keys, List.toFinset_card_of_nodup valid.nodup_holders, valid.length_holders]
  refine ⟨lookup, member, size, size ▸ valid.size_le, ?_, valid.nodup_entries, ?_, ?_, ?_⟩
  · rw [VectorMap.eq_empty_iff, ← Finset.card_eq_zero, ← size, isEmpty, Std.HashMap.isEmpty_eq_size_eq_zero,
      beq_iff_eq]
    rfl
  · intro id v
    rw [valid.mem_entries, lookup]
  · intro id v
    rw [set_outcome valid]
    simp only [member, size]
  · intro id
    rw [remove_outcome valid]
    simp only [member]

theorem Holds.set (holds : x.Holds m) (id : Id) (v : Vec) (named : id ≠ .null) (fits : v.size = x.dimension)
    (room : id ∈ m ∨ m.keys.card < x.capacity) : (x.set id v).2.Holds (m.insert id v) ∧
      (x.set id v).2.dimension = x.dimension ∧ (x.set id v).2.capacity = x.capacity := by
  have effect := answer_effect holds.valid (.set id v)
  have stored : (x.set id v).1 = .ok () := by
    rw [holds.refines.set, if_neg named, if_neg (not_not_intro fits), if_neg]
    rintro ⟨absent, full⟩
    exact room.elim absent fun below => absurd full (Nat.ne_of_lt below)
  refine ⟨?_, effect.shape⟩
  simpa [answer, stored, Except.map, VectorMap.note] using effect.holds holds

/-- After every run an index is the map of what was put under each handle last and not removed since. -/
theorem refines_map (created : create dimension capacity allocator = .ok start) (requests : List Request) :
    let x := Session.after answer start requests
    x.dimension = dimension ∧ x.capacity = capacity ∧
      x.Refines (.replay (Session.transcript answer start requests)) := by
  intro x
  obtain ⟨_, wide, large⟩ := after_shape created requests
  exact ⟨wide, large, (after_holds created requests).refines⟩

/-- One slot: a second handle is refused until the first has left, and then keeps the slot for two vectors. -/
theorem refines_map_reuse :
    let a : Id := ⟨1⟩
    let b : Id := ⟨2⟩
    let v : Vec := #[.zero]
    let w : Vec := #[.infinity]
    let requests := [.set a v, .set b w, .remove a, .remove a, .set b v, .set b w]
    ∃ start, create 1 1 = .ok start ∧
      let x := Session.after answer start requests
      x.get? b = some w ∧ ¬ x.contains a ∧ x.size = 1 ∧ (b, w) ∈ x.entries ∧
        (x.set a v).1 = .error (.capacityExhausted 1) ∧ (x.set b v).1 = .ok () ∧
        (x.remove a).1 = .error (.notFound a) := by
  intro a b v w requests
  let start := fresh 1 1
  have created : create 1 1 = .ok start := rfl
  let m : VectorMap := (((Finmap.insert a v ∅).erase a).insert b v).insert b w
  have map : VectorMap.replay (Session.transcript answer start requests) = m := by
    simp [m, VectorMap.replay, VectorMap.note, requests, Session.transcript, answer, set, remove, start, fresh, a, b, v,
      w, Id.isNull, checkDimension, vacantSlot?, setRow, overwrite, capacity, Except.map]
  obtain ⟨wide, large, refines⟩ := refines_map created requests
  rw [map] at refines
  have found : m.lookup b = some w := Finmap.lookup_insert _
  have absent : a ∉ m := by decide
  have present : b ∈ m := by decide
  have one : m.keys.card = 1 := rfl
  refine ⟨start, created, (refines.get? b).trans found, fun held => absent ((refines.contains a).mp held),
    refines.size.trans one, (refines.entries b w).mpr found, ?_, ?_, ?_⟩
  · rw [refines.set, one, large, wide, if_neg (by decide), if_neg (by decide), if_pos ⟨absent, rfl⟩]
  · rw [refines.set, wide, if_neg (by decide), if_neg (by decide), if_neg fun refused => refused.1 present]
  · rw [refines.remove, if_neg absent]

end VectorGraph.VectorIndex
