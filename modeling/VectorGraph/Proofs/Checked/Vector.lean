import VectorGraph.Proofs.Checked.Arena
import VectorGraph.Proofs.Vector.Runs

/-!
Calls on a vector index, stopping at a step that is not defined. A slot that the map tells is turned into a place in
the buffer, by arithmetic that must stay within 64 bits and within the buffer, and components are copied only between
places of one length.
-/
namespace VectorGraph.VectorIndex

def spanChecked (x : VectorIndex) (slot : Nat) : Checked Unit := do
  let start := slot * x.dimension
  require (start < UInt64.size) (.number start)
  let stop := start + x.dimension
  require (stop < UInt64.size) (.number stop)
  require (stop ≤ x.components.size) (.span stop x.components.size)

def rowChecked (x : VectorIndex) (slot : Nat) : Checked Vec := do
  x.spanChecked slot
  return x.row slot

def setRowChecked (x : VectorIndex) (slot : Nat) (v : Vec) : Checked VectorIndex := do
  x.spanChecked slot
  require (v.size = x.dimension) (.copy v.size x.dimension)
  return x.setRow slot v

def setOwnerChecked (x : VectorIndex) (slot : Nat) (owner : Option Id) : Checked (Array (Option Id)) := do
  require (slot < x.owners.size) (.place slot x.owners.size)
  return x.owners.setIfInBounds slot owner

def getChecked (x : VectorIndex) (id : Id) : Checked (Option Vec) :=
  match x.slots[id]? with
  | some slot => return some (← x.rowChecked slot)
  | none => return none

def setChecked (x : VectorIndex) (id : Id) (v : Vec) : Checked (Except VectorError Unit × VectorIndex) :=
  if id.isNull then return (.error .nullId, x)
  else
    match x.checkDimension v with
    | .error e => return (.error e, x)
    | .ok () =>
      match x.slots[id]? with
      | some slot => return (.ok (), ← x.setRowChecked slot v)
      | none =>
        match x.vacantSlot? with
        | none => return (.error (.capacityExhausted x.capacity), x)
        | some slot => do
          let x := { x with
            owners := ← x.setOwnerChecked slot (some id)
            slots := x.slots.insert id slot }
          return (.ok (), ← x.setRowChecked slot v)

def removeChecked (x : VectorIndex) (id : Id) : Checked (Except VectorError Unit × VectorIndex) :=
  match x.slots[id]? with
  | none => return (.error (.notFound id), x)
  | some slot => do
    let x := { x with
      owners := ← x.setOwnerChecked slot none
      slots := x.slots.erase id }
    return (.ok (), ← x.setRowChecked slot (.replicate x.dimension .zero))

/-- The buffer is cut into chunks of the dimension, one for each slot. -/
def entriesChecked (x : VectorIndex) : Checked (List (Id × Vec)) := do
  require (0 < x.dimension) .chunks
  return x.entries

def candidatesChecked (x : VectorIndex) (query : Vec) : Checked (List Neighbor) :=
  return (← x.entriesChecked).map fun (id, v) => ⟨id, squaredL2 v query⟩

/-- The element of rank `k` is singled out where more than `k` are found. -/
def nearestChecked (x : VectorIndex) (query : Vec) (k : Nat) : Checked (Except VectorError (List Neighbor)) :=
  match x.checkDimension query with
  | .error e => return .error e
  | .ok () =>
    if k = 0 then return .ok []
    else do
      let all ← x.candidatesChecked query
      if k < all.length then
        require (k < all.length) (.rank k all.length)
        return .ok ((selectLeast Neighbor.le k all).mergeSort Neighbor.le)
      else return .ok (all.mergeSort Neighbor.le)

/-- The other queries do no arithmetic and read no component. -/
def answerChecked (x : VectorIndex) : Request → Checked (Except VectorError Reply × VectorIndex)
  | .set id v => do
    let (outcome, y) ← x.setChecked id v
    return (outcome.map fun _ => .done, y)
  | .remove id => do
    let (outcome, y) ← x.removeChecked id
    return (outcome.map fun _ => .done, y)
  | .get id => return (.ok (.vector (← x.getChecked id)), x)
  | .nearest query k => return ((← x.nearestChecked query k).map .neighbors, x)
  | .entries => return (.ok (.entries (← x.entriesChecked)), x)
  | .contents => return (.ok (.contents ⟨x.info, ← x.entriesChecked⟩), x)
  | q => return x.answer q

/-- A valid index whose slots have places that fit 64 bits. -/
structure Sound (x : VectorIndex) : Prop where
  valid : x.Valid
  dimension : 0 < x.dimension
  small : x.capacity * x.dimension < UInt64.size

variable {x y : VectorIndex} {id : Id} {slot : Nat} {v : Vec} {q : Request} {reply : Except VectorError Reply}

/-- A slot with an owner has its components within the buffer, and the buffer is small enough for their places. -/
theorem Sound.span (sound : x.Sound) (within : slot < x.owners.size) :
    slot * x.dimension + x.dimension < UInt64.size ∧ slot * x.dimension + x.dimension ≤ x.components.size := by
  have room := sound.valid.row_within within
  have small := sound.small
  rw [capacity, ← sound.valid.buffer] at small
  exact ⟨by omega, room⟩

theorem spanChecked_eq (sound : x.Sound) (within : slot < x.owners.size) : x.spanChecked slot = pure () := by
  obtain ⟨small, room⟩ := sound.span within
  unfold spanChecked
  simp only
  rw [require_eq (by omega), require_eq small, require_eq room]
  rfl

/-- Who owns the slot makes no difference to its place. -/
theorem setRowChecked_eq (sound : x.Sound) (within : slot < x.owners.size) (fits : v.size = x.dimension)
    (owners : Array (Option Id)) (slots : Std.HashMap Id Nat) :
    setRowChecked { x with owners, slots } slot v = pure (setRow { x with owners, slots } slot v) := by
  have same : spanChecked { x with owners, slots } slot = x.spanChecked slot := rfl
  unfold setRowChecked
  rw [same, spanChecked_eq sound within, require_eq fits]
  rfl

theorem setOwnerChecked_eq (within : slot < x.owners.size) (owner : Option Id) :
    x.setOwnerChecked slot owner = pure (x.owners.setIfInBounds slot owner) := by
  unfold setOwnerChecked
  rw [require_eq within]
  rfl

theorem getChecked_eq (sound : x.Sound) (id : Id) : x.getChecked id = pure (x.get? id) := by
  unfold getChecked get?
  cases own : x.slots[id]? with
  | none => rfl
  | some slot => simp [rowChecked, spanChecked_eq sound (sound.valid.lt_size own)]

theorem checkDimension_eq_ok_iff : x.checkDimension v = .ok () ↔ v.size = x.dimension := by
  unfold checkDimension
  split <;> simp_all

theorem setChecked_eq (sound : x.Sound) (id : Id) (v : Vec) : x.setChecked id v = pure (x.set id v) := by
  unfold setChecked set
  split
  · rfl
  · cases dimension : x.checkDimension v with
    | error e => rfl
    | ok =>
      have fits := checkDimension_eq_ok_iff.mp dimension
      cases own : x.slots[id]? with
      | some slot => simp [setRowChecked_eq sound (sound.valid.lt_size own) fits x.owners x.slots]
      | none =>
        cases vacant : x.vacantSlot? with
        | none => rfl
        | some slot =>
          have within := (Array.getElem?_eq_some_iff.mp (vacantSlot?_owner vacant)).1
          simp only [setOwnerChecked_eq within, pure_bind, setRowChecked_eq sound within fits]

theorem removeChecked_eq (sound : x.Sound) (id : Id) : x.removeChecked id = pure (x.remove id) := by
  unfold removeChecked remove
  cases own : x.slots[id]? with
  | none => rfl
  | some slot =>
    have within := sound.valid.lt_size own
    simp only [setOwnerChecked_eq within, pure_bind, setRowChecked_eq sound within Array.size_replicate]

theorem entriesChecked_eq (sound : x.Sound) : x.entriesChecked = pure x.entries := by
  unfold entriesChecked
  rw [require_eq sound.dimension]
  rfl

theorem candidatesChecked_eq (sound : x.Sound) (query : Vec) :
    x.candidatesChecked query = pure (x.candidates query) := by
  rw [candidatesChecked, entriesChecked_eq sound]
  rfl

theorem nearestChecked_eq (sound : x.Sound) (query : Vec) (k : Nat) :
    x.nearestChecked query k = pure (x.nearest query k) := by
  unfold nearestChecked nearest
  cases x.checkDimension query with
  | error e => rfl
  | ok =>
    simp only [candidatesChecked_eq sound, pure_bind]
    by_cases none_wanted : k = 0
    · simp [none_wanted]
    · by_cases more : k < (x.candidates query).length
      · simp [none_wanted, more, require_eq]
      · simp [none_wanted, more]

theorem answerChecked_eq (sound : x.Sound) (q : Request) : x.answerChecked q = pure (x.answer q) := by
  cases q <;>
    simp [answerChecked, answer, setChecked_eq sound, removeChecked_eq sound, getChecked_eq sound,
      nearestChecked_eq sound, entriesChecked_eq sound, contents]

theorem Sound.of_shape (sound : x.Sound) (valid : y.Valid) (dimension : y.dimension = x.dimension)
    (capacity : y.capacity = x.capacity) : y.Sound :=
  ⟨valid, dimension ▸ sound.dimension, by rw [dimension, capacity]; exact sound.small⟩

theorem Effect.sound (effect : x.Effect q reply y) (sound : x.Sound) : y.Sound :=
  sound.of_shape (effect.valid sound.valid) effect.shape.1 effect.shape.2

theorem Stores.sound (step : x.Stores id slot v y) (sound : x.Sound) : y.Sound :=
  sound.of_shape (step.valid sound.valid) step.dimension step.capacity

theorem Forgets.sound (step : x.Forgets id y) (sound : x.Sound) : y.Sound := by
  cases step with
  | absent _ => exact sound
  | removed removes => exact sound.of_shape (removes.valid sound.valid) removes.dimension removes.capacity

theorem create_sound {dimension capacity : Nat} {allocator : Allocator}
    (created : create dimension capacity allocator = .ok x) : x.Sound := by
  obtain ⟨⟨wide, _, product, _⟩, rfl⟩ := create_eq_ok_iff.mp created
  refine ⟨fresh_valid .., wide, ?_⟩
  show (Array.replicate capacity none).size * dimension < UInt64.size
  rw [Array.size_replicate]
  exact product

theorem Reachable.sound (reachable : x.Reachable) : x.Sound := by
  obtain ⟨_, _, _, _, requests, created, rfl⟩ := reachable
  exact Session.after_preserves Sound (fun x q sound => (answer_effect sound.valid q).sound sound)
    (create_sound created) requests

end VectorGraph.VectorIndex
