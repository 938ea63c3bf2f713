import VectorGraph.Proofs.Arena.History

/-! An arena as a supply of slots: a stack of those that were freed, and a counter of those ever used. The two tell
which slot the next record takes and when there is none left, whatever the records hold. -/
namespace VectorGraph.Arena

variable {α : Type}

/-- The slot freed last is on top. Beside the slots stand how often each was taken, and the live handles. -/
structure Supply where
  capacity : Nat
  freed : List Nat := []
  used : Nat := 0
  taken : Nat → Nat := fun _ => 0
  live : List Id := []

namespace Supply

/-- The top of the stack, or the lowest slot never used where the stack is empty. -/
def pop? (s : Supply) : Option (Nat × Supply) :=
  match s.freed with
  | slot :: freed => some (slot, { s with freed })
  | [] => if s.used < s.capacity then some (s.used, { s with used := s.used + 1 }) else none

/-- A slot is taken once more, for the handle that counts this time. -/
def take (s : Supply) (slot : Nat) (id : Id) : Supply :=
  { s with taken := fun i => if i = slot then s.taken i + 1 else s.taken i, live := id :: s.live }

def use (s : Supply) : Use α → Option Event × Supply
  | .allocate =>
    match s.pop? with
    | some (slot, rest) =>
      let id := Id.ofParts slot (s.taken slot + 1)
      (some (.issued id), rest.take slot id)
    | none => (none, s)
  | .free id =>
    if id ∈ s.live then
      (some (.retired id), { s with freed := id.slot?.toList ++ s.freed, live := s.live.erase id })
    else (none, s)
  | .write .. => (none, s)

def after (s : Supply) : List (Use α) → Supply
  | [] => s
  | u :: uses => (s.use u).2.after uses

def history (s : Supply) : List (Use α) → List Event
  | [] => []
  | u :: uses => (s.use u).1.toList ++ (s.use u).2.history uses

end Supply

/-- The slots of an arena are where a supply has them. -/
structure Tracks (a : Arena α) (s : Supply) : Prop where
  valid : a.Valid
  capacity : a.capacity = s.capacity
  free : a.Free s.freed
  used : a.slots.size = s.used
  taken : ∀ slot, a.generationAt slot = s.taken slot
  touched : ∀ slot, 0 < s.taken slot ↔ slot < s.used
  live : ∀ id, a.contains id ↔ id ∈ s.live
  nodup : s.live.Nodup
  size : a.size = s.live.length

variable {a b : Arena α} {s : Supply} {slot : Nat} {id : Id}

theorem create_tracks {capacity : Nat} (created : create capacity = .ok a) : a.Tracks { capacity } := by
  obtain ⟨⟨_, bound⟩, rfl⟩ := create_eq_ok_iff.mp created
  refine ⟨fresh_valid bound, rfl, ⟨.nil, .nil, by simp [fresh], rfl⟩, rfl, ?_, by simp, ?_, .nil, rfl⟩
  · intro slot
    simp [fresh, generationAt]
  · intro id
    simp [contains_eq_isSome]

theorem Tracks.pop? [Inhabited α] (tracks : a.Tracks s) (step : a.Allocates slot id b) :
    ∃ freed used, s.pop? = some (slot, { s with freed, used }) ∧ b.Free freed ∧ b.slots.size = used ∧
      ∀ i, i < used ↔ i = slot ∨ i < s.used := by
  have before := tracks.free.count
  have left := step.free _ tracks.free
  have after := left.count
  have size := step.size
  have used := tracks.used
  unfold Supply.pop?
  rcases step.place _ tracks.free with top | ⟨empty, lowest⟩
  · obtain ⟨freed, stack⟩ := List.head?_eq_some_iff.mp top
    have below : slot < a.slots.size := tracks.free.lt_size (by simp [stack])
    rw [stack] at before left after
    simp only [List.length_cons, List.tail_cons] at before after
    simp only [stack]
    refine ⟨freed, s.used, rfl, left, by omega, fun i => ?_⟩
    omega
  · rw [empty] at before left after
    simp only [List.length_nil, List.tail_nil] at before after
    have room : s.used < s.capacity := by
      have fits := step.fits
      rw [step.capacity, tracks.capacity] at fits
      omega
    obtain rfl : slot = s.used := lowest.trans used
    simp only [empty, room, if_true]
    refine ⟨[], s.used + 1, rfl, left, by omega, fun i => ?_⟩
    omega

theorem Tracks.pop?_eq_none (tracks : a.Tracks s) (full : a.size = a.capacity) : s.pop? = none := by
  have count := tracks.free.count
  have fits := tracks.valid.fits
  have used := tracks.used
  have capacity := tracks.capacity
  have empty : s.freed = [] := List.eq_nil_of_length_eq_zero (by omega)
  rw [Supply.pop?, empty]
  simp only [ite_eq_right_iff]
  omega

theorem Allocates.slot_lt [Inhabited α] (step : a.Allocates slot id b) : slot < a.capacity := by
  have content : b.slots[slot]? = some (.live id.generation default) := by rw [step.put, if_pos rfl]
  have within := (Array.getElem?_eq_some_iff.mp content).1
  have fits := step.fits
  rw [step.capacity] at fits
  omega

theorem Allocates.generation_eq [Inhabited α] (step : a.Allocates slot id b)
    (bounded : a.generationAt slot + 1 < UInt32.size) : id.generation = a.generationAt slot + 1 := by
  rw [step.generation, nextGeneration, if_pos bounded]

/-- Slot and count fit their halves of the handle. -/
theorem Allocates.id_eq [Inhabited α] (step : a.Allocates slot id b) (valid : a.Valid)
    (bounded : a.generationAt slot + 1 < UInt32.size) : id = .ofParts slot (a.generationAt slot + 1) := by
  have within : slot + 1 < UInt32.size := by
    have below := step.slot_lt
    have bound := valid.bound
    omega
  refine Id.eq_of_parts step.at_slot (Id.slot?_ofParts within bounded) ?_
  rw [Id.generation_ofParts within bounded, step.generation_eq bounded]

theorem Tracks.issue [Inhabited α] (tracks : a.Tracks s) (step : a.Allocates slot id b)
    (bounded : s.taken slot + 1 < UInt32.size) :
    ∃ t, s.use (.allocate : Use α) = (some (.issued id), t) ∧ b.Tracks t := by
  obtain ⟨freed, used, popped, free, slots, touched⟩ := tracks.pop? step
  rw [← tracks.taken] at bounded
  have named := step.id_eq tracks.valid bounded
  rw [tracks.taken] at named
  have fresh : id ∉ s.live := by
    rw [← tracks.live, contains_eq_isSome, step.fresh]
    simp
  refine ⟨Supply.take { s with freed, used } slot id, by simp only [Supply.use, popped, ← named],
    step.valid tracks.valid, step.capacity.trans tracks.capacity, free, slots, ?_, ?_, ?_,
    List.nodup_cons.mpr ⟨fresh, tracks.nodup⟩, ?_⟩
  · intro i
    rw [step.generationAt]
    simp only [Supply.take]
    split
    · rename_i here
      rw [here, step.generation_eq bounded, tracks.taken]
    · exact tracks.taken i
  · intro i
    simp only [Supply.take, touched, ← tracks.touched]
    split <;> simp_all
  · intro other
    rw [contains_eq_isSome, step.get?]
    simp only [Supply.take, List.mem_cons, ← tracks.live, contains_eq_isSome]
    split <;> simp_all
  · rw [step.size, tracks.size]
    rfl

theorem Tracks.retire (tracks : a.Tracks s) (step : a.Frees slot id b) :
    b.Tracks { s with freed := id.slot?.toList ++ s.freed, live := s.live.erase id } := by
  obtain ⟨value, content⟩ := step.live
  have member : id ∈ s.live := by
    rw [← tracks.live, contains_eq_isSome, get?_eq_some_iff.mpr ⟨slot, step.at_slot, content⟩]
    rfl
  refine ⟨step.valid tracks.valid, step.capacity.trans tracks.capacity, ?_, step.slots.trans tracks.used, ?_,
    tracks.touched, ?_, tracks.nodup.erase id, ?_⟩
  · simp only [step.at_slot, Option.toList_some]
    exact step.free tracks.valid tracks.free
  · intro i
    rw [step.generationAt, tracks.taken]
  · intro other
    rw [contains_eq_isSome, step.get?, tracks.nodup.mem_erase_iff, ← tracks.live, contains_eq_isSome]
    split <;> simp_all
  · rw [step.size, tracks.size, List.length_erase_of_mem member]

theorem Tracks.write (tracks : a.Tracks s) (id : Id) (value : α) : (a.set id value).Tracks s where
  valid := tracks.valid.modify ..
  capacity := (capacity_modify ..).trans tracks.capacity
  free := tracks.free.modify ..
  used := by
    cases stored : a.get? id with
    | none => rw [set, modify_of_none _ stored, tracks.used]
    | some old =>
      obtain ⟨_, write⟩ := modify_writes (fun _ => value) stored
      exact write.slots.trans tracks.used
  taken := by
    intro slot
    rw [set, generationAt_modify, tracks.taken]
  touched := tracks.touched
  live := by
    intro other
    rw [← tracks.live, contains_eq_isSome, contains_eq_isSome, set, get?_modify]
    split <;> simp
  nodup := tracks.nodup
  size := (size_modify ..).trans tracks.size

theorem Tracks.use [Inhabited α] (tracks : a.Tracks s) (u : Use α)
    (bounded : ∀ slot, s.taken slot + issuesAt (a.use u).1.toList slot < UInt32.size) :
    (a.use u).1 = (s.use u).1 ∧ (a.use u).2.Tracks (s.use u).2 := by
  cases u with
  | allocate =>
    cases allocated : a.allocate with
    | none =>
      have nothing := tracks.pop?_eq_none ((allocate_eq_none_iff tracks.valid).mp allocated)
      simpa only [Supply.use, nothing, Arena.use, allocated, true_and] using tracks
    | some issue =>
      obtain ⟨id, b⟩ := issue
      obtain ⟨slot, step⟩ := allocate_allocates tracks.valid allocated
      have once : issuesAt [.issued id] slot = 1 := by simp [issuesAt, issues, Event.issued?, step.at_slot]
      have here := bounded slot
      simp only [Arena.use, allocated, Option.toList_some, once] at here
      obtain ⟨t, answer, later⟩ := tracks.issue step here
      simpa only [Arena.use, allocated, answer, true_and] using later
  | free id =>
    have live : id ∈ s.live ↔ (a.free? id).isSome := by rw [← tracks.live, free?_isSome]
    cases freed : a.free? id with
    | none =>
      have dead : id ∉ s.live := by simp [live, freed]
      simpa only [Supply.use, dead, if_false, Arena.use, freed, true_and] using tracks
    | some b =>
      have live : id ∈ s.live := by simp [live, freed]
      obtain ⟨slot, step⟩ := free?_frees freed
      simpa only [Supply.use, live, if_true, Arena.use, freed, true_and] using tracks.retire step
  | write id value => exact ⟨rfl, tracks.write id value⟩

/-- A run of an arena is a run of the supply, as long as no count outgrows its half of the handle. -/
theorem Tracks.after [Inhabited α] {h : List Event} (tracks : a.Tracks s) (follows : a.Follows h)
    (uses : List (Use α)) (bounded : ∀ slot, issuesAt (h ++ a.history uses) slot < UInt32.size) :
    a.history uses = s.history uses ∧ (a.after uses).Tracks (s.after uses) := by
  induction uses generalizing a s h with
  | nil => exact ⟨rfl, tracks⟩
  | cons u uses ih =>
    have first : ∀ slot, issuesAt (h ++ (a.use u).1.toList) slot < UInt32.size :=
      Bounded.left (by rwa [history, ← List.append_assoc] at bounded)
    obtain ⟨answer, later⟩ := tracks.use u (by simpa [← tracks.taken, follows.generations] using first)
    obtain ⟨rest, final⟩ := ih later (follows.use u first) (by simpa [history, List.append_assoc] using bounded)
    refine ⟨?_, final⟩
    rw [history, Supply.history, answer, rest]

theorem length_history_allocate [Inhabited α] (valid : a.Valid) (count : Nat) :
    (a.history (List.replicate count .allocate)).length = min count (a.capacity - a.size) := by
  induction count generalizing a with
  | zero => simp [history]
  | succ count ih =>
    rw [List.replicate_succ, history, List.length_append]
    cases allocated : a.allocate with
    | none =>
      have full := (allocate_eq_none_iff valid).mp allocated
      simp only [use, allocated, Option.toList_none, List.length_nil, ih valid]
      omega
    | some issue =>
      obtain ⟨slot, step⟩ := allocate_allocates valid allocated
      have bound := (step.valid valid).size_le
      simp only [use, allocated, Option.toList_some, List.length_singleton, ih (step.valid valid)]
      rw [step.size, step.capacity] at *
      omega

/-- What an arena answers, as a supply has it. A slot is taken from the top of the stack, and else it is the lowest
one that was never taken. -/
structure Obeys [Inhabited α] (a : Arena α) (s : Supply) : Prop where
  size : a.size = s.live.length
  bound : s.live.length ≤ s.capacity
  live : ∀ id, a.contains id ↔ id ∈ s.live
  distinct : s.live.Nodup
  touched : ∀ slot, 0 < s.taken slot ↔ slot < s.used
  full : a.allocate = none ↔ s.live.length = s.capacity
  issued : ∀ id b, a.allocate = some (id, b) → ∃ slot rest, s.pop? = some (slot, rest) ∧ slot < s.capacity ∧
    id.slot? = some slot ∧ (s.taken slot + 1 < UInt32.size → id.generation = s.taken slot + 1)
  room : ∀ count, (a.history (List.replicate count .allocate)).length = min count (s.capacity - s.live.length)

theorem Tracks.obeys [Inhabited α] (tracks : a.Tracks s) : a.Obeys s where
  size := tracks.size
  bound := by
    rw [← tracks.size, ← tracks.capacity]
    exact tracks.valid.size_le
  live := tracks.live
  distinct := tracks.nodup
  touched := tracks.touched
  full := by
    rw [← tracks.size, ← tracks.capacity]
    exact allocate_eq_none_iff tracks.valid
  issued := by
    intro id b allocated
    obtain ⟨slot, step⟩ := allocate_allocates tracks.valid allocated
    obtain ⟨_, _, popped, _⟩ := tracks.pop? step
    refine ⟨slot, _, popped, tracks.capacity ▸ step.slot_lt, step.at_slot, ?_⟩
    rw [← tracks.taken]
    exact step.generation_eq
  room := by
    rw [← tracks.size, ← tracks.capacity]
    exact length_history_allocate tracks.valid

/-- An arena issues and takes back what the supply does, and after every run it has the supply's slots left. -/
theorem refines_supply [Inhabited α] {capacity : Nat} (positive : 0 < capacity) (fits : capacity < UInt32.size) :
    ∃ a : Arena α, create capacity = .ok a ∧ ∀ uses,
      (∀ slot, issuesAt (a.history uses) slot < UInt32.size) →
        let s : Supply := { capacity }
        a.history uses = s.history uses ∧ (∀ slot, (s.after uses).taken slot = issuesAt (a.history uses) slot) ∧
          (a.after uses).Obeys (s.after uses) := by
  have created : create capacity = .ok (fresh capacity : Arena α) :=
    create_eq_ok_iff.mpr ⟨⟨positive, fits⟩, rfl⟩
  refine ⟨fresh capacity, created, fun uses bounded => ?_⟩
  have follows := create_follows created
  obtain ⟨same, final⟩ := (create_tracks created).after follows uses (by simpa using bounded)
  refine ⟨same, fun slot => ?_, final.obeys⟩
  rw [← final.taken, (follows.after uses (by simpa using bounded)).generations, List.nil_append]

/-- Two slots are freed, and the one freed last is taken first. Only then is the third one used, and a fourth record
finds no slot. -/
theorem refines_supply_lifo :
    let id (slot generation : Nat) := Id.ofParts slot generation
    let uses : List (Use Nat) := [.allocate, .allocate, .free (id 0 1), .free (id 1 1), .free (id 1 1), .allocate,
      .allocate, .allocate, .allocate]
    ∃ a : Arena Nat, create 3 = .ok a ∧ (∀ slot, issuesAt (a.history uses) slot < UInt32.size) ∧
      a.history uses = [.issued (id 0 1), .issued (id 1 1), .retired (id 0 1), .retired (id 1 1), .issued (id 1 2),
        .issued (id 0 2), .issued (id 2 1)] ∧
      (a.after uses).size = 3 ∧ (a.after uses).allocate = none := by
  intro id uses
  have accepted : 0 < 3 ∧ 3 < UInt32.size := by decide
  obtain ⟨a, created, policy⟩ := refines_supply (α := Nat) accepted.1 accepted.2
  obtain ⟨_, rfl⟩ := create_eq_ok_iff.mp created
  have bounded : ∀ slot, issuesAt ((fresh 3 : Arena Nat).history uses) slot < UInt32.size := by
    intro slot
    exact Nat.lt_of_le_of_lt List.countP_le_length (by decide)
  obtain ⟨same, _, obeys⟩ := policy uses bounded
  exact ⟨fresh 3, created, bounded, same.trans (by decide), obeys.size.trans (by decide),
    obeys.full.mpr (by decide)⟩

end VectorGraph.Arena
