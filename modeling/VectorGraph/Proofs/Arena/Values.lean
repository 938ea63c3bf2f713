import VectorGraph.Proofs.Arena.History

/-! What the records of an arena hold. A record is handed out as the default one, whatever its slot held before, and
from then on it holds what was written last under its own handle. -/
namespace VectorGraph.Arena

variable {α : Type}

def held? (a : Arena α) (slot : Nat) : Option α :=
  match a.slots[slot]? with
  | some (.live _ value) => some value
  | _ => none

/-- Writes to the record in a slot by way of a reference to it, without a handle. -/
def assign (a : Arena α) (slot : Nat) (value : α) : Arena α :=
  match a.slots[slot]? with
  | some (.live generation _) => { a with slots := a.slots.setIfInBounds slot (.live generation value) }
  | _ => a

/-- What a caller may do. A new record is handed out by reference, and any number of values may be written to it
before anything else is done. -/
inductive Act (α : Type) where
  | allocate (values : List α)
  | free (id : Id)
  | write (id : Id) (value : α)

/-- What comes of an act. An issue tells the record that was handed out. -/
inductive Deed (α : Type) where
  | issued (id : Id) (record : Option α)
  | retired (id : Id)
  | wrote (id : Id) (value : α)
deriving DecidableEq

/-- A full arena hands out nothing, and under a handle that names no record there is nothing to free or to write to. -/
def act [Inhabited α] (a : Arena α) : Act α → List (Deed α) × Arena α
  | .allocate values =>
    match a.nextSlot?, a.allocate with
    | some (slot, _), some (id, b) =>
      (.issued id (b.held? slot) :: values.map (.wrote id), values.foldl (·.assign slot ·) b)
    | _, _ => ([], a)
  | .free id =>
    match a.free? id with
    | some b => ([.retired id], b)
    | none => ([], a)
  | .write id value => if a.contains id then ([.wrote id value], a.set id value) else ([], a)

def through [Inhabited α] (a : Arena α) : List (Act α) → Arena α
  | [] => a
  | x :: acts => (a.act x).2.through acts

def deeds [Inhabited α] (a : Arena α) : List (Act α) → List (Deed α)
  | [] => []
  | x :: acts => (a.act x).1 ++ (a.act x).2.deeds acts

/-- The act is about a handle that the caller gives. -/
def Act.Names : Act α → Id → Prop
  | .allocate _, _ => False
  | .free id, other => id = other
  | .write id _, other => id = other

def Deed.event? : Deed α → Option Event
  | .issued id _ => some (.issued id)
  | .retired id => some (.retired id)
  | .wrote .. => none

def events (h : List (Deed α)) : List Event := h.filterMap Deed.event?

def Deed.valueFor? (id : Id) : Deed α → Option α
  | .wrote other value => if other = id then some value else none
  | _ => none

/-- The default record if nothing was written under the handle. -/
def lastWritten [Inhabited α] (h : List (Deed α)) (id : Id) : α :=
  (h.filterMap (·.valueFor? id)).getLast?.getD default

@[simp] theorem events_append (h k : List (Deed α)) : events (h ++ k) = events h ++ events k :=
  List.filterMap_append ..

@[simp] theorem events_issued (id : Id) (record : Option α) : events [.issued id record] = [.issued id] := rfl

@[simp] theorem events_retired (id : Id) : events [(.retired id : Deed α)] = [.retired id] := rfl

@[simp] theorem events_wrote (id : Id) (value : α) : events [.wrote id value] = [] := rfl

variable {a b : Arena α} {h : List (Deed α)} {slot : Nat} {id : Id} {value : α}

theorem assign_eq_set (at_slot : id.slot? = some slot) (live : a.contains id) (value : α) :
    a.assign slot value = a.set id value := by
  obtain ⟨old, stored⟩ := Option.isSome_iff_exists.mp (contains_eq_isSome a id ▸ live)
  obtain ⟨place, at_place, content⟩ := get?_eq_some_iff.mp stored
  obtain rfl : slot = place := Option.some.inj (at_slot.symm.trans at_place)
  simp [assign, set, modify, find?_eq_some_iff.mpr ⟨at_place, content⟩, content]

theorem contains_set (a : Arena α) (id other : Id) (value : α) :
    (a.set id value).contains other = a.contains other := by
  rw [contains_eq_isSome, contains_eq_isSome, set, get?_modify]
  split <;> simp

theorem foldl_assign (at_slot : id.slot? = some slot) (live : a.contains id) (values : List α) :
    values.foldl (·.assign slot ·) a = values.foldl (·.set id ·) a := by
  induction values generalizing a with
  | nil => rfl
  | cons value values ih =>
    rw [List.foldl_cons, List.foldl_cons, assign_eq_set at_slot live]
    exact ih (contains_set a id id value ▸ live)

theorem get?_foldl_set (values : List α) {other : Id} (different : other ≠ id) :
    (values.foldl (·.set id ·) a).get? other = a.get? other := by
  induction values generalizing a with
  | nil => rfl
  | cons value values ih => rw [List.foldl_cons, ih, set, get?_modify, if_neg different]

variable [Inhabited α]

theorem lastWritten_wrote (h : List (Deed α)) (id other : Id) (value : α) :
    lastWritten (h ++ [.wrote id value]) other = if other = id then value else lastWritten h other := by
  unfold lastWritten
  by_cases same : id = other
  · simp [Deed.valueFor?, same]
  · simp [Deed.valueFor?, same, Ne.symm same]

theorem lastWritten_of_event (h : List (Deed α)) {d : Deed α} {e : Event} (event : d.event? = some e) (id : Id) :
    lastWritten (h ++ [d]) id = lastWritten h id := by
  cases d <;> simp_all [lastWritten, Deed.valueFor?, Deed.event?]

/-- An arena together with the deeds that led to it. -/
structure Recalls (a : Arena α) (h : List (Deed α)) : Prop where
  follows : a.Follows (events h)
  values : ∀ id, a.contains id → a.get? id = some (lastWritten h id)
  known : ∀ id value, .wrote id value ∈ h → id ∈ issues (events h)
  fresh : ∀ id record, .issued id record ∈ h → record = some default

theorem create_recalls {capacity : Nat} (created : create capacity = .ok a) : a.Recalls [] where
  follows := create_follows created
  values := by
    intro id live
    obtain ⟨_, rfl⟩ := create_eq_ok_iff.mp created
    simp [contains_eq_isSome] at live
  known := by simp
  fresh := by simp

/-- No write came before the issue, since a handle that names no record is not written under. -/
theorem Recalls.issue (before : a.Recalls h) (step : a.Allocates slot id b)
    (bounded : Bounded (events (h ++ [.issued id (some default)]))) : b.Recalls (h ++ [.issued id (some default)]) := by
  rw [events_append, events_issued] at bounded
  have follows := before.follows.issue step (bounded slot)
  have unknown : id ∉ issues (events h) := by
    intro member
    have distinct := follows.distinct
    rw [issues_append, List.nodup_append] at distinct
    exact distinct.2.2 id member id (by simp [issues, Event.issued?]) rfl
  refine ⟨by simpa using follows, ?_, ?_, ?_⟩
  · intro other live
    rw [lastWritten_of_event h rfl, step.get?]
    split
    · rename_i same
      subst same
      have none_written : h.filterMap (·.valueFor? other) = [] := by
        refine List.filterMap_eq_nil_iff.mpr fun d member => ?_
        cases d with
        | wrote id value =>
          refine if_neg ?_
          rintro rfl
          exact unknown (before.known _ _ member)
        | _ => rfl
      simp [lastWritten, none_written]
    · rename_i different
      rw [contains_eq_isSome, step.get?, if_neg different, ← contains_eq_isSome] at live
      exact before.values other live
  · intro other value member
    have earlier : .wrote other value ∈ h := by simpa using member
    simp [before.known other value earlier]
  · intro other record member
    rcases List.mem_append.mp member with earlier | new
    · exact before.fresh other record earlier
    · simp_all

theorem Recalls.retire (before : a.Recalls h) (step : a.Frees slot id b) : b.Recalls (h ++ [.retired id]) := by
  refine ⟨by simpa using before.follows.retire step, ?_, ?_, ?_⟩
  · intro other live
    rw [contains_eq_isSome, step.get?] at live
    rw [lastWritten_of_event h rfl, step.get?]
    split
    · rename_i same
      simp [same] at live
    · rename_i different
      rw [if_neg different, ← contains_eq_isSome] at live
      exact before.values other live
  · intro other value member
    have earlier : .wrote other value ∈ h := by simpa using member
    simp [before.known other value earlier]
  · intro other record member
    exact before.fresh other record (by simpa using member)

theorem Recalls.write (before : a.Recalls h) (live : a.contains id) (value : α) :
    (a.set id value).Recalls (h ++ [.wrote id value]) := by
  have same : events (h ++ [.wrote id value]) = events h := by simp
  refine ⟨same ▸ before.follows.modify id _, ?_, ?_, ?_⟩
  · intro other kept
    rw [contains_eq_isSome, set, get?_modify] at kept
    rw [lastWritten_wrote, set, get?_modify]
    split
    · rename_i here
      rw [before.values other (here ▸ live)]
      rfl
    · rename_i elsewhere
      rw [if_neg elsewhere, ← contains_eq_isSome] at kept
      exact before.values other kept
  · intro other written member
    rw [same]
    rcases List.mem_append.mp member with earlier | new
    · exact before.known other written earlier
    · obtain ⟨rfl, rfl⟩ : other = id ∧ written = value := by simpa using new
      have issued := ((before.follows.inForce other).mp live).mem
      exact List.mem_filterMap.mpr ⟨_, issued, rfl⟩
  · intro other record member
    exact before.fresh other record (by simpa using member)

theorem Allocates.slot_eq {place generation : Nat} {freed : Option Nat} (step : a.Allocates slot id b) (valid : a.Valid)
    (next : a.nextSlot? = some (place, generation, freed)) : place = slot := by
  obtain ⟨free, all_free⟩ := valid.free
  have taken := step.place free all_free
  rcases (nextSlot?_cases all_free next).2 with ⟨rest, rfl, _⟩ | ⟨rfl, _, rfl, _⟩
  · simpa using taken
  · simpa [eq_comm] using taken

theorem Allocates.held? (step : a.Allocates slot id b) : b.held? slot = some default := by
  simp [Arena.held?, step.put]

theorem act_allocate (valid : a.Valid) (values : List α) :
    a.act (.allocate values) = ([], a) ∨ ∃ slot id b, a.Allocates slot id b ∧ b.contains id ∧
      a.act (.allocate values) =
        (.issued id (some default) :: values.map (.wrote id), values.foldl (·.set id ·) b) := by
  unfold act
  cases next : a.nextSlot? with
  | none => exact .inl rfl
  | some found =>
    cases allocated : a.allocate with
    | none => exact .inl rfl
    | some issue =>
      obtain ⟨id, b⟩ := issue
      obtain ⟨slot, step⟩ := allocate_allocates valid allocated
      obtain rfl := step.slot_eq valid next
      have live : b.contains id := by simp [contains_eq_isSome, step.get?]
      refine .inr ⟨_, id, b, step, live, ?_⟩
      simp only [step.held?, foldl_assign step.at_slot live]

theorem Recalls.writes (before : a.Recalls h) (live : a.contains id) (values : List α) :
    (values.foldl (·.set id ·) a).Recalls (h ++ values.map (.wrote id)) := by
  induction values generalizing a h with
  | nil => simpa using before
  | cons value values ih =>
    have later := ih (before.write live value) (contains_set a id id value ▸ live)
    simpa using later

theorem Recalls.act (before : a.Recalls h) (x : Act α) (bounded : Bounded (events (h ++ (a.act x).1))) :
    (a.act x).2.Recalls (h ++ (a.act x).1) := by
  cases x with
  | allocate values =>
    rcases act_allocate before.follows.valid values with refused | ⟨slot, id, b, step, live, done⟩
    · simpa [refused] using before
    · rw [done] at bounded ⊢
      rw [List.append_cons] at bounded
      have first : Bounded (events (h ++ [.issued id (some default)])) :=
        Bounded.left (by rwa [events_append] at bounded)
      have later := (before.issue step first).writes live values
      simpa using later
  | free id =>
    cases freed : a.free? id with
    | none => simpa [Arena.act, freed] using before
    | some b =>
      obtain ⟨slot, step⟩ := free?_frees freed
      simpa [Arena.act, freed] using before.retire step
  | write id value =>
    by_cases live : a.contains id
    · simpa [Arena.act, live] using before.write live value
    · simpa [Arena.act, live] using before

theorem Recalls.through (before : a.Recalls h) (acts : List (Act α)) (bounded : Bounded (events (h ++ a.deeds acts))) :
    (a.through acts).Recalls (h ++ a.deeds acts) := by
  induction acts generalizing a h with
  | nil => simpa [deeds, Arena.through] using before
  | cons x acts ih =>
    rw [deeds, ← List.append_assoc] at bounded ⊢
    have first : Bounded (events (h ++ (a.act x).1)) := Bounded.left (by rwa [events_append] at bounded)
    exact ih (before.act x first) bounded

/-- A record is left alone by every act that is not about its own handle. -/
theorem act_get? (valid : a.Valid) (stored : a.get? id = some value) {x : Act α} (other : ¬ x.Names id) :
    (a.act x).2.get? id = some value := by
  cases x with
  | allocate values =>
    rcases act_allocate valid values with refused | ⟨slot, issued, b, step, _, done⟩
    · rwa [refused]
    · rw [done]
      have different : id ≠ issued := by
        rintro rfl
        simp [step.fresh] at stored
      rw [get?_foldl_set values different, step.get?, if_neg different, stored]
  | free freed =>
    cases removed : a.free? freed with
    | none => simpa [act, removed] using stored
    | some b =>
      obtain ⟨slot, step⟩ := free?_frees removed
      have kept : b.get? id = a.get? id := (step.get? id).trans (if_neg (Ne.symm other))
      simpa [act, removed, kept] using stored
  | write written v =>
    by_cases live : a.contains written
    · have kept : (a.set written v).get? id = a.get? id := (get?_modify ..).trans (if_neg (Ne.symm other))
      simpa [act, live, kept] using stored
    · simpa [act, live] using stored

theorem act_of_dead (dead : a.contains id = false) {x : Act α} (names : x.Names id) : a.act x = ([], a) := by
  cases x with
  | allocate values => exact names.elim
  | free freed =>
    obtain rfl : freed = id := names
    have none_freed : a.free? freed = none := by
      rw [← Option.isNone_iff_eq_none, ← Option.isSome_eq_false_iff, free?_isSome, dead]
    simp [act, none_freed]
  | write written value =>
    obtain rfl : written = id := names
    simp [act, dead]

/-- Every record that is handed out is the default one. A live handle finds what was written last under it, and no act
changes that but one that is about this handle; one about a handle that is not live does nothing at all. -/
theorem values_exact {capacity : Nat} (created : create capacity = .ok a) (acts : List (Act α))
    (bounded : ∀ slot, issuesAt (events (a.deeds acts)) slot < UInt32.size) :
    let h := a.deeds acts
    let b := a.through acts
    (∀ id record, .issued id record ∈ h → record = some default) ∧
      (∀ id, InForce (events h) id ↔ b.contains id) ∧
      (∀ id, InForce (events h) id → b.get? id = some (lastWritten h id)) ∧
      (∀ id value, b.get? id = some value → ∀ x : Act α, ¬ x.Names id → (b.act x).2.get? id = some value) ∧
      ∀ id, b.contains id = false → ∀ x : Act α, x.Names id → (b.act x).2 = b := by
  have final := (create_recalls created).through acts (by rw [List.nil_append]; exact bounded)
  rw [List.nil_append] at final
  refine ⟨final.fresh, fun id => (final.follows.inForce id).symm, ?_, ?_, ?_⟩
  · intro id force
    exact final.values id ((final.follows.inForce id).mpr force)
  · intro id value stored x other
    exact act_get? final.follows.valid stored other
  · intro id dead x names
    rw [act_of_dead dead names]

/-- One slot and two owners. The second starts from the default record, although the first wrote to the slot, and a
late write of the first does not reach it. -/
theorem values_exact_reuse :
    let a : Arena Nat := fresh 1
    let first := Id.ofParts 0 1
    let second := Id.ofParts 0 2
    let acts := [.allocate [7, 8], .write first 9, .free first, .write second 5, .allocate [], .write first 4]
    let h := [.issued first (some 0), .wrote first 7, .wrote first 8, .wrote first 9, .retired first,
      .issued second (some 0)]
    create 1 = .ok a ∧ a.deeds acts = h ∧ (∀ slot, issuesAt (events (a.deeds acts)) slot < UInt32.size) ∧
      (a.through (acts.take 2)).get? first = some 9 ∧
      (a.through acts).get? second = some 0 ∧
      ((a.through acts).act (.write first 6)).2.get? second = some 0 ∧
      ((a.through acts).act (.free first)).2 = a.through acts := by
  intro a first second acts h
  have created : create 1 = .ok a := rfl
  have run : a.deeds acts = h := by decide
  have early : a.deeds (acts.take 2) = h.take 4 := by decide
  have bounded (acts : List (Act Nat)) (few : (issues (events (a.deeds acts))).length < UInt32.size) (slot : Nat) :
      issuesAt (events (a.deeds acts)) slot < UInt32.size :=
    Nat.lt_of_le_of_lt List.countP_le_length few
  have all := bounded acts (by rw [run]; decide)
  obtain ⟨_, live, values, frame, dead⟩ := values_exact created acts all
  obtain ⟨_, _, before, _⟩ := values_exact created (acts.take 2) (bounded _ (by rw [early]; decide))
  have stored : (a.through acts).get? second = some 0 := by
    rw [values second ⟨[.issued first, .retired first], [], by rw [run]; rfl, by simp⟩, run]
    decide
  have written : (a.through (acts.take 2)).get? first = some 9 := by
    rw [before first ⟨[], [], by rw [early]; rfl, by simp⟩, early]
    decide
  have stale : (a.through acts).contains first = false := by decide
  have different : first ≠ second := by decide
  exact ⟨created, run, all, written, stored, frame second 0 stored (.write first 6) different,
    dead first stale (.free first) rfl⟩

end VectorGraph.Arena
