import VectorGraph.Proofs.Arena

/-! Runs of an arena, and which handles are in force after them. A slot that is taken again never brings
back one of its earlier handles, since no generation comes twice before the 32-bit counter is used up. -/
namespace VectorGraph.Arena

variable {α : Type}

inductive Use (α : Type) where
  | allocate
  | free (id : Id)
  | write (id : Id) (value : α)

inductive Event where
  | issued (id : Id)
  | retired (id : Id)
deriving DecidableEq

/-- A full arena issues nothing, and a handle that names no record retires nothing. -/
def use [Inhabited α] (a : Arena α) : Use α → Option Event × Arena α
  | .allocate =>
    match a.allocate with
    | some (id, b) => (some (.issued id), b)
    | none => (none, a)
  | .free id =>
    match a.free? id with
    | some b => (some (.retired id), b)
    | none => (none, a)
  | .write id value => (none, a.set id value)

def after [Inhabited α] (a : Arena α) : List (Use α) → Arena α
  | [] => a
  | u :: uses => (a.use u).2.after uses

def history [Inhabited α] (a : Arena α) : List (Use α) → List Event
  | [] => []
  | u :: uses => (a.use u).1.toList ++ (a.use u).2.history uses

def Event.issued? : Event → Option Id
  | .issued id => some id
  | .retired _ => none

def issues (h : List Event) : List Id := h.filterMap Event.issued?

def issuesAt (h : List Event) (slot : Nat) : Nat := (issues h).countP (·.slot? == some slot)

/-- A handle is in force once it was issued, as long as it was not retired since. -/
def InForce (h : List Event) (id : Id) : Prop :=
  ∃ earlier later, h = earlier ++ .issued id :: later ∧ .retired id ∉ later

@[simp] theorem issues_append (h k : List Event) : issues (h ++ k) = issues h ++ issues k :=
  List.filterMap_append ..

@[simp] theorem issuesAt_append (h k : List Event) (slot : Nat) :
    issuesAt (h ++ k) slot = issuesAt h slot + issuesAt k slot := by
  simp [issuesAt]

theorem not_inForce_nil (id : Id) : ¬ InForce [] id := by
  rintro ⟨earlier, later, split, _⟩
  simp at split

theorem InForce.mem {h : List Event} {id : Id} (force : InForce h id) : .issued id ∈ h := by
  obtain ⟨earlier, later, rfl, _⟩ := force
  simp

theorem inForce_concat (h : List Event) (e : Event) (id : Id) :
    InForce (h ++ [e]) id ↔ e = .issued id ∨ (e ≠ .retired id ∧ InForce h id) := by
  constructor
  · rintro ⟨earlier, later, split, kept⟩
    rcases List.eq_nil_or_concat later with rfl | ⟨rest, last, rfl⟩
    · exact .inl (List.singleton_inj.mp (List.append_inj' split rfl).2)
    · have same : h = earlier ++ .issued id :: rest ∧ [e] = [last] :=
        List.append_inj' (by simpa using split) rfl
      obtain rfl : e = last := List.singleton_inj.mp same.2
      refine .inr ⟨?_, earlier, rest, same.1, fun member => kept (by simp [member])⟩
      rintro rfl
      exact kept (by simp)
  · rintro (rfl | ⟨other, earlier, later, rfl, kept⟩)
    · exact ⟨h, [], rfl, by simp⟩
    · exact ⟨earlier, later ++ [e], by simp, by simp [kept, Ne.symm other]⟩

theorem inForce_issued (h : List Event) (id other : Id) :
    InForce (h ++ [.issued other]) id ↔ id = other ∨ InForce h id := by
  simp [inForce_concat, eq_comm]

theorem inForce_retired (h : List Event) (id other : Id) :
    InForce (h ++ [.retired other]) id ↔ id ≠ other ∧ InForce h id := by
  simp [inForce_concat, eq_comm]

/-- An arena together with the history that led to it. Generations count issues, so a handle issued next
carries a generation that its slot has never had. -/
structure Follows (a : Arena α) (h : List Event) : Prop where
  valid : a.Valid
  generations : ∀ slot, a.generationAt slot = issuesAt h slot
  issued : ∀ id ∈ issues h, ∃ slot, id.slot? = some slot ∧ id.generation ≤ issuesAt h slot
  distinct : (issues h).Nodup
  inForce : ∀ id, a.contains id ↔ InForce h id

theorem create_follows {capacity : Nat} {a : Arena α} (created : create capacity = .ok a) :
    a.Follows [] := by
  obtain ⟨⟨_, bound⟩, rfl⟩ := create_eq_ok_iff.mp created
  refine ⟨fresh_valid bound, by simp [fresh, generationAt, issuesAt, issues], by simp [issues], .nil, ?_⟩
  intro id
  simp [contains_eq_isSome, not_inForce_nil]

theorem Follows.issue [Inhabited α] {a b : Arena α} {h : List Event} {slot : Nat} {id : Id}
    (before : a.Follows h) (step : a.Allocates slot id b)
    (bounded : issuesAt (h ++ [.issued id]) slot < UInt32.size) : b.Follows (h ++ [.issued id]) := by
  have counts (i : Nat) : issuesAt (h ++ [.issued id]) i = issuesAt h i + if i = slot then 1 else 0 := by
    simp only [issuesAt_append]
    congr 1
    by_cases here : i = slot
    · simp [issuesAt, issues, Event.issued?, step.at_slot, here]
    · simp [issuesAt, issues, Event.issued?, step.at_slot, Ne.symm here, here]
  -- The bound keeps the counter away from its end, where it would start again.
  have generation : id.generation = issuesAt h slot + 1 := by
    rw [counts, if_pos rfl] at bounded
    rw [step.generation, before.generations, nextGeneration, if_pos bounded]
  have fresh : id ∉ issues h := by
    intro member
    obtain ⟨place, at_place, below⟩ := before.issued id member
    obtain rfl : slot = place := Option.some.inj (step.at_slot.symm.trans at_place)
    omega
  refine ⟨step.valid before.valid, ?_, ?_, ?_, ?_⟩
  · intro i
    rw [step.generationAt, counts]
    split
    · rename_i here
      rw [generation, here]
    · exact before.generations i
  · intro other member
    simp only [issues_append, List.mem_append] at member
    rcases member with member | member
    · obtain ⟨place, at_place, below⟩ := before.issued other member
      exact ⟨place, at_place, by rw [counts]; omega⟩
    · obtain rfl : other = id := by simpa [issues, Event.issued?] using member
      exact ⟨slot, step.at_slot, by rw [counts, if_pos rfl]; omega⟩
  · rw [issues_append, List.nodup_append]
    refine ⟨before.distinct, by simp [issues, Event.issued?], ?_⟩
    rintro x member y last rfl
    obtain rfl : x = id := by simpa [issues, Event.issued?] using last
    exact fresh member
  · intro other
    rw [inForce_issued, ← before.inForce, contains_eq_isSome, contains_eq_isSome, step.get?]
    split <;> simp_all

theorem Follows.retire {a b : Arena α} {h : List Event} {slot : Nat} {id : Id}
    (before : a.Follows h) (step : a.Frees slot id b) : b.Follows (h ++ [.retired id]) := by
  have same : issues (h ++ [.retired id]) = issues h := by simp [issues, Event.issued?]
  have counts (i : Nat) : issuesAt (h ++ [.retired id]) i = issuesAt h i := by simp only [issuesAt, same]
  refine ⟨step.valid before.valid, ?_, ?_, same ▸ before.distinct, ?_⟩
  · intro i
    rw [step.generationAt, counts, before.generations]
  · intro other member
    rw [same] at member
    obtain ⟨place, at_place, below⟩ := before.issued other member
    exact ⟨place, at_place, by rw [counts]; exact below⟩
  · intro other
    rw [inForce_retired, ← before.inForce, contains_eq_isSome, contains_eq_isSome, step.get?]
    split <;> simp_all

theorem Follows.modify {a : Arena α} {h : List Event} (before : a.Follows h) (id : Id) (f : α → α) :
    (a.modify id f).Follows h := by
  refine ⟨before.valid.modify .., ?_, before.issued, before.distinct, ?_⟩
  · intro slot
    rw [generationAt_modify, before.generations]
  · intro other
    rw [← before.inForce, contains_eq_isSome, contains_eq_isSome, get?_modify]
    split <;> simp

/-- No slot is issued once for every value of its counter. -/
def Bounded (h : List Event) : Prop := ∀ slot, issuesAt h slot < UInt32.size

theorem Bounded.left {h more : List Event} (bounded : Bounded (h ++ more)) : Bounded h := by
  intro slot
  have whole := bounded slot
  rw [issuesAt_append] at whole
  omega

/-- What a step adds to the history of an arena. -/
def Continues (a : Arena α) (events : List Event) (b : Arena α) : Prop :=
  ∀ h, a.Follows h → Bounded (h ++ events) → b.Follows (h ++ events)

theorem continues_refl (a : Arena α) : a.Continues [] a := by
  intro h before _
  rwa [List.append_nil]

theorem Continues.trans {a b c : Arena α} {events more : List Event} (first : a.Continues events b)
    (second : b.Continues more c) : a.Continues (events ++ more) c := by
  intro h before bounded
  rw [← List.append_assoc] at bounded ⊢
  exact second _ (first h before bounded.left) bounded

theorem Allocates.continues [Inhabited α] {a b : Arena α} {slot : Nat} {id : Id} (step : a.Allocates slot id b) :
    a.Continues [.issued id] b :=
  fun _ before bounded => before.issue step (bounded slot)

theorem Frees.continues {a b : Arena α} {slot : Nat} {id : Id} (step : a.Frees slot id b) :
    a.Continues [.retired id] b :=
  fun _ before _ => before.retire step

theorem continues_modify (a : Arena α) (id : Id) (f : α → α) : a.Continues [] (a.modify id f) := by
  intro h before _
  rw [List.append_nil]
  exact before.modify id f

theorem Follows.use [Inhabited α] {a : Arena α} {h : List Event} (before : a.Follows h) (u : Use α)
    (bounded : ∀ slot, issuesAt (h ++ (a.use u).1.toList) slot < UInt32.size) :
    (a.use u).2.Follows (h ++ (a.use u).1.toList) := by
  cases u with
  | allocate =>
    cases allocated : a.allocate with
    | none => simpa [Arena.use, allocated] using before
    | some issue =>
      obtain ⟨slot, step⟩ := allocate_allocates before.valid allocated
      simp only [Arena.use, allocated, Option.toList_some] at bounded ⊢
      exact before.issue step (bounded slot)
  | free id =>
    cases freed : a.free? id with
    | none => simpa [Arena.use, freed] using before
    | some b =>
      obtain ⟨slot, step⟩ := free?_frees freed
      simp only [Arena.use, freed, Option.toList_some]
      exact before.retire step
  | write id value => simpa [Arena.use, set] using before.modify id fun _ => value

/-- Runs keep generations in step with their history, as long as no slot is issued once for every value of
its counter. -/
theorem Follows.after [Inhabited α] {a : Arena α} {h : List Event} (before : a.Follows h)
    (uses : List (Use α)) (bounded : ∀ slot, issuesAt (h ++ a.history uses) slot < UInt32.size) :
    (a.after uses).Follows (h ++ a.history uses) := by
  induction uses generalizing a h with
  | nil => simpa [history, Arena.after] using before
  | cons u uses ih =>
    have first : ∀ slot, issuesAt (h ++ (a.use u).1.toList) slot < UInt32.size :=
      Bounded.left (by rwa [history, ← List.append_assoc] at bounded)
    have rest := ih (before.use u first) (by simpa [history, List.append_assoc] using bounded)
    simpa [history, Arena.after, List.append_assoc] using rest

/-- Handles are never null and never issued twice, and each lookup or removal takes exactly the handles in
force. -/
theorem handles_exact [Inhabited α] {capacity : Nat} {a : Arena α} (created : create capacity = .ok a)
    (uses : List (Use α)) (bounded : ∀ slot, issuesAt (a.history uses) slot < UInt32.size) :
    (∀ id ∈ issues (a.history uses), id ≠ .null) ∧ (issues (a.history uses)).Nodup ∧
      ∀ id, ((a.after uses).contains id ↔ InForce (a.history uses) id) ∧
        (((a.after uses).get? id).isSome ↔ InForce (a.history uses) id) ∧
        (((a.after uses).free? id).isSome ↔ InForce (a.history uses) id) := by
  have final := (create_follows created).after uses (by simpa using bounded)
  rw [List.nil_append] at final
  refine ⟨?_, final.distinct, ?_⟩
  · intro id member
    obtain ⟨slot, at_slot, _⟩ := final.issued id member
    exact Id.ne_null_of_slot? at_slot
  · intro id
    refine ⟨final.inForce id, ?_, ?_⟩
    · rw [← contains_eq_isSome]
      exact final.inForce id
    · rw [free?_isSome]
      exact final.inForce id

/-- One slot, issued twice: the first handle is refused, also when it is removed a second time, and so is one
whose generation was never issued. -/
theorem handles_exact_reuse :
    let a : Arena Nat := fresh 1
    let first := Id.ofParts 0 1
    let second := Id.ofParts 0 2
    let uses := [.allocate, .write first 7, .free first, .free first, .allocate, .allocate]
    create 1 = .ok a ∧ a.history uses = [.issued first, .retired first, .issued second] ∧
      (∀ slot, issuesAt (a.history uses) slot < UInt32.size) ∧ first ≠ second ∧
      (a.after uses).contains second ∧ ¬ (a.after uses).contains first ∧
      ¬ ((a.after uses).free? (.ofParts 0 3)).isSome := by
  intro a first second uses
  have run : a.history uses = [.issued first, .retired first, .issued second] := by decide
  have bounded : ∀ slot, issuesAt (a.history uses) slot < UInt32.size := by
    intro slot
    exact Nat.lt_of_le_of_lt List.countP_le_length (by rw [run]; decide)
  have created : create 1 = .ok a := rfl
  obtain ⟨_, _, inForce⟩ := handles_exact created uses bounded
  refine ⟨rfl, run, bounded, by decide, ?_, ?_, ?_⟩
  · exact (inForce second).1.mpr ⟨[.issued first, .retired first], [], run, by simp⟩
  · intro held
    have force := (inForce first).1.mp held
    rw [run] at force
    rcases (inForce_issued [.issued first, .retired first] first second).mp force with same | force
    · exact absurd same (by decide)
    · exact ((inForce_retired [.issued first] first first).mp force).1 rfl
  · intro held
    have member := ((inForce (.ofParts 0 3)).2.2.mp held).mem
    rw [run] at member
    exact absurd member (by decide)

end VectorGraph.Arena
