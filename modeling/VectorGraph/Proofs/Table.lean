import Mathlib.Data.List.Basic
import VectorGraph.Table
import VectorGraph.Proofs.Arena.History

/-! The creation order of a table holds its live handles, each once, so it has room whenever the arena has,
and a walk meets every handle without passing over any. -/
namespace VectorGraph

@[simp] theorem Ref.id_inj {kind : Kind} {a b : Ref kind} : a.id = b.id ↔ a = b := by
  cases a; cases b; simp

namespace Table

variable {kind : Kind} {α : Type}

/-- The creation order lists exactly the live handles, but for those that `apart` holds back. -/
structure Ordered (t : Table kind α) (apart : List (Ref kind)) : Prop where
  records : t.records.Valid
  capacity : t.order.capacity = t.records.capacity
  size : t.order.refs.size + apart.length = t.records.size
  nodup : t.order.refs.toList.Nodup
  live : ∀ ref, ref ∈ t.order.refs.toList ↔ t.contains ref ∧ ref ∉ apart

abbrev Valid (t : Table kind α) : Prop := t.Ordered []

theorem contains_eq_isSome (t : Table kind α) (ref : Ref kind) : t.contains ref = (t.get? ref).isSome :=
  t.records.contains_eq_isSome ref.id

theorem contains_iff {t : Table kind α} {ref : Ref kind} : t.contains ref ↔ ∃ r, t.get? ref = some r := by
  rw [contains_eq_isSome, Option.isSome_iff_exists]

/-- No record answers to the null handle. -/
theorem ne_null_of_contains {t : Table kind α} {ref : Ref kind} (live : t.contains ref) : ref.id ≠ .null := by
  obtain ⟨r, stored⟩ := contains_iff.mp live
  obtain ⟨slot, at_slot, _⟩ := Arena.get?_eq_some_iff.mp stored
  exact Id.ne_null_of_slot? at_slot

def fresh (capacity : Nat) : Table kind α := ⟨.fresh capacity, .create capacity⟩

theorem create_eq_ok_iff {capacity : Nat} {t : Table kind α} : create capacity = .ok t ↔
    (0 < capacity ∧ capacity < UInt32.size) ∧ t = fresh capacity := by
  unfold create
  constructor
  · intro created
    cases stored : Arena.create (α := α) capacity with
    | error => simp [stored] at created
    | ok records =>
      simp only [stored, Except.ok.injEq] at created
      obtain ⟨accepted, rfl⟩ := Arena.create_eq_ok_iff.mp stored
      exact ⟨accepted, created.symm⟩
  · rintro ⟨accepted, rfl⟩
    rw [Arena.create_eq_ok_iff.mpr ⟨accepted, rfl⟩]
    rfl

@[simp] theorem fresh_get? (capacity : Nat) (ref : Ref kind) :
    (fresh capacity : Table kind α).get? ref = none := Arena.fresh_get? ..

theorem fresh_valid {capacity : Nat} (bound : capacity < UInt32.size) :
    (fresh capacity : Table kind α).Valid := by
  refine ⟨Arena.fresh_valid bound, rfl, rfl, .nil, ?_⟩
  intro ref
  rw [contains_eq_isSome, fresh_get?]
  simp [fresh, CreationOrder.create]

theorem Ordered.refs_eq {t : Table kind α} {apart : List (Ref kind)} (valid : t.Ordered apart) :
    t.refs = t.order.refs.toList := by
  apply List.filter_eq_self.mpr
  intro ref member
  exact ((valid.live ref).mp member).1

theorem Ordered.nodup_refs {t : Table kind α} {apart : List (Ref kind)} (valid : t.Ordered apart) :
    t.refs.Nodup := by
  rw [valid.refs_eq]
  exact valid.nodup

theorem Ordered.mem_refs {t : Table kind α} (valid : t.Valid) {ref : Ref kind} :
    ref ∈ t.refs ↔ t.contains ref := by
  rw [valid.refs_eq, valid.live]
  simp

theorem Ordered.length_refs {t : Table kind α} (valid : t.Valid) : t.refs.length = t.size := by
  rw [valid.refs_eq, Array.length_toList]
  exact valid.size

@[simp] theorem order_modify (t : Table kind α) (ref : Ref kind) (f : α → α) :
    (t.modify ref f).order = t.order := rfl

@[simp] theorem size_modify (t : Table kind α) (ref : Ref kind) (f : α → α) :
    (t.modify ref f).size = t.size := Arena.size_modify ..

@[simp] theorem capacity_modify (t : Table kind α) (ref : Ref kind) (f : α → α) :
    (t.modify ref f).capacity = t.capacity := Arena.capacity_modify ..

theorem get?_modify (t : Table kind α) (ref other : Ref kind) (f : α → α) :
    (t.modify ref f).get? other = if other = ref then (t.get? other).map f else t.get? other := by
  simp only [get?, modify, Arena.get?_modify, Ref.id_inj]

@[simp] theorem contains_modify (t : Table kind α) (ref other : Ref kind) (f : α → α) :
    (t.modify ref f).contains other = t.contains other := by
  rw [contains_eq_isSome, contains_eq_isSome, get?_modify]
  split <;> simp

theorem Ordered.modify {t : Table kind α} {apart : List (Ref kind)} (valid : t.Ordered apart)
    (ref : Ref kind) (f : α → α) : (t.modify ref f).Ordered apart where
  records := valid.records.modify ref.id f
  capacity := valid.capacity.trans (Arena.capacity_modify ..).symm
  size := valid.size.trans (Arena.size_modify ..).symm
  nodup := valid.nodup
  live := by simpa using valid.live

/-- A table whose records differ only in what `view` does not show. -/
structure Similar {β : Type} (view : α → β) (t u : Table kind α) : Prop where
  ordered : ∀ apart, t.Ordered apart → u.Ordered apart
  order : u.order = t.order
  size : u.size = t.size
  capacity : u.capacity = t.capacity
  view : ∀ ref, (u.get? ref).map view = (t.get? ref).map view
  history : t.records.Continues [] u.records

variable {β : Type} {view : α → β}

theorem Similar.refl (t : Table kind α) : t.Similar view t :=
  ⟨fun _ valid => valid, rfl, rfl, rfl, fun _ => rfl, Arena.continues_refl _⟩

theorem Similar.trans {t u v : Table kind α} (first : t.Similar view u) (second : u.Similar view v) :
    t.Similar view v where
  ordered := fun apart valid => second.ordered apart (first.ordered apart valid)
  order := second.order.trans first.order
  size := second.size.trans first.size
  capacity := second.capacity.trans first.capacity
  view := fun ref => (second.view ref).trans (first.view ref)
  history := first.history.trans second.history

theorem similar_modify (t : Table kind α) (ref : Ref kind) {f : α → α} (hidden : ∀ a, view (f a) = view a) :
    t.Similar view (t.modify ref f) where
  ordered := fun _ valid => valid.modify ref f
  order := rfl
  size := size_modify ..
  capacity := capacity_modify ..
  view := by
    intro other
    rw [get?_modify]
    split <;> simp [Function.comp_def, hidden]
  history := Arena.continues_modify _ _ _

theorem Similar.contains {t u : Table kind α} (same : t.Similar view u) (ref : Ref kind) :
    u.contains ref = t.contains ref := by
  have := congrArg Option.isSome (same.view ref)
  simpa [contains_eq_isSome] using this

theorem Similar.find {t u : Table kind α} (same : t.Similar view u) {ref : Ref kind} {r : α}
    (stored : u.get? ref = some r) : ∃ s, t.get? ref = some s ∧ view s = view r := by
  have shown := same.view ref
  rw [stored] at shown
  exact Option.map_eq_some_iff.mp shown.symm

theorem Similar.refs {t u : Table kind α} (same : t.Similar view u) : u.refs = t.refs := by
  have live : u.contains = t.contains := funext same.contains
  simp only [Table.refs, same.order, live]

theorem ne_of_fresh {t : Table kind α} (valid : t.Valid) {ref other : Ref kind} (fresh : t.get? ref = none)
    (listed : other ∈ t.refs) : other ≠ ref := by
  rintro rfl
  have live := valid.mem_refs.mp listed
  simp [contains_eq_isSome, fresh] at live

/-- What storing a record does, before the creation order knows of it. -/
structure Stores (t : Table kind α) (ref : Ref kind) (value : α) (u : Table kind α) : Prop where
  fresh : t.get? ref = none
  get? : ∀ other, u.get? other = if other = ref then some value else t.get? other
  order : u.order = t.order
  size : u.size = t.size + 1
  capacity : u.capacity = t.capacity
  ordered : u.Ordered [ref]
  history : t.records.Continues [.issued ref.id] u.records

theorem allocate?_eq_none_iff [Inhabited α] {t : Table kind α} (valid : t.Valid) (make : Ref kind → α) :
    t.allocate? make = none ↔ t.size = t.capacity := by
  rw [size, capacity, ← Arena.allocate_eq_none_iff valid.records]
  unfold allocate?
  cases t.records.allocate <;> simp

theorem allocate?_stores [Inhabited α] {t u : Table kind α} {make : Ref kind → α} {ref : Ref kind}
    (valid : t.Valid) (stored : t.allocate? make = some (ref, u)) : t.Stores ref (make ref) u := by
  unfold allocate? at stored
  cases allocated : t.records.allocate with
  | none => simp [allocated] at stored
  | some issue =>
    obtain ⟨id, records⟩ := issue
    simp only [allocated, Option.some.injEq, Prod.mk.injEq] at stored
    obtain ⟨rfl, rfl⟩ := stored
    obtain ⟨slot, step⟩ := Arena.allocate_allocates valid.records allocated
    have lookup (other : Ref kind) : (records.set id (make ⟨id⟩)).get? other.id =
        if other = ⟨id⟩ then some (make ⟨id⟩) else t.records.get? other.id := by
      simp only [Arena.set, Arena.get?_modify, step.get?, ← Ref.id_inj]
      split <;> simp
    have fresh : t.get? ⟨id⟩ = none := step.fresh
    refine ⟨fresh, lookup, rfl, ?_, ?_, ⟨?_, ?_, ?_, valid.nodup, ?_⟩, ?_⟩
    · exact (Arena.size_modify ..).trans step.size
    · exact (Arena.capacity_modify ..).trans step.capacity
    · exact (step.valid valid.records).modify id _
    · exact valid.capacity.trans ((Arena.capacity_modify ..).trans step.capacity).symm
    · have size := valid.size
      simp only [Arena.set, Arena.size_modify, step.size, List.length_cons, List.length_nil] at *
      omega
    · intro other
      rw [valid.live, contains_eq_isSome, contains_eq_isSome]
      simp only [get?, lookup, List.not_mem_nil, not_false_eq_true, and_true, List.mem_singleton]
      by_cases same : other = ⟨id⟩
      · subst same
        simpa [get?] using fresh
      · simp [same]
    · exact step.continues.trans (Arena.continues_modify _ _ _)

/-- The creation order has room for every record that the arena has stored. -/
theorem Ordered.record? {t : Table kind α} {ref : Ref kind} (valid : t.Ordered [ref])
    (stored : t.contains ref) : ∃ u, t.record? ref = some u ∧ u.Valid ∧ u.records = t.records ∧
      u.order.refs = t.order.refs.push ref := by
  have room : t.order.refs.size < t.order.capacity := by
    have size := valid.size
    have bound := valid.records.size_le
    rw [valid.capacity]
    simp only [List.length_cons, List.length_nil] at size
    omega
  refine ⟨{ t with order := { t.order with refs := t.order.refs.push ref } }, ?_, ?_, rfl, rfl⟩
  · simp [Table.record?, CreationOrder.push?, room]
  · refine ⟨valid.records, valid.capacity, ?_, ?_, ?_⟩
    · have size := valid.size
      simpa using size
    · simp only [Array.toList_push, List.nodup_append, valid.nodup, true_and]
      refine ⟨by simp, ?_⟩
      rintro other member last same rfl
      obtain rfl : other = ref := by simpa using same
      exact ((valid.live other).mp member).2 (by simp)
    · intro other
      simp only [Array.toList_push, List.mem_append, valid.live, List.mem_singleton]
      by_cases same : other = ref
      · subst same
        simpa [contains] using stored
      · simp [same, contains]

/-- The creation order takes what the arena has taken, also when the records have been relinked since. -/
theorem Stores.record? {t u v : Table kind α} {ref : Ref kind} {value : α} (step : t.Stores ref value u)
    (same : u.Similar view v) : ∃ w, v.record? ref = some w ∧ w.Valid ∧ w.records = v.records ∧
      w.order.refs = v.order.refs.push ref := by
  have live : v.contains ref := by
    rw [same.contains, contains_eq_isSome, step.get?, if_pos rfl]
    rfl
  exact (same.ordered _ step.ordered).record? live

/-- What adding a record does. -/
structure Inserts (t : Table kind α) (ref : Ref kind) (value : α) (u : Table kind α) : Prop where
  valid : u.Valid
  fresh : t.get? ref = none
  get? : ∀ other, u.get? other = if other = ref then some value else t.get? other
  refs : u.refs = t.refs ++ [ref]
  size : u.size = t.size + 1
  capacity : u.capacity = t.capacity
  history : t.records.Continues [.issued ref.id] u.records

theorem Inserts.contains {t u : Table kind α} {ref : Ref kind} {value : α} (step : t.Inserts ref value u)
    (other : Ref kind) : u.contains other ↔ other = ref ∨ t.contains other := by
  rw [contains_eq_isSome, contains_eq_isSome, step.get?]
  split <;> simp_all

theorem Inserts.absent {t u : Table kind α} {ref : Ref kind} {value : α} (step : t.Inserts ref value u) :
    t.contains ref = false := by
  rw [contains_eq_isSome, step.fresh, Option.isSome_none]

theorem insert_cases [Inhabited α] {t : Table kind α} (valid : t.Valid) (make : Ref kind → α) :
    (t.insert make = (none, t) ∧ t.size = t.capacity) ∨
      ∃ ref u, t.insert make = (some ref, u) ∧ t.Inserts ref (make ref) u := by
  unfold insert
  cases stored : t.allocate? make with
  | none => exact .inl ⟨rfl, (allocate?_eq_none_iff valid make).mp stored⟩
  | some found =>
    obtain ⟨ref, stored'⟩ := found
    have step := allocate?_stores valid stored
    have same : stored'.Similar id stored' := .refl stored'
    obtain ⟨u, recorded, final, records, order⟩ := step.record? same
    refine .inr ⟨ref, u, by simp [recorded], final, step.fresh, ?_, ?_, ?_, ?_, records ▸ step.history⟩
    · intro other
      rw [← step.get? other, Table.get?, Table.get?, records]
    · rw [final.refs_eq, valid.refs_eq, order, step.order, Array.toList_push]
    · rw [← step.size, Table.size, Table.size, records]
    · rw [← step.capacity, Table.capacity, Table.capacity, records]

theorem release?_isSome (t : Table kind α) (ref : Ref kind) :
    (t.release? ref).isSome = t.contains ref := by
  rw [contains, ← Arena.free?_isSome]
  unfold release?
  cases t.records.free? ref.id <;> rfl

theorem release?_eq_none_iff {t : Table kind α} {ref : Ref kind} :
    t.release? ref = none ↔ t.contains ref = false := by
  rw [← release?_isSome, Option.isSome_eq_false_iff, Option.isNone_iff_eq_none]

/-- What removing a record does. -/
structure Erases (t : Table kind α) (ref : Ref kind) (u : Table kind α) : Prop where
  valid : u.Valid
  get? : ∀ other, u.get? other = if other = ref then none else t.get? other
  refs : u.refs = t.refs.filter (· != ref)
  size : u.size + 1 = t.size
  capacity : u.capacity = t.capacity
  history : t.records.Continues [.retired ref.id] u.records

theorem Erases.get?_of_mem {t u : Table kind α} {ref other : Ref kind} (step : t.Erases ref u)
    (listed : other ∈ u.refs) : u.get? other = t.get? other := by
  rw [step.refs, List.mem_filter, bne_iff_ne] at listed
  rw [step.get?, if_neg listed.2]

theorem release?_erases {t u : Table kind α} {ref : Ref kind} (valid : t.Valid)
    (released : t.release? ref = some u) : t.Erases ref (u.forget ref) := by
  have live : t.contains ref := by
    rw [← release?_isSome, released]
    rfl
  unfold release? at released
  cases freed : t.records.free? ref.id with
  | none => simp [freed] at released
  | some records =>
    simp only [freed, Option.some.injEq] at released
    subst released
    obtain ⟨slot, step⟩ := Arena.free?_frees freed
    have order : (t.order.refs.erase ref).toList = t.order.refs.toList.filter (· != ref) := by
      have listed : t.order.refs.erase ref = (t.order.refs.toList.erase ref).toArray := by
        rw [← List.erase_toArray, Array.toArray_toList]
      rw [listed, valid.nodup.erase_eq_filter]
    have lookup (other : Ref kind) : records.get? other.id =
        if other = ref then none else t.records.get? other.id := by
      simp only [step.get?, Ref.id_inj]
    have size : records.size + 1 = t.records.size := by
      have positive := step.size_pos valid.records
      rw [step.size]
      omega
    have final : (({ t with records } : Table kind α).forget ref).Valid := by
      refine ⟨step.valid valid.records, valid.capacity.trans step.capacity.symm, ?_, ?_, ?_⟩
      · have listed : ref ∈ t.order.refs := by
          rw [← Array.mem_toList_iff, valid.live]
          exact ⟨live, by simp⟩
        have positive : 0 < t.order.refs.size := Array.size_pos_of_mem listed
        have sizes := valid.size
        simp only [forget, CreationOrder.erase, Array.size_erase_of_mem listed, List.length_nil] at *
        omega
      · simp only [forget, CreationOrder.erase, order]
        exact valid.nodup.filter _
      · intro other
        simp only [forget, CreationOrder.erase, order, List.mem_filter, valid.live]
        simp only [contains_eq_isSome, Table.get?, lookup]
        by_cases same : other = ref <;> simp [same]
    refine ⟨final, lookup, ?_, size, step.capacity, step.continues⟩
    rw [final.refs_eq, valid.refs_eq]
    exact order

theorem erase?_cases {t : Table kind α} (valid : t.Valid) (ref : Ref kind) :
    (t.erase? ref = none ∧ t.contains ref = false) ∨
      ∃ u, t.erase? ref = some u ∧ t.contains ref ∧ t.Erases ref u := by
  unfold erase?
  cases released : t.release? ref with
  | none => exact .inl ⟨rfl, release?_eq_none_iff.mp released⟩
  | some u =>
    refine .inr ⟨_, rfl, ?_, release?_erases valid released⟩
    rw [← release?_isSome, released]
    rfl

/-- The live records, oldest first, as far as `view` shows them. -/
def rows (view : α → β) (t : Table kind α) : List β :=
  t.refs.filterMap fun ref => (t.get? ref).map view

/-- Every record bears its own handle. -/
def Labelled (label : α → Ref kind) (t : Table kind α) : Prop := ∀ ref r, t.get? ref = some r → label r = ref

theorem Inserts.labelled {t u : Table kind α} {label : α → Ref kind} {ref : Ref kind} {value : α}
    (step : t.Inserts ref value u) (before : t.Labelled label) (own : label value = ref) :
    u.Labelled label := by
  intro other r stored
  rw [step.get?] at stored
  split at stored
  · rename_i new
    rw [new, ← own, Option.some.inj stored]
  · exact before other r stored

theorem Erases.labelled {t u : Table kind α} {label : α → Ref kind} {ref : Ref kind} (step : t.Erases ref u)
    (before : t.Labelled label) : u.Labelled label := by
  intro other r stored
  rw [step.get?] at stored
  split at stored
  · simp at stored
  · exact before other r stored

theorem values_eq_rows (t : Table kind α) : t.values = t.rows id := by
  simp [values, rows]

theorem mem_rows {t : Table kind α} (valid : t.Valid) {b : β} :
    b ∈ t.rows view ↔ ∃ ref r, t.get? ref = some r ∧ view r = b := by
  simp only [rows, List.mem_filterMap, Option.map_eq_some_iff]
  constructor
  · rintro ⟨ref, _, r, stored, rfl⟩
    exact ⟨ref, r, stored, rfl⟩
  · rintro ⟨ref, r, stored, rfl⟩
    exact ⟨ref, valid.mem_refs.mpr (contains_iff.mpr ⟨r, stored⟩), r, stored, rfl⟩

theorem map_rows {t : Table kind α} (valid : t.Valid) {label : β → Ref kind}
    (labelled : t.Labelled fun r => label (view r)) : (t.rows view).map label = t.refs := by
  have each : ∀ ref ∈ t.refs, (t.get? ref).map (fun r => label (view r)) = some ref := by
    intro ref member
    obtain ⟨r, stored⟩ := contains_iff.mp (valid.mem_refs.mp member)
    simp [stored, labelled ref r stored]
  simp only [rows, List.map_filterMap, Option.map_map, Function.comp_def]
  exact (List.filterMap_congr each).trans List.filterMap_some

/-- Handles picked by their records are the handles of the rows picked alike. -/
theorem filter_refs {t : Table kind α} {label : β → Ref kind} (labelled : t.Labelled fun r => label (view r))
    (keep : β → Bool) :
    (t.refs.filter fun ref => (t.get? ref).any fun r => keep (view r)) =
      ((t.rows view).filter keep).map label := by
  rw [rows, List.filter_filterMap, List.map_filterMap, ← List.filterMap_eq_filter]
  apply List.filterMap_congr
  intro ref _
  cases stored : t.get? ref with
  | none => simp [Option.guard, stored]
  | some r =>
    have own := labelled ref r stored
    by_cases kept : keep (view r) <;> simp [Option.guard, Option.filter, stored, kept, own]

theorem rows_append {t u : Table kind α} {ref : Ref kind} {b : β} (refs : u.refs = t.refs ++ [ref])
    (old : ∀ other ∈ t.refs, (u.get? other).map view = (t.get? other).map view)
    (new : (u.get? ref).map view = some b) : u.rows view = t.rows view ++ [b] := by
  simp only [rows, refs, List.filterMap_append, List.filterMap_cons, new, List.filterMap_nil]
  rw [List.filterMap_congr old]

theorem rows_filter {t u : Table kind α} {label : β → Ref kind} {keep : Ref kind → Bool}
    (labelled : t.Labelled fun r => label (view r)) (refs : u.refs = t.refs.filter keep)
    (old : ∀ ref ∈ u.refs, (u.get? ref).map view = (t.get? ref).map view) :
    u.rows view = (t.rows view).filter fun b => keep (label b) := by
  rw [rows, List.filterMap_congr old, refs, rows, List.filterMap_filter, List.filter_filterMap]
  apply List.filterMap_congr
  intro ref _
  cases stored : t.get? ref with
  | none => simp
  | some r => simp [labelled ref r stored, Option.filter]

theorem Inserts.values {t u : Table kind α} {ref : Ref kind} {value : α} (valid : t.Valid)
    (step : t.Inserts ref value u) : u.values = t.values ++ [value] := by
  rw [values_eq_rows, values_eq_rows]
  apply rows_append step.refs
  · intro other listed
    rw [step.get?, if_neg (ne_of_fresh valid step.fresh listed)]
  · simp [step.get?]

theorem Erases.values {t u : Table kind α} {label : α → Ref kind} {ref : Ref kind} (step : t.Erases ref u)
    (labelled : t.Labelled label) : u.values = t.values.filter (label · != ref) := by
  rw [values_eq_rows, values_eq_rows]
  apply rows_filter labelled step.refs
  intro other listed
  rw [step.get?_of_mem listed]

/-- Every recorded handle is live, so none is passed over. -/
theorem next_eq {t : Table kind α} (valid : t.Valid) (place : Nat) :
    t.next place = (t.refs[place]?, if place < t.size then place + 1 else place) := by
  have size := valid.length_refs
  rw [valid.refs_eq, Array.length_toList] at size
  rw [valid.refs_eq, ← size, next]
  split
  · rename_i within
    have live : t.contains t.order.refs[place] :=
      ((valid.live _).mp (Array.mem_toList_iff.mpr (Array.getElem_mem within))).1
    simp [live, within]
  · rename_i outside
    simp [outside]

theorem walk_from {t : Table kind α} (valid : t.Valid) (count place : Nat) (within : place ≤ t.size) :
    t.walk place count = (List.range count).map fun i =>
      ⟨0, t.refs.length - min (place + i) t.refs.length, t.refs[place + i]?⟩ := by
  have order : t.order.size = t.refs.length := by
    rw [valid.refs_eq, Array.length_toList]
    rfl
  induction count generalizing place with
  | zero => rfl
  | succ count ih =>
    rw [List.range_succ_eq_map, List.map_cons, List.map_map, walk, next_eq valid, order]
    have size := valid.length_refs
    by_cases inside : place < t.size
    · simp only [inside, if_true]
      rw [ih (place + 1) inside]
      congr 1
      · simp
        omega
      · apply List.map_congr_left
        intro i _
        simp [Nat.add_right_comm, Nat.add_assoc]
    · simp only [inside, if_false]
      rw [ih place within]
      obtain rfl : place = t.refs.length := by omega
      congr 1
      · simp
      · apply List.map_congr_left
        intro i _
        simp

/-- A walk counts down to the end of the order, and then stays there. -/
theorem walk_eq {t : Table kind α} (valid : t.Valid) (count : Nat) :
    t.walk 0 count = (List.range count).map fun i =>
      ⟨0, t.refs.length - min i t.refs.length, t.refs[i]?⟩ := by
  simpa using walk_from valid count 0 (Nat.zero_le _)

/-- A table shows a list of handles in order, whether they are asked for at once, counted or walked. -/
structure Shows (t : Table kind α) (l : List (Ref kind)) : Prop where
  refs : t.refs = l
  nodup : l.Nodup
  size : t.size = l.length
  walk : ∀ count, t.walk 0 count = (List.range count).map fun i => ⟨0, l.length - min i l.length, l[i]?⟩

theorem Ordered.shows {t : Table kind α} {l : List (Ref kind)} (valid : t.Valid) (refs : t.refs = l) :
    t.Shows l := by
  subst refs
  exact ⟨rfl, valid.nodup_refs, valid.length_refs.symm, walk_eq valid⟩

end Table

end VectorGraph
