import VectorGraph.Arena
import VectorGraph.CreationOrder

/-!
The records of one kind: an arena that holds them and the order in which they were created.
-/
namespace VectorGraph

structure Table (kind : Kind) (α : Type) where
  records : Arena α
  order : CreationOrder kind
deriving DecidableEq

namespace Table

variable {kind : Kind} {α : Type}

def create (capacity : Nat) : Except ArenaError (Table kind α) :=
  match Arena.create capacity with
  | .ok records => .ok ⟨records, .create capacity⟩
  | .error e => .error e

def get? (t : Table kind α) (ref : Ref kind) : Option α := t.records.get? ref.id

def contains (t : Table kind α) (ref : Ref kind) : Bool := t.records.contains ref.id

def size (t : Table kind α) : Nat := t.records.size

def capacity (t : Table kind α) : Nat := t.records.capacity

def modify (t : Table kind α) (ref : Ref kind) (f : α → α) : Table kind α :=
  { t with records := t.records.modify ref.id f }

/-- Stores the record that `make` builds from its own handle, without a place in the creation order. -/
def allocate? [Inhabited α] (t : Table kind α) (make : Ref kind → α) : Option (Ref kind × Table kind α) :=
  match t.records.allocate with
  | some (id, records) => some (⟨id⟩, { t with records := records.set id (make ⟨id⟩) })
  | none => none

/-- Puts a handle at the end of the creation order, which refuses it when it is full. -/
def record? (t : Table kind α) (ref : Ref kind) : Option (Table kind α) :=
  match t.order.push? ref with
  | some order => some { t with order }
  | none => none

/-- Frees a live record, whose handle keeps its place in the creation order. -/
def release? (t : Table kind α) (ref : Ref kind) : Option (Table kind α) :=
  match t.records.free? ref.id with
  | some records => some { t with records }
  | none => none

def forget (t : Table kind α) (ref : Ref kind) : Table kind α := { t with order := t.order.erase ref }

/-- Adds the record that `make` builds from its own handle. The record is freed again if the creation
order has no room for it. -/
def insert [Inhabited α] (t : Table kind α) (make : Ref kind → α) : Option (Ref kind) × Table kind α :=
  match t.allocate? make with
  | some (ref, stored) =>
    match stored.record? ref with
    | some recorded => (some ref, recorded)
    | none => (none, (stored.release? ref).getD stored)
  | none => (none, t)

def erase? (t : Table kind α) (ref : Ref kind) : Option (Table kind α) :=
  (t.release? ref).map (·.forget ref)

def refs (t : Table kind α) : List (Ref kind) := t.order.refs.toList.filter t.contains

def values (t : Table kind α) : List α := t.refs.filterMap t.get?

/-- The first live handle at or after a place in the creation order, and the place that follows it. -/
def next (t : Table kind α) (place : Nat) : Option (Ref kind) × Nat :=
  if h : place < t.order.refs.size then
    let ref := t.order.refs[place]
    if t.contains ref then (some ref, place + 1) else t.next (place + 1)
  else (none, place)
termination_by t.order.refs.size - place

/-- One advance of a walk: the bounds on what was left before it, and what it met. -/
structure Step (kind : Kind) where
  least : Nat
  most : Nat
  ref : Option (Ref kind)
deriving DecidableEq

/-- Advances a walk `count` times from a place, past the end too. -/
def walk (t : Table kind α) : (place count : Nat) → List (Step kind)
  | _, 0 => []
  | place, count + 1 =>
    let (ref, after) := t.next place
    ⟨0, t.order.size - place, ref⟩ :: t.walk after count

end Table

end VectorGraph
