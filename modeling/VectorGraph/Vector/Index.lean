import Std.Data.HashMap
import VectorGraph.Vector.Allocator
import VectorGraph.Vector.Config
import VectorGraph.Vector.Distance
import VectorGraph.Vector.Error
import VectorGraph.Vector.Selection

/-!
A bounded map from handles to vectors of one dimension, with exact search for the nearest.

The components of all slots lie in one buffer, row after row. A handle that is new to the index takes the
first vacant slot and keeps it until it is removed, which clears its row. Search looks at every stored
vector and orders by distance and then by handle, so slots play no part in its answers.
-/
namespace VectorGraph

structure VectorIndex where
  dimension : Nat
  owners : Array (Option Id)
  components : Array Binary32
  slots : Std.HashMap Id Nat

structure Neighbor where
  id : Id
  distance : Binary32
deriving DecidableEq, Inhabited

/-- By distance in the total order of patterns, then by handle. -/
def Neighbor.le (a b : Neighbor) : Bool :=
  decide (a.distance.rank < b.distance.rank ∨ a.distance.rank = b.distance.rank ∧ a.id ≤ b.id)

namespace VectorIndex

/-- First the buffer of the handles is reserved, at eight bytes for each, then that of the components, at four. -/
def create (dimension capacity : Nat) (allocator : Allocator := .addressSpace) : Except VectorError VectorIndex :=
  if dimension = 0 then .error .zeroDimension
  else if capacity = 0 then .error .zeroCapacity
  else if UInt64.size ≤ capacity * dimension then .error (.allocationFailed capacity dimension)
  else if allocator.reserves 0 (8 * capacity) && allocator.reserves (8 * capacity) (4 * (capacity * dimension)) then
    .ok ⟨dimension, .replicate capacity none, .replicate (capacity * dimension) .zero, ∅⟩
  else .error (.allocationFailed capacity dimension)

def ofConfig (c : VectorConfig) (allocator : Allocator := .addressSpace) : Except VectorError VectorIndex :=
  create c.dimension.toNat c.capacity.toNat allocator

def capacity (x : VectorIndex) : Nat := x.owners.size

def size (x : VectorIndex) : Nat := x.slots.size

def isEmpty (x : VectorIndex) : Bool := x.slots.isEmpty

def row (x : VectorIndex) (slot : Nat) : Vec :=
  x.components.extract (slot * x.dimension) (slot * x.dimension + x.dimension)

def overwrite (buffer : Array Binary32) (place : Nat) : List Binary32 → Array Binary32
  | [] => buffer
  | value :: values => overwrite (buffer.setIfInBounds place value) (place + 1) values

def setRow (x : VectorIndex) (slot : Nat) (v : Vec) : VectorIndex :=
  { x with components := overwrite x.components (slot * x.dimension) v.toList }

def get? (x : VectorIndex) (id : Id) : Option Vec := (x.slots[id]?).map x.row

def contains (x : VectorIndex) (id : Id) : Bool := x.slots.contains id

def checkDimension (x : VectorIndex) (v : Vec) : Except VectorError Unit :=
  if v.size = x.dimension then .ok () else .error (.dimensionMismatch x.dimension v.size)

def vacantSlot? (x : VectorIndex) : Option Nat := x.owners.findIdx? (·.isNone)

/-- Stores a vector, in the handle's own slot if it has one. -/
def set (x : VectorIndex) (id : Id) (v : Vec) : Except VectorError Unit × VectorIndex :=
  if id.isNull then (.error .nullId, x)
  else
    match x.checkDimension v with
    | .error e => (.error e, x)
    | .ok () =>
      match x.slots[id]? with
      | some slot => (.ok (), x.setRow slot v)
      | none =>
        match x.vacantSlot? with
        | none => (.error (.capacityExhausted x.capacity), x)
        | some slot =>
          let x := { x with
            owners := x.owners.setIfInBounds slot (some id)
            slots := x.slots.insert id slot }
          (.ok (), x.setRow slot v)

/-- Whether a vector could be stored under a handle that is new to the index. -/
def ensureRoom (x : VectorIndex) (v : Vec) : Except VectorError Unit :=
  match x.checkDimension v with
  | .error e => .error e
  | .ok () => if x.size < x.capacity then .ok () else .error (.capacityExhausted x.capacity)

/-- Vacates the slot of a handle and clears its row. -/
def remove (x : VectorIndex) (id : Id) : Except VectorError Unit × VectorIndex :=
  match x.slots[id]? with
  | none => (.error (.notFound id), x)
  | some slot =>
    let x := { x with
      owners := x.owners.setIfInBounds slot none
      slots := x.slots.erase id }
    (.ok (), x.setRow slot (.replicate x.dimension .zero))

def entries (x : VectorIndex) : List (Id × Vec) :=
  x.owners.toList.zipIdx.filterMap fun (owner, slot) => owner.map fun id => (id, x.row slot)

def candidates (x : VectorIndex) (query : Vec) : List Neighbor :=
  x.entries.map fun (id, v) => ⟨id, squaredL2 v query⟩

/-- The `k` nearest stored vectors, nearest first. No distance is computed for `k = 0`, and no vector is
singled out where at most `k` are stored. -/
def nearest (x : VectorIndex) (query : Vec) (k : Nat) : Except VectorError (List Neighbor) :=
  match x.checkDimension query with
  | .error e => .error e
  | .ok () =>
    if k = 0 then .ok []
    else
      let all := x.candidates query
      let kept := if k < all.length then selectLeast Neighbor.le k all else all
      .ok (kept.mergeSort Neighbor.le)

end VectorIndex

end VectorGraph
