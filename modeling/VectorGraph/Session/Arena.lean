import VectorGraph.Arena

/-! Requests to an arena of numbers, and their answers. -/
namespace VectorGraph.Arena

inductive Request where
  | allocate (value : UInt64)
  | free (id : Id)
  | get (id : Id)
  | set (id : Id) (value : UInt64)
  | contains (id : Id)
  | info

inductive Reply where
  | allocated (id : Id) (initial : Option UInt64)
  | value (v : Option UInt64)
  | flag (b : Bool)
  | info (size : Nat) (isEmpty : Bool) (capacity : Nat)
deriving DecidableEq

/-- An allocation tells what the new record held, and a write what the record held before. -/
def answer (a : Arena UInt64) : Request → Reply × Arena UInt64
  | .allocate value =>
    match a.allocate with
    | some (id, a) => (.allocated id (a.get? id), a.set id value)
    | none => (.value none, a)
  | .free id =>
    match a.free? id with
    | some a => (.flag true, a)
    | none => (.flag false, a)
  | .get id => (.value (a.get? id), a)
  | .set id value => (.value (a.get? id), a.set id value)
  | .contains id => (.flag (a.contains id), a)
  | .info => (.info a.size a.isEmpty a.capacity, a)

end VectorGraph.Arena
