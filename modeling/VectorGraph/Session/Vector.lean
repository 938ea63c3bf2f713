import VectorGraph.Vector.Index

/-! Requests to a vector index, and their answers. -/
namespace VectorGraph.VectorIndex

inductive Request where
  | set (id : Id) (v : Vec)
  | get (id : Id)
  | contains (id : Id)
  | remove (id : Id)
  | ensureRoom (v : Vec)
  | nearest (query : Vec) (k : Nat)
  | entries
  | info
  | contents

structure Info where
  dimension : Nat
  capacity : Nat
  size : Nat
  isEmpty : Bool
deriving DecidableEq

/-- All that queries can tell of an index, in slot order. -/
structure Contents where
  info : Info
  entries : List (Id × Vec)
deriving DecidableEq

def info (x : VectorIndex) : Info := ⟨x.dimension, x.capacity, x.size, x.isEmpty⟩

def contents (x : VectorIndex) : Contents := ⟨x.info, x.entries⟩

inductive Reply where
  | done
  | flag (b : Bool)
  | vector (v : Option Vec)
  | neighbors (hits : List Neighbor)
  | entries (es : List (Id × Vec))
  | info (i : Info)
  | contents (c : Contents)
deriving DecidableEq

def answer (x : VectorIndex) : Request → Except VectorError Reply × VectorIndex
  | .set id v => ((x.set id v).1.map fun _ => .done, (x.set id v).2)
  | .remove id => ((x.remove id).1.map fun _ => .done, (x.remove id).2)
  | .get id => (.ok (.vector (x.get? id)), x)
  | .contains id => (.ok (.flag (x.contains id)), x)
  | .ensureRoom v => ((x.ensureRoom v).map fun _ => .done, x)
  | .nearest query k => ((x.nearest query k).map .neighbors, x)
  | .entries => (.ok (.entries x.entries), x)
  | .info => (.ok (.info x.info), x)
  | .contents => (.ok (.contents x.contents), x)

end VectorGraph.VectorIndex
