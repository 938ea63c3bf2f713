import VectorGraph.Id

/-!
The handles of one kind of record in the order of their creation. Removal keeps the order of the rest.
-/
namespace VectorGraph

structure CreationOrder (kind : Kind) where
  capacity : Nat
  refs : Array (Ref kind)
deriving DecidableEq

namespace CreationOrder

variable {kind : Kind}

def create (capacity : Nat) : CreationOrder kind := ⟨capacity, #[]⟩

def size (o : CreationOrder kind) : Nat := o.refs.size

/-- Refuses once `capacity` handles are recorded. -/
def push? (o : CreationOrder kind) (ref : Ref kind) : Option (CreationOrder kind) :=
  if o.refs.size < o.capacity then some { o with refs := o.refs.push ref } else none

def erase (o : CreationOrder kind) (ref : Ref kind) : CreationOrder kind :=
  { o with refs := o.refs.erase ref }

end CreationOrder

end VectorGraph
