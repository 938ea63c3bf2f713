/-!
Handles of stored records. A handle names a slot together with the generation of the record that
lives there, so the handle of a removed record is told apart from that of the slot's next record.
-/
namespace VectorGraph

/-- A 64-bit handle: the high half is the generation, the low half the slot plus one. -/
structure Id where
  raw : UInt64
deriving DecidableEq, Hashable, Inhabited

namespace Id

/-- No store issues zero, so it stands for "no record". -/
def null : Id := ⟨0⟩

def isNull (id : Id) : Bool := id.raw == 0

def ofParts (slot generation : Nat) : Id := ⟨.ofNat (generation * UInt32.size + (slot + 1))⟩

/-- The slot is absent exactly where the low half is zero. -/
def slot? (id : Id) : Option Nat :=
  if id.raw.toNat % UInt32.size = 0 then none else some (id.raw.toNat % UInt32.size - 1)

def generation (id : Id) : Nat := id.raw.toNat / UInt32.size

def text (id : Id) : String :=
  match id.slot? with
  | some slot => toString slot ++ "v" ++ toString id.generation
  | none => "null"

/-- Handles are ordered by their raw values, hence by generation before slot. -/
instance : LE Id := ⟨fun a b => a.raw ≤ b.raw⟩

instance (a b : Id) : Decidable (a ≤ b) := inferInstanceAs (Decidable (a.raw ≤ b.raw))

def sort (ids : List Id) : List Id := ids.mergeSort (fun a b => decide (a ≤ b))

end Id

inductive Kind where
  | node
  | edge
  | property
deriving DecidableEq

namespace Kind

def name : Kind → String
  | node => "node"
  | edge => "edge"
  | property => "property"

def title : Kind → String
  | node => "Node"
  | edge => "Edge"
  | property => "Property"

end Kind

/-- A handle within the id space of one kind of record. -/
structure Ref (kind : Kind) where
  id : Id
deriving DecidableEq, Inhabited

abbrev NodeId := Ref .node
abbrev EdgeId := Ref .edge
abbrev PropertyId := Ref .property

namespace Ref

def ofRaw {kind : Kind} (raw : UInt64) : Ref kind := ⟨⟨raw⟩⟩

def text {kind : Kind} (ref : Ref kind) : String := kind.title ++ "Id(" ++ ref.id.text ++ ")"

end Ref

end VectorGraph
