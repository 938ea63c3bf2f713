import VectorGraph.Id
import VectorGraph.Json.Reader

/-!
Records as JSON objects. A record is written as an object with its members in the order of its fields. It is
read from an object with its members in any order, or from an array of the members in that order; members
of an object that the record does not have are passed over.
-/
namespace VectorGraph.Json

/-- What happens where a member is left out. -/
inductive Absence where
  | refused
  /-- An object may leave the member out, an array may not. -/
  | inObject
  /-- The blank record already has the member's value. -/
  | allowed
deriving DecidableEq

/-- A member of a record: how it is written, and how reading it changes a record. -/
structure Field (α : Type) where
  name : String
  absence : Absence
  write : α → Json
  read : Reader (α → α)

/-- The members of a record, and the record to which reading adds them. -/
structure Form (α : Type) where
  name : String
  blank : α
  fields : List (Field α)

namespace Field

variable {α : Type}

def word (name : String) (get : α → UInt64) (set : UInt64 → α → α) : Field α where
  name
  absence := .refused
  write v := .integer (get v).toNat
  read := return set (← Reader.uint64 "u64")

def size (name : String) (absence : Absence) (get : α → UInt64) (set : UInt64 → α → α) : Field α where
  name
  absence
  write v := .integer (get v).toNat
  read := return set (← Reader.uint64 "usize")

def id (name : String) (get : α → Id) (set : Id → α → α) : Field α :=
  word name (fun v => (get v).raw) (fun raw => set ⟨raw⟩)

def ref {kind : Kind} (name : String) (get : α → Ref kind) (set : Ref kind → α → α) : Field α :=
  id name (fun v => (get v).id) (fun id => set ⟨id⟩)

/-- A link that leads nowhere is written as `null`. -/
def link {kind : Kind} (name : String) (get : α → Option (Ref kind)) (set : Option (Ref kind) → α → α) :
    Field α where
  name
  absence := .inObject
  write v := match get v with
    | some ref => .integer ref.id.raw.toNat
    | none => .null
  read := return set ((← Reader.optional (Reader.uint64 "u64")).map .ofRaw)

def float64 (name : String) (get : α → Binary64) (set : Binary64 → α → α) : Field α where
  name
  absence := .refused
  write v := .float64 (get v)
  read := return set (← Reader.float64)

def float32 (name : String) (get : α → Binary32) (set : Binary32 → α → α) : Field α where
  name
  absence := .refused
  write v := .float32 (get v)
  read := return set (← Reader.float32)

def flag (name : String) (get : α → Bool) (set : Bool → α → α) : Field α where
  name
  absence := .refused
  write v := .bool (get v)
  read := return set (← Reader.bool)

end Field

namespace Form

variable {α : Type}

def toJson (form : Form α) (v : α) : Json := .object (form.fields.map fun f => (f.name, f.write v))

def title (form : Form α) : String := "struct " ++ form.name

def sizeTitle (form : Form α) : String :=
  form.title ++ " with " ++ toString form.fields.length ++
    if form.fields.length = 1 then " element" else " elements"

/-- Reads members up to the closing brace, with the names of the record's members read so far. Every
member takes a character, so `count` never runs out where it is the length of the text. -/
def members (form : Form α) : (count : Nat) → (first : Bool) → α → List String → Reader (α × List String)
  | 0, _, _, _ => Reader.malformed
  | count + 1, first, v, seen => do
    Reader.space
    if (← Reader.peek) = some '\x7d' then return (v, seen)
    if !first then
      Reader.char ','
      Reader.space
    let name ← Reader.string
    match form.fields.find? (·.name == name) with
    | some field =>
      if seen.contains name then Reader.mismatch (.duplicateField name)
      Reader.space
      Reader.char ':'
      let update ← field.read
      form.members count false (update v) (name :: seen)
    | none =>
      Reader.space
      Reader.char ':'
      Reader.skip
      form.members count false v seen

/-- The first member that may not be left out but was. -/
def missing? (form : Form α) (seen : List String) : Option String :=
  (form.fields.find? fun f => f.absence == .refused && !seen.contains f.name).map (·.name)

def object (form : Form α) : Reader α := do
  Reader.char '\x7b'
  let (v, seen) ← fun cs => form.members (cs.length + 1) true form.blank [] cs
  match form.missing? seen with
  | some name => Reader.mismatch (.missingField name)
  | none =>
    Reader.char '\x7d'
    return v

/-- Reads items for the fields in their order, with the number of items so far. -/
def items (form : Form α) : List (Field α) → (place : Nat) → α → Reader α
  | [], _, v => return v
  | field :: fields, place, v => do
    Reader.space
    if (← Reader.peek) = some ']' then
      if field.absence = .allowed then form.items fields (place + 1) v
      else Reader.mismatch (.wrongLength place form.sizeTitle)
    else
      if place ≠ 0 then
        Reader.char ','
      let update ← field.read
      form.items fields (place + 1) (update v)

def array (form : Form α) : Reader α := do
  Reader.char '['
  let v ← form.items form.fields 0 form.blank
  Reader.space
  Reader.char ']'
  return v

def read (form : Form α) : Reader α := do
  Reader.space
  match ← Reader.peek with
  | some '\x7b' => form.object
  | some '[' => form.array
  | _ => Reader.refuse form.title

/-- A record within a record, which may be left out. -/
def field {β : Type} (form : Form α) (name : String) (get : β → α) (set : α → β → β) : Field β where
  name
  absence := .allowed
  write v := form.toJson (get v)
  read := return set (← form.read)

end Form

end VectorGraph.Json
