import VectorGraph.Yaml.Resolution

/-!
Typed reading of YAML documents. A reader takes its node off the front of the items and stops at the first
fault. A reference is read as the node that it names.
-/
namespace VectorGraph.Yaml

/-- The keys that lead to a node, innermost first; a key that is no scalar has no name. -/
abbrev Path := List (Option String)

def Path.text (p : Path) : String := ".".intercalate (p.reverse.map (·.getD "?"))

inductive Fault where
  | flaw (f : Flaw)
  | mismatch (m : Mismatch) (path : Path) (mark : Mark)
  /-- The text ended within a document. -/
  | ended
  | severalDocuments
deriving DecidableEq

def wording : Wording where
  unit := "unit value"
  float := Binary64.positional

def Fault.message : Fault → String
  | flaw f => f.message
  | mismatch m path mark =>
    (if path.isEmpty then "" else path.text ++ ": ") ++ m.message wording ++ mark.suffix
  | ended => "EOF while parsing a value"
  | severalDocuments => "deserializing from YAML containing more than one document is not supported"

abbrev Reader := StateT (List Item) (Except Fault)

namespace Reader

variable {α : Type}

def fail (f : Fault) : Reader α := fun _ => .error f

def next : Reader Item := fun items =>
  match items with
  | [] => .error .ended
  | item :: items => .ok (item, items)

def peek : Reader Item := fun items =>
  match items with
  | [] => .error .ended
  | item :: _ => .ok (item, items)

/-- Reads other items and comes back to the present ones. -/
def elsewhere (items : List Item) (r : Reader α) : Reader α := fun here =>
  match r items with
  | .ok (v, _) => .ok (v, here)
  | .error f => .error f

/-- The items after a node, of which `depth` collections are open. -/
def nodeEnd? : (depth : Nat) → List Item → Option (List Item)
  | _, [] => none
  | depth, item :: items =>
    match item.content, depth with
    | .sequenceStart, _ => nodeEnd? (depth + 1) items
    | .mappingStart, _ => nodeEnd? (depth + 1) items
    | .sequenceEnd, depth + 2 => nodeEnd? (depth + 1) items
    | .mappingEnd, depth + 2 => nodeEnd? (depth + 1) items
    | .sequenceEnd, _ => some items
    | .mappingEnd, _ => some items
    | _, 0 => some items
    | _, depth + 1 => nodeEnd? (depth + 1) items

def skip : Reader Unit := fun items =>
  match nodeEnd? 0 items with
  | some rest => .ok ((), rest)
  | none => .error .ended

def refuse (item : Item) (path : Path) (expected : String) : Reader α :=
  let wrong (m : Mismatch) : Reader α := fail (.mismatch m path item.mark)
  match item.content with
  | .scalar s => wrong (s.mismatch expected)
  | .mappingStart => wrong (.wrongType .map expected)
  | _ => wrong (.wrongType .sequence expected)

def sizeOf (path : Path) (item : Item) : Reader UInt64 :=
  match item.content with
  | .scalar s =>
    match if s.mayBeInteger then uint64? s.text else none with
    | some n => return n
    | none => refuse item path "usize"
  | _ => refuse item path "usize"

/-- Follows a reference once; what it leads to is never another one. -/
def dereference (d : Document) (item : Item) (read : Item → Reader α) : Reader α :=
  match item.content with
  | .reference anchor => elsewhere (d.target anchor) do read (← next)
  | _ => read item

def size (d : Document) (path : Path) : Reader UInt64 := do
  dereference d (← next) (sizeOf path)

def key (d : Document) (path : Path) : Reader String := do
  dereference d (← next) fun item =>
    match item.content with
    | .scalar s => return s.text
    | _ => refuse item path "field identifier"

end Reader

/-- A member of a record, and how reading it changes a record. -/
structure Field (α : Type) where
  name : String
  read : Document → Path → Reader (α → α)

def Field.size {α : Type} (name : String) (set : UInt64 → α → α) : Field α where
  name
  read d path := return set (← Reader.size d path)

/-- The members of a record, any of which may be left out, and the record to which reading adds them. -/
structure Form (α : Type) where
  name : String
  blank : α
  fields : List (Field α)

namespace Form

variable {α : Type}

/-- Reads entries to the end of a mapping, with the names of the record's members read so far. Every entry
takes an item, so `count` never runs out where it is the number of items. -/
def entries (form : Form α) (d : Document) (path : Path) (mark : Mark) :
    (count : Nat) → α → List String → Reader α
  | 0, _, _ => Reader.fail .ended
  | count + 1, v, seen => do
    let item ← Reader.peek
    if item.content = .mappingEnd then
      let _ ← Reader.next
      return v
    let label := match item.content with
      | .scalar s => some s.text
      | _ => none
    let name ← Reader.key d path
    match form.fields.find? (·.name == name) with
    | some field =>
      if seen.contains name then Reader.fail (.mismatch (.duplicateField name) path mark)
      let update ← field.read d (label :: path)
      form.entries d path mark count (update v) (name :: seen)
    | none =>
      Reader.skip
      form.entries d path mark count v seen

/-- Reads a record that begins with an item. An empty plain scalar is a mapping without entries. -/
def ofItem (form : Form α) (d : Document) (path : Path) (item : Item) : Reader α :=
  match item.content with
  | .mappingStart => fun items => form.entries d path item.mark (items.length + 1) form.blank [] items
  | .scalar s => if s.isEmpty then return form.blank else Reader.refuse item path ("struct " ++ form.name)
  | _ => Reader.refuse item path ("struct " ++ form.name)

def read (form : Form α) (d : Document) (path : Path) : Reader α := do
  Reader.dereference d (← Reader.next) (form.ofItem d path)

def field {β : Type} (form : Form α) (name : String) (set : α → β → β) : Field β where
  name
  read d path := return set (← form.read d path)

/-- Reads a text that is one document. A document without a node is an empty mapping. -/
def ofText (form : Form α) (text : String) : Except Fault α :=
  let stream := Stream.read text.toList
  let d := stream.first
  let result : Except Fault α := match d.items.toList, d.flaw with
    | [], none => .ok form.blank
    | items, _ => (form.read d [] items).map (·.1)
  match result, d.flaw with
  | .error .ended, some f => .error (.flaw f)
  | .error e, _ => .error e
  | .ok _, some f => .error (.flaw f)
  | .ok v, none => if stream.more then .error .severalDocuments else .ok v

end Form

end VectorGraph.Yaml
