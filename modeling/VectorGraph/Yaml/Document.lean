import VectorGraph.Yaml.Event

/-!
Documents: the nodes of one document in the order of their events, with every alias tied to the node that it
names.
-/
namespace VectorGraph.Yaml

structure Scalar where
  tag : Option String
  style : ScalarStyle
  text : String
deriving DecidableEq

inductive Content where
  | scalar (s : Scalar)
  /-- A reference to the node anchored under a number. -/
  | reference (anchor : Nat)
  | sequenceStart
  | sequenceEnd
  | mappingStart
  | mappingEnd
deriving DecidableEq

structure Item where
  content : Content
  mark : Mark
deriving DecidableEq

/-- Items of one document. Anchored nodes have in `targets` the number of items before them, the latest first,
and `flaw` is what cut the document short. -/
structure Document where
  items : Array Item := #[]
  targets : List (Nat × Nat) := []
  flaw : Option Flaw := none

namespace Document

/-- A document under construction, with the numbers of the anchor names met so far, the latest first. There are
`count` different ones. -/
structure Builder where
  document : Document := {}
  names : List (String × Nat) := []
  count : Nat := 0

namespace Builder

/-- An anchor is numbered by how many names there are; a name that comes again does not count twice. -/
def addAnchor (b : Builder) : Option String → Builder
  | none => b
  | some name =>
    { document := { b.document with targets := (b.count, b.document.items.size) :: b.document.targets }
      names := (name, b.count) :: b.names
      count := if (b.names.lookup name).isSome then b.count else b.count + 1 }

def addItem (b : Builder) (content : Content) (mark : Mark) : Builder :=
  { b with document := { b.document with items := b.document.items.push ⟨content, mark⟩ } }

/-- An alias names an anchor that came before it. -/
def isLost (b : Builder) : EventKind → Bool
  | .aliasName name => (b.names.lookup name).isNone
  | _ => false

def add (b : Builder) (e : Event) : Builder :=
  match e.kind with
  | .aliasName name => b.addItem (.reference ((b.names.lookup name).getD 0)) e.mark
  | .scalar anchor tag style text => (b.addAnchor anchor).addItem (.scalar ⟨tag, style, text⟩) e.mark
  | .sequenceStart anchor _ => (b.addAnchor anchor).addItem .sequenceStart e.mark
  | .sequenceEnd => b.addItem .sequenceEnd e.mark
  | .mappingStart anchor _ => (b.addAnchor anchor).addItem .mappingStart e.mark
  | .mappingEnd => b.addItem .mappingEnd e.mark
  | .streamStart => b
  | .streamEnd => b
  | .documentStart => b
  | .documentEnd => b

/-- Adds events up to the end of the document, and gives those after it. -/
def addAll (flaw : Option Flaw) : Builder → List Event → Document × List Event
  | b, [] => ({ b.document with flaw }, [])
  | b, e :: es =>
    if e.kind = .documentEnd ∨ e.kind = .streamEnd then (b.document, es)
    else if b.isLost e.kind then ({ b.document with flaw := some ⟨.unknownAnchor, e.mark, none⟩ }, [])
    else addAll flaw (b.add e) es

end Builder

/-- The items from an anchored node on. -/
def target (d : Document) (anchor : Nat) : List Item :=
  match d.targets.lookup anchor with
  | some place => d.items.toList.drop place
  | none => []

end Document

/-- The first document of a text, and whether anything but the end follows it. -/
structure Stream where
  first : Document
  more : Bool

/-- A text without a document has an empty one. -/
def Stream.read (text : List Char) : Stream :=
  let (es, flaw) := events text
  let (first, rest) := Document.Builder.addAll flaw {} es
  let ended := es.any (·.kind == .streamEnd)
  { first, more := first.flaw.isNone && (!ended || rest.any (·.kind == .documentStart)) }

/-- Whether a text is one whole document and nothing else. -/
def Stream.isWhole (s : Stream) : Bool := s.first.flaw.isNone && !s.more

end VectorGraph.Yaml
