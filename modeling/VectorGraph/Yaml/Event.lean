import VectorGraph.Yaml.Token

/-!
The events of a YAML text: the nodes that its tokens make up, in the order in which they begin and end.
A node that is left out is an empty plain scalar.
-/
namespace VectorGraph.Yaml

inductive EventKind where
  | streamStart
  | streamEnd
  | documentStart
  | documentEnd
  | aliasName (name : String)
  | scalar (anchor tag : Option String) (style : ScalarStyle) (text : String)
  | sequenceStart (anchor tag : Option String)
  | sequenceEnd
  | mappingStart (anchor tag : Option String)
  | mappingEnd
deriving DecidableEq

structure Event where
  kind : EventKind
  mark : Mark
deriving DecidableEq

/-- What the next token is read as. `first` tells that the collection's opening token comes first, `empty`
that a value cannot follow. -/
inductive Place where
  | streamStart
  | documentStart (implicit : Bool)
  | documentContent
  | documentEnd
  | blockNode
  | blockSequenceEntry (first : Bool)
  | indentlessSequenceEntry
  | blockMappingKey (first : Bool)
  | blockMappingValue
  | flowSequenceEntry (first : Bool)
  | flowPairKey
  | flowPairValue
  | flowPairEnd
  | flowMappingKey (first : Bool)
  | flowMappingValue (empty : Bool)
  | done
deriving DecidableEq

/-- Tokens on their way to events. The places in `outer` are those to go on from after the present node, the
ones in `marks` those where the open collections began, both innermost first. -/
structure EventSource where
  tokens : List Token
  /-- What stopped the tokens, if they do not end the stream. -/
  flaw : Option Flaw
  place : Place
  outer : List Place
  marks : List Mark
  /-- What the tag handles of the document stand for. -/
  handles : List (String × String)

namespace EventSource

def start (tokens : List Token) (flaw : Option Flaw) : EventSource := ⟨tokens, flaw, .streamStart, [], [], []⟩

abbrev Step := Except Flaw (Event × EventSource)

def next (c : EventSource) : Except Flaw Token :=
  match c.tokens, c.flaw with
  | t :: _, _ => .ok t
  | [], some f => .error f
  | [], none => .error ⟨.endOfStream, {}, none⟩

def skip (c : EventSource) : EventSource := { c with tokens := c.tokens.drop 1 }

def go (c : EventSource) (place : Place) : EventSource := { c with place }

def enter (c : EventSource) (after : Place) : EventSource := { c with outer := after :: c.outer }

def leave (c : EventSource) : EventSource :=
  { c with place := c.outer.headD .done, outer := c.outer.drop 1 }

def emit (c : EventSource) (kind : EventKind) (mark : Mark) : Step := .ok (⟨kind, mark⟩, c)

def emptyScalar (c : EventSource) (mark : Mark) : Step := c.emit (.scalar none none .plain "") mark

def close (c : EventSource) (kind : EventKind) (mark : Mark) : Step :=
  { c.skip.leave with marks := c.marks.drop 1 }.emit kind mark

/-- The token that comes next is out of place in the innermost collection. -/
def misfit (c : EventSource) (activity : Activity) (problem : Problem) (mark : Mark) : Step :=
  .error ⟨problem, mark, some (activity, c.marks.headD mark)⟩

def opened (c : EventSource) (first : Bool) (mark : Mark) : EventSource :=
  if first then { c.skip with marks := mark :: c.marks } else c

def defaultHandles : List (String × String) := [("!", "!"), ("!!", "tag:yaml.org,2002:")]

/-- Reads the directives before a document. At most one gives a version, and none repeats a handle. -/
def directives : (count : Nat) → (version : Bool) → EventSource → Except Flaw EventSource
  | 0, _, c => .ok c
  | count + 1, version, c => do
    let t ← c.next
    match t.kind with
    | .directive (.version major minor) =>
      if version then .error ⟨.repeatedVersion, t.start, none⟩
      else if major ≠ 1 ∨ (minor ≠ 1 ∧ minor ≠ 2) then .error ⟨.incompatibleVersion, t.start, none⟩
      else directives count true c.skip
    | .directive (.tag handle value) =>
      if (c.handles.lookup handle).isSome then .error ⟨.repeatedTag, t.start, none⟩
      else directives count version { c.skip with handles := (handle, value) :: c.handles }
    | _ => .ok { c with handles := c.handles ++ defaultHandles }

def opensDocument : TokenKind → Bool
  | .directive _ => true
  | .documentStart => true
  | _ => false

def skipEnds (c : EventSource) : EventSource :=
  { c with tokens := c.tokens.dropWhile (·.kind == .documentEnd) }

/-- Only the first document may begin without a document indicator. -/
def documentStart (c : EventSource) (implicit : Bool) : Step := do
  let c := if implicit then c else c.skipEnds
  let t ← c.next
  if t.kind = .streamEnd then (c.skip.go .done).emit .streamEnd t.start
  else if implicit && !opensDocument t.kind then
    let c ← directives 1 false c
    ((c.go .blockNode).enter .documentEnd).emit .documentStart t.start
  else
    let c ← directives (c.tokens.length + 1) false c
    let d ← c.next
    if d.kind = .documentStart then ((c.skip.go .documentContent).enter .documentEnd).emit .documentStart t.start
    else .error ⟨.noDocumentStart, d.start, none⟩

def documentEnd (c : EventSource) : Step := do
  let t ← c.next
  let c := if t.kind = .documentEnd then c.skip else c
  { c with place := .documentStart false, handles := [] }.emit .documentEnd t.start

/-- What stands before a node: an anchor and a tag, and where the first of them began. -/
structure Properties where
  anchor : Option String := none
  tag : Option (String × String × Mark) := none
  start : Option Mark := none

/-- An anchor and a tag may come in either order. -/
def properties : (count : Nat) → Properties → EventSource → Except Flaw (Properties × EventSource)
  | 0, p, c => .ok (p, c)
  | count + 1, p, c => do
    let t ← c.next
    match t.kind with
    | .anchor name =>
      if p.anchor.isSome then return (p, c)
      properties count { p with anchor := some name, start := p.start.or (some t.start) } c.skip
    | .tag handle suffix =>
      if p.tag.isSome then return (p, c)
      properties count
        { p with tag := some (handle, suffix, t.start), start := p.start.or (some t.start) } c.skip
    | _ => return (p, c)

/-- The tag in full: what its handle stands for and then its suffix, or its suffix alone. -/
def resolveTag (c : EventSource) (start : Mark) : Option (String × String × Mark) → Except Flaw (Option String)
  | none => .ok none
  | some ("", suffix, _) => .ok (some suffix)
  | some (handle, suffix, mark) =>
    match c.handles.lookup handle with
    | some value => .ok (some (value ++ suffix))
    | none => .error ⟨.undefinedTagHandle, mark, some (.node, start)⟩

/-- A node. In block context collections may be told by indentation, and under a key a sequence need not be
indented. -/
def node (c : EventSource) (block indentless : Bool) : Step := do
  let t ← c.next
  if let .aliasName name := t.kind then c.skip.leave.emit (.aliasName name) t.start
  else
    let (p, c) ← properties 3 {} c
    let t ← c.next
    let start := p.start.getD t.start
    let tag ← c.resolveTag start p.tag
    match t.kind with
    | .scalar style text =>
      let tag := if tag = some "!" then none else tag
      c.skip.leave.emit (.scalar p.anchor tag style text) start
    | .flowSequenceStart => (c.go (.flowSequenceEntry true)).emit (.sequenceStart p.anchor tag) start
    | .flowMappingStart => (c.go (.flowMappingKey true)).emit (.mappingStart p.anchor tag) start
    | kind =>
      if indentless && kind == .blockEntry then
        (c.go .indentlessSequenceEntry).emit (.sequenceStart p.anchor tag) start
      else if block && kind == .blockSequenceStart then
        (c.go (.blockSequenceEntry true)).emit (.sequenceStart p.anchor tag) start
      else if block && kind == .blockMappingStart then
        (c.go (.blockMappingKey true)).emit (.mappingStart p.anchor tag) start
      else if p.start.isSome then c.leave.emit (.scalar p.anchor tag .plain "") start
      else .error ⟨.noNode, t.start, some (if block then .blockNode else .flowNode, start)⟩

/-- A node unless one of the tokens comes that end the place where it could stand. -/
def nodeUnless (c : EventSource) (ends : List TokenKind) (after : Place) (block indentless : Bool)
    (mark : Mark) : Step := do
  let t ← c.next
  if ends.contains t.kind then (c.go after).emptyScalar mark
  else (c.enter after).node block indentless

def documentContent (c : EventSource) : Step := do
  let t ← c.next
  if opensDocument t.kind || t.kind == .documentEnd || t.kind == .streamEnd then
    c.leave.emptyScalar t.start
  else c.node true false

def blockSequenceEntry (c : EventSource) (first : Bool) : Step := do
  let c := c.opened first (← c.next).start
  let t ← c.next
  match t.kind with
  | .blockEntry => c.skip.nodeUnless [.blockEntry, .blockEnd] (.blockSequenceEntry false) true false t.stop
  | .blockEnd => c.close .sequenceEnd t.start
  | _ => c.misfit .blockCollection .noEntry t.start

def indentlessSequenceEntry (c : EventSource) : Step := do
  let t ← c.next
  if t.kind = .blockEntry then
    c.skip.nodeUnless [.blockEntry, .key, .value, .blockEnd] .indentlessSequenceEntry true false t.stop
  else c.leave.emit .sequenceEnd t.start

def blockMappingKey (c : EventSource) (first : Bool) : Step := do
  let c := c.opened first (← c.next).start
  let t ← c.next
  match t.kind with
  | .key => c.skip.nodeUnless [.key, .value, .blockEnd] .blockMappingValue true true t.stop
  | .blockEnd => c.close .mappingEnd t.start
  | _ => c.misfit .blockMapping .noKey t.start

def blockMappingValue (c : EventSource) : Step := do
  let t ← c.next
  if t.kind = .value then
    c.skip.nodeUnless [.key, .value, .blockEnd] (.blockMappingKey false) true true t.stop
  else (c.go (.blockMappingKey false)).emptyScalar t.start

/-- Passes the comma between the entries of a flow collection. -/
def separated (c : EventSource) (first : Bool) (activity : Activity) (problem : Problem) (last : TokenKind) :
    Except Flaw EventSource := do
  let t ← c.next
  if first || t.kind = last then return c
  else if t.kind = .flowEntry then return c.skip
  else .error ⟨problem, t.start, some (activity, c.marks.headD t.start)⟩

/-- A key indicator within a sequence begins a mapping of one pair. -/
def flowSequenceEntry (c : EventSource) (first : Bool) : Step := do
  let c := c.opened first (← c.next).start
  let c ← c.separated first .flowSequence .noSequenceEnd .flowSequenceEnd
  let t ← c.next
  match t.kind with
  | .key => (c.skip.go .flowPairKey).emit (.mappingStart none none) t.start
  | .flowSequenceEnd => c.close .sequenceEnd t.start
  | _ => (c.enter (.flowSequenceEntry false)).node false false

/-- An empty key takes the token after it along. -/
def flowPairKey (c : EventSource) : Step := do
  let t ← c.next
  if [TokenKind.value, .flowEntry, .flowSequenceEnd].contains t.kind then
    (c.skip.go .flowPairValue).emptyScalar t.stop
  else (c.enter .flowPairValue).node false false

def flowPairValue (c : EventSource) : Step := do
  let t ← c.next
  if t.kind = .value then
    let c := c.skip
    c.nodeUnless [.flowEntry, .flowSequenceEnd] .flowPairEnd false false (← c.next).start
  else (c.go .flowPairEnd).emptyScalar t.start

def flowPairEnd (c : EventSource) : Step := do
  let t ← c.next
  (c.go (.flowSequenceEntry false)).emit .mappingEnd t.start

def flowMappingKey (c : EventSource) (first : Bool) : Step := do
  let c := c.opened first (← c.next).start
  let c ← c.separated first .flowMapping .noMappingEnd .flowMappingEnd
  let t ← c.next
  match t.kind with
  | .key =>
    let c := c.skip
    c.nodeUnless [.value, .flowEntry, .flowMappingEnd] (.flowMappingValue false) false false (← c.next).start
  | .flowMappingEnd => c.close .mappingEnd t.start
  | _ => (c.enter (.flowMappingValue true)).node false false

def flowMappingValue (c : EventSource) (empty : Bool) : Step := do
  let t ← c.next
  if !empty && t.kind == .value then
    let c := c.skip
    c.nodeUnless [.flowEntry, .flowMappingEnd] (.flowMappingKey false) false false (← c.next).start
  else (c.go (.flowMappingKey false)).emptyScalar t.start

def streamStart (c : EventSource) : Step := do
  let t ← c.next
  (c.skip.go (.documentStart true)).emit .streamStart t.start

def step (c : EventSource) : Step :=
  match c.place with
  | .streamStart => c.streamStart
  | .documentStart implicit => c.documentStart implicit
  | .documentContent => c.documentContent
  | .documentEnd => c.documentEnd
  | .blockNode => c.node true false
  | .blockSequenceEntry first => c.blockSequenceEntry first
  | .indentlessSequenceEntry => c.indentlessSequenceEntry
  | .blockMappingKey first => c.blockMappingKey first
  | .blockMappingValue => c.blockMappingValue
  | .flowSequenceEntry first => c.flowSequenceEntry first
  | .flowPairKey => c.flowPairKey
  | .flowPairValue => c.flowPairValue
  | .flowPairEnd => c.flowPairEnd
  | .flowMappingKey first => c.flowMappingKey first
  | .flowMappingValue empty => c.flowMappingValue empty
  | .done => .error ⟨.endOfStream, {}, none⟩

/-- Takes events until the stream ends or a flaw is met. -/
def run : (count : Nat) → EventSource → List Event × Option Flaw
  | 0, _ => ([], none)
  | count + 1, c =>
    if c.place = .done then ([], none)
    else
      match c.step with
      | .error f => ([], some f)
      | .ok (e, c) =>
        let (es, f) := run count c
        (e :: es, f)

end EventSource

/-- The events of a text, up to its first flaw. Between two tokens at most four events come from no token
of their own. -/
def events (text : List Char) : List Event × Option Flaw :=
  let (tokens, flaw) := tokens text
  EventSource.run (6 * tokens.length + 6) (.start tokens flaw)

end VectorGraph.Yaml
