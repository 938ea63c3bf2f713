import VectorGraph.Table
import VectorGraph.Graph.Config
import VectorGraph.Graph.Error
import VectorGraph.Graph.Record

/-!
A bounded directed multigraph with free-standing property records.

Every node heads two edge lists, and the links of a list are kept in its edges: an edge is appended to the
outgoing list of its source and the incoming list of its target, and leaves both when it is deleted. A
change answers with the store that it leaves, also where it is refused.
-/
namespace VectorGraph

structure Graph where
  nodes : Table .node Node
  edges : Table .edge Edge
  properties : Table .property Property
deriving DecidableEq

namespace Graph

/-- No capacity may be zero or pass 32 bits; nodes are checked first, then edges, then properties. -/
def create (nodeCapacity edgeCapacity propertyCapacity : Nat) : Except GraphError Graph := do
  let nodes ← (Table.create nodeCapacity).mapError (.invalidCapacity .node)
  let edges ← (Table.create edgeCapacity).mapError (.invalidCapacity .edge)
  let properties ← (Table.create propertyCapacity).mapError (.invalidCapacity .property)
  return ⟨nodes, edges, properties⟩

def ofConfig (c : GraphConfig) : Except GraphError Graph :=
  create c.nodeCapacity.toNat c.edgeCapacity.toNat c.propertyCapacity.toNat

/-- Makes `next` follow `previous` in a list of `owner`, or head the list where nothing precedes it. -/
def setNext (g : Graph) (owner : NodeId) (d : Direction) (previous next : Option EdgeId) : Graph :=
  match previous.filter g.edges.contains with
  | some e => { g with edges := g.edges.modify e (·.setNext d next) }
  | none => { g with nodes := g.nodes.modify owner (·.setFirst d next) }

/-- Makes `previous` precede `next` in a list of `owner`, or end the list where nothing follows it. -/
def setPrevious (g : Graph) (owner : NodeId) (d : Direction) (previous next : Option EdgeId) : Graph :=
  match next.filter g.edges.contains with
  | some e => { g with edges := g.edges.modify e (·.setPrevious d previous) }
  | none => { g with nodes := g.nodes.modify owner (·.setLast d previous) }

/-- Appends an edge after `last`, which it already names as its predecessor. -/
def link (g : Graph) (e : EdgeId) (owner : NodeId) (d : Direction) (last : Option EdgeId) : Graph :=
  let g := g.setNext owner d last (some e)
  { g with nodes := g.nodes.modify owner (·.setLast d (some e)) }

/-- Takes an edge out of one of its lists by joining its neighbours there. -/
def unlink (g : Graph) (e : Edge) (d : Direction) : Graph :=
  (g.setNext (e.owner d) d (e.previous d) (e.next d)).setPrevious (e.owner d) d (e.previous d) (e.next d)

/-- Follows the links of a list from an edge, through at most `count` edges. -/
def follow (g : Graph) (d : Direction) : (count : Nat) → Option EdgeId → List EdgeId
  | count + 1, some e =>
    match g.edges.get? e with
    | some edge => e :: g.follow d count (edge.next d)
    | none => []
  | _, _ => []

/-- The edges on a list of a node, oldest first. A list has no more edges than the graph. -/
def edgesOf (g : Graph) (n : NodeId) (d : Direction) : List EdgeId :=
  g.follow d g.edges.size ((g.nodes.get? n).bind (·.first d))

/-- The far ends of the edges on a list, once for each edge. -/
def neighbors (g : Graph) (n : NodeId) (d : Direction) : List NodeId :=
  (g.edgesOf n d).filterMap fun e => (g.edges.get? e).map (·.opposite d)

def edgesBetween (g : Graph) (source target : NodeId) : List EdgeId :=
  (g.edgesOf source .outgoing).filter fun e => (g.edges.get? e).any (·.target == target)

def degree (g : Graph) (n : NodeId) (d : Direction) : Nat := (g.edgesOf n d).length

def createNode (g : Graph) : Except GraphError NodeId × Graph :=
  match g.nodes.insert fun id => { id } with
  | (some id, nodes) => (.ok id, { g with nodes })
  | (none, nodes) => (.error (.capacityExhausted .node), { g with nodes })

/-- Takes a live edge out of both lists and frees it. Its handle keeps its place in the creation order. -/
def releaseEdge? (g : Graph) (id : EdgeId) : Option Graph :=
  match g.edges.get? id with
  | none => none
  | some e =>
    let g := (g.unlink e .outgoing).unlink e .incoming
    (g.edges.release? id).map fun edges => { g with edges }

/-- An edge is on both of its lists before the creation order takes it, and leaves them where that
refuses. -/
def createEdge (g : Graph) (source target : NodeId) (label : UInt64) (weight : Binary64)
    (timestamp : UInt64) : Except GraphError EdgeId × Graph :=
  match g.nodes.get? source, g.nodes.get? target with
  | none, _ => (.error (.invalidSource source), g)
  | some _, none => (.error (.invalidTarget target), g)
  | some s, some t =>
    let make := fun id =>
      { id, source, target, label, weight, timestamp
        outgoing := { previous := s.last .outgoing }
        incoming := { previous := t.last .incoming } : Edge }
    match g.edges.allocate? make with
    | none => (.error (.capacityExhausted .edge), g)
    | some (id, edges) =>
      let g := { g with edges }
      let g := (g.link id source .outgoing (s.last .outgoing)).link id target .incoming (t.last .incoming)
      match g.edges.record? id with
      | some edges => (.ok id, { g with edges })
      | none => (.error (.capacityExhausted .edge), (g.releaseEdge? id).getD g)

def removeEdge? (g : Graph) (id : EdgeId) : Option Graph :=
  (g.releaseEdge? id).map fun g => { g with edges := g.edges.forget id }

def deleteEdge (g : Graph) (id : EdgeId) : Except GraphError Unit × Graph :=
  match g.removeEdge? id with
  | some g => (.ok (), g)
  | none => (.error (.edgeNotFound id), g)

/-- Removes the first edge of a list over and over, at most `count` times. -/
def drain (g : Graph) (n : NodeId) (d : Direction) : (count : Nat) → Graph
  | 0 => g
  | count + 1 =>
    match (g.nodes.get? n).bind (·.first d) with
    | none => g
    | some e =>
      match g.removeEdge? e with
      | some g => g.drain n d count
      | none => g

def detach (g : Graph) (n : NodeId) (d : Direction) : Graph := g.drain n d g.edges.size

/-- Deletes a node with every edge that starts or ends at it. -/
def deleteNode (g : Graph) (n : NodeId) : Except GraphError Unit × Graph :=
  if g.nodes.contains n then
    let g := (g.detach n .outgoing).detach n .incoming
    (.ok (), { g with nodes := ((g.nodes.release? n).getD g.nodes).forget n })
  else (.error (.nodeNotFound n), g)

def createProperty (g : Graph) (owner : Id) (key : UInt64) (value : Binary64) :
    Except GraphError PropertyId × Graph :=
  match g.properties.insert fun id => { id, owner, key, value } with
  | (some id, properties) => (.ok id, { g with properties })
  | (none, properties) => (.error (.capacityExhausted .property), { g with properties })

def deleteProperty (g : Graph) (id : PropertyId) : Except GraphError Unit × Graph :=
  match g.properties.erase? id with
  | some properties => (.ok (), { g with properties })
  | none => (.error (.propertyNotFound id), g)

def propertiesOf (g : Graph) (owner : Id) : List PropertyId :=
  g.properties.refs.filter fun p => (g.properties.get? p).any (·.isOwnedBy owner)

def statistics (g : Graph) : Statistics where
  nodeCount := .ofNat g.nodes.size
  edgeCount := .ofNat g.edges.size
  propertyCount := .ofNat g.properties.size
  nodeCapacity := .ofNat g.nodes.capacity
  edgeCapacity := .ofNat g.edges.capacity
  propertyCapacity := .ofNat g.properties.capacity

/-- A node with the edges on its two lists. -/
structure NodeEntry where
  node : Node
  outgoing : List EdgeId
  incoming : List EdgeId
deriving DecidableEq

/-- All that queries can tell of a graph, in creation order. -/
structure Contents where
  statistics : Statistics
  nodes : List NodeEntry
  edges : List Edge
  properties : List Property
deriving DecidableEq

def contents (g : Graph) : Contents where
  statistics := g.statistics
  nodes := g.nodes.values.map fun n => ⟨n, g.edgesOf n.id .outgoing, g.edgesOf n.id .incoming⟩
  edges := g.edges.values
  properties := g.properties.values

end Graph

end VectorGraph
