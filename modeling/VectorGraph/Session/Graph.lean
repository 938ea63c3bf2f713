import VectorGraph.Graph

/-! Requests to a graph, and their answers. -/
namespace VectorGraph.Graph

inductive Request where
  | createNode
  | deleteNode (id : NodeId)
  | hasNode (id : NodeId)
  | getNode (id : NodeId)
  | nodes
  | createEdge (source target : NodeId) (label : UInt64) (weight : Binary64) (timestamp : UInt64)
  | deleteEdge (id : EdgeId)
  | hasEdge (id : EdgeId)
  | getEdge (id : EdgeId)
  | edges
  | edgesOf (node : NodeId) (d : Direction)
  | neighbors (node : NodeId) (d : Direction)
  | edgesBetween (source target : NodeId)
  | degree (node : NodeId) (d : Direction)
  | createProperty (owner : Id) (key : UInt64) (value : Binary64)
  | deleteProperty (id : PropertyId)
  | hasProperty (id : PropertyId)
  | getProperty (id : PropertyId)
  | properties
  | propertiesOf (owner : Id)
  | statistics
  | counts
  | walk (kind : Kind) (count : Nat)
  | contents

inductive Reply where
  | done
  | created (id : Id)
  | flag (b : Bool)
  | count (n : Nat)
  | ids (ids : List Id)
  | node (record : Option Node)
  | edge (record : Option Edge)
  | property (record : Option Property)
  | statistics (s : Statistics)
  | counts (nodes edges properties : Nat)
  | walk (steps : List (Nat × Nat × Option Id))
  | contents (c : Contents)
deriving DecidableEq

def Reply.ofRefs {kind : Kind} (refs : List (Ref kind)) : Reply := .ids (refs.map (·.id))

def Reply.ofWalk {kind : Kind} (steps : List (Table.Step kind)) : Reply :=
  .walk (steps.map fun s => (s.least, s.most, s.ref.map (·.id)))

/-- The answer to a change, from its outcome. -/
def outcome {ε α β : Type} (reply : α → β) {σ : Type} (r : Except ε α × σ) : Except ε β × σ :=
  (r.1.map reply, r.2)

def answer (g : Graph) : Request → Except GraphError Reply × Graph
  | .createNode => outcome (fun n => .created n.id) g.createNode
  | .deleteNode id => outcome (fun _ => .done) (g.deleteNode id)
  | .createEdge source target label weight timestamp =>
    outcome (fun e => .created e.id) (g.createEdge source target label weight timestamp)
  | .deleteEdge id => outcome (fun _ => .done) (g.deleteEdge id)
  | .createProperty owner key value =>
    outcome (fun p => .created p.id) (g.createProperty owner key value)
  | .deleteProperty id => outcome (fun _ => .done) (g.deleteProperty id)
  | .hasNode id => (.ok (.flag (g.nodes.contains id)), g)
  | .getNode id => (.ok (.node (g.nodes.get? id)), g)
  | .nodes => (.ok (.ofRefs g.nodes.refs), g)
  | .hasEdge id => (.ok (.flag (g.edges.contains id)), g)
  | .getEdge id => (.ok (.edge (g.edges.get? id)), g)
  | .edges => (.ok (.ofRefs g.edges.refs), g)
  | .edgesOf node d => (.ok (.ofRefs (g.edgesOf node d)), g)
  | .neighbors node d => (.ok (.ofRefs (g.neighbors node d)), g)
  | .edgesBetween source target => (.ok (.ofRefs (g.edgesBetween source target)), g)
  | .degree node d => (.ok (.count (g.degree node d)), g)
  | .hasProperty id => (.ok (.flag (g.properties.contains id)), g)
  | .getProperty id => (.ok (.property (g.properties.get? id)), g)
  | .properties => (.ok (.ofRefs g.properties.refs), g)
  | .propertiesOf owner => (.ok (.ofRefs (g.propertiesOf owner)), g)
  | .statistics => (.ok (.statistics g.statistics), g)
  | .counts => (.ok (.counts g.nodes.size g.edges.size g.properties.size), g)
  | .walk .node count => (.ok (.ofWalk (g.nodes.walk 0 count)), g)
  | .walk .edge count => (.ok (.ofWalk (g.edges.walk 0 count)), g)
  | .walk .property count => (.ok (.ofWalk (g.properties.walk 0 count)), g)
  | .contents => (.ok (.contents g.contents), g)

end VectorGraph.Graph
