import VectorGraph.Hybrid
import VectorGraph.Output

/-! What calls log, by what they are given and what they answer. -/
namespace VectorGraph

namespace Graph

def creationEvent (c : GraphConfig) : Event := ⟨.debug, "nautylus::graph::store",
  "Created graph store (nodes: " ++ toString c.nodeCapacity ++ ", edges: " ++ toString c.edgeCapacity ++
    ", properties: " ++ toString c.propertyCapacity ++ ")"⟩

def createNodeLog (g : Graph) : Except GraphError NodeId → List Event
  | .ok node => [⟨.trace, "nautylus::graph::store", "Created node " ++ node.text⟩]
  | .error _ =>
    [⟨.debug, "nautylus::graph::store", "Node arena exhausted at " ++ toString g.nodes.size ++ " nodes"⟩]

def createEdgeLog (g : Graph) (source target : NodeId) : Except GraphError EdgeId → List Event
  | .ok edge => [⟨.trace, "nautylus::graph::store",
      "Created edge " ++ edge.text ++ " (" ++ source.text ++ " -> " ++ target.text ++ ")"⟩]
  | .error (.capacityExhausted _) =>
    [⟨.debug, "nautylus::graph::store", "Edge arena exhausted at " ++ toString g.edges.size ++ " edges"⟩]
  | .error _ => []

end Graph

namespace VectorIndex

def creationEvent (c : VectorConfig) : Event := ⟨.debug, "nautylus::vector::index",
  "Created vector index (dimension: " ++ toString c.dimension ++ ", capacity: " ++ toString c.capacity ++ ")"⟩

/-- The log of a call that has stored a vector, from the index that it leaves. -/
def storedLog (x : VectorIndex) (id : Id) : List Event :=
  (x.slots[id]?).toList.map fun slot => ⟨.trace, "nautylus::vector::index",
    "Stored vector for " ++ id.text ++ " in slot " ++ toString slot⟩

end VectorIndex

namespace HybridStore

/-- The graph is made before the index, and is told of even if there is no room for the index. -/
def ofConfigLog (c : Config) (allocator : Allocator) : List Event :=
  match Graph.ofConfig c.graph, VectorIndex.ofConfig c.vector allocator with
  | .error _, _ => []
  | .ok _, .error _ => [Graph.creationEvent c.graph]
  | .ok _, .ok _ => [Graph.creationEvent c.graph, VectorIndex.creationEvent c.vector]

def createNodeLog (s : HybridStore) : Except HybridError NodeId × HybridStore → List Event
  | (.ok node, t) => s.graph.createNodeLog (.ok node) ++ t.vectors.storedLog node.id
  | (.error (.graph e), _) => s.graph.createNodeLog (.error e)
  | (.error _, _) => []

def similarNodesLog (node : NodeId) : Except HybridError (List SimilarNode) → List Event
  | .ok hits => [⟨.debug, "nautylus::hybrid",
      "Found " ++ toString hits.length ++ " nodes similar to " ++ node.text⟩]
  | .error _ => []

end HybridStore

end VectorGraph
