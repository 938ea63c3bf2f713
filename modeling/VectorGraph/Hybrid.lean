import VectorGraph.Config
import VectorGraph.Graph
import VectorGraph.Vector.Index

/-!
A graph with vectors under the handles of its nodes. The two parts can also be changed on their own; the
operations here keep them in step.
-/
namespace VectorGraph

inductive HybridError where
  | graph (cause : GraphError)
  | vector (cause : VectorError)
  | missingVector (node : NodeId)
deriving DecidableEq

def HybridError.message : HybridError → String
  | graph cause => "Graph error: " ++ cause.message
  | vector cause => "Vector error: " ++ cause.message
  | missingVector node => "Node " ++ node.text ++ " has no vector"

/-- A node whose vector is near another node's, and whether an edge joins the two. -/
structure SimilarNode where
  id : NodeId
  distance : Binary32
  connected : Bool
deriving DecidableEq, Inhabited

structure HybridStore where
  graph : Graph
  vectors : VectorIndex

namespace HybridStore

/-- The graph is built before the index. -/
def ofConfig (c : Config) (allocator : Allocator := .addressSpace) : Except HybridError HybridStore := do
  let graph ← (Graph.ofConfig c.graph).mapError .graph
  let vectors ← (VectorIndex.ofConfig c.vector allocator).mapError .vector
  return ⟨graph, vectors⟩

/-- Creates a node with a vector. The index is asked for room before a node is made, and the node is
deleted again if its vector is refused. -/
def createNode (s : HybridStore) (v : Vec) : Except HybridError NodeId × HybridStore :=
  match s.vectors.ensureRoom v with
  | .error e => (.error (.vector e), s)
  | .ok () =>
    match s.graph.createNode with
    | (.error e, graph) => (.error (.graph e), { s with graph })
    | (.ok node, graph) =>
      match s.vectors.set node.id v with
      | (.ok (), vectors) => (.ok node, ⟨graph, vectors⟩)
      | (.error e, vectors) =>
        match graph.deleteNode node with
        | (.ok (), graph) => (.error (.vector e), ⟨graph, vectors⟩)
        | (.error e, graph) => (.error (.graph e), ⟨graph, vectors⟩)

def setVector (s : HybridStore) (node : NodeId) (v : Vec) : Except HybridError Unit × HybridStore :=
  if s.graph.nodes.contains node then
    match s.vectors.set node.id v with
    | (.ok (), vectors) => (.ok (), { s with vectors })
    | (.error e, vectors) => (.error (.vector e), { s with vectors })
  else (.error (.graph (.nodeNotFound node)), s)

def vector? (s : HybridStore) (node : NodeId) : Option Vec := s.vectors.get? node.id

def deleteNode (s : HybridStore) (node : NodeId) : Except HybridError Unit × HybridStore :=
  match s.graph.deleteNode node with
  | (.error e, graph) => (.error (.graph e), { s with graph })
  | (.ok (), graph) =>
    if s.vectors.contains node.id then
      match s.vectors.remove node.id with
      | (.ok (), vectors) => (.ok (), ⟨graph, vectors⟩)
      | (.error e, vectors) => (.error (.vector e), ⟨graph, vectors⟩)
    else (.ok (), { s with graph })

def connected (s : HybridStore) (a b : NodeId) : Bool :=
  !(s.graph.edgesBetween a b).isEmpty || !(s.graph.edgesBetween b a).isEmpty

/-- The `k` other nodes with the nearest vectors. One more neighbour is asked for than is wanted, since
the node itself may be among them. -/
def similarNodes (s : HybridStore) (node : NodeId) (k : Nat) : Except HybridError (List SimilarNode) :=
  match s.vectors.get? node.id with
  | none => .error (.missingVector node)
  | some query =>
    match s.vectors.nearest query (k + 1) with
    | .error e => .error (.vector e)
    | .ok hits =>
      .ok (((hits.filter (·.id != node.id)).take k).map fun hit =>
        ⟨⟨hit.id⟩, hit.distance, s.connected node ⟨hit.id⟩⟩)

end HybridStore

end VectorGraph
