import VectorGraph.Hybrid
import VectorGraph.Session.Graph
import VectorGraph.Session.Vector

/-!
Requests to a hybrid store, and their answers. Either part can be asked and changed on its own, and then
refuses with its own error.
-/
namespace VectorGraph.HybridStore

inductive Request where
  | graph (r : Graph.Request)
  | vectors (r : VectorIndex.Request)
  | createNode (v : Vec)
  | setVector (node : NodeId) (v : Vec)
  | vector (node : NodeId)
  | deleteNode (node : NodeId)
  | connected (a b : NodeId)
  | similarNodes (node : NodeId) (k : Nat)
  | contents

inductive Reply where
  | graph (r : Graph.Reply)
  | vectors (r : VectorIndex.Reply)
  | done
  | created (node : NodeId)
  | vector (v : Option Vec)
  | flag (b : Bool)
  | similar (hits : List SimilarNode)
  | contents (g : Graph.Contents) (x : VectorIndex.Contents)
deriving DecidableEq

/-- A refusal by one part alone, or by the store. -/
inductive Refusal where
  | graph (e : GraphError)
  | vectors (e : VectorError)
  | store (e : HybridError)
deriving DecidableEq

def answer (s : HybridStore) : Request → Except Refusal Reply × HybridStore
  | .graph r =>
    let a := s.graph.answer r
    ((a.1.map .graph).mapError .graph, { s with graph := a.2 })
  | .vectors r =>
    let a := s.vectors.answer r
    ((a.1.map .vectors).mapError .vectors, { s with vectors := a.2 })
  | .createNode v =>
    let a := s.createNode v
    ((a.1.map .created).mapError .store, a.2)
  | .setVector node v =>
    let a := s.setVector node v
    ((a.1.map fun _ => .done).mapError .store, a.2)
  | .vector node => (.ok (.vector (s.vector? node)), s)
  | .deleteNode node =>
    let a := s.deleteNode node
    ((a.1.map fun _ => .done).mapError .store, a.2)
  | .connected a b => (.ok (.flag (s.connected a b)), s)
  | .similarNodes node k => (((s.similarNodes node k).map .similar).mapError .store, s)
  | .contents => (.ok (.contents s.graph.contents s.vectors.contents), s)

end VectorGraph.HybridStore
