import VectorGraph.Proofs.Hybrid.Similar

/-! Edges as queries find them from their two ends. The outgoing list of a node and the incoming list of another are
linked apart from each other and read by way of their links, yet both are picked from one table of edges, in its order.
So a question about two nodes has one answer from either side, also where a node is dead or never was. -/
namespace VectorGraph

namespace Graph

variable {g : Graph}

/-- The edges on a list that have something more in common, picked from the creation order. -/
theorem filter_incident (g : Graph) (n : NodeId) (d : Direction) (keep : Edge → Bool) :
    ((g.incident n d).filter fun e => (g.edges.get? e).any keep) =
      g.edges.refs.filter fun e => (g.edges.get? e).any fun r => r.owner d == n && keep r := by
  rw [incident, List.filter_filter]
  congr 1
  funext e
  cases g.edges.get? e with
  | none => rfl
  | some r => simp [Bool.and_comm]

theorem neighbors_eq_values (valid : g.Valid) (n : NodeId) (d : Direction) :
    g.neighbors n d = (g.edges.values.filter (·.owner d == n)).map (·.opposite d) := by
  rw [neighbors, edgesOf_eq valid, incident, Table.values, List.filter_filterMap, List.map_filterMap,
    List.filterMap_filter]
  apply List.filterMap_congr
  intro e _
  cases g.edges.get? e with
  | none => simp
  | some r => by_cases owner : r.owner d = n <;> simp [owner, Option.filter]

theorem length_neighbors (valid : g.Valid) (n : NodeId) (d : Direction) :
    (g.neighbors n d).length = g.degree n d := by
  rw [neighbors_eq_values valid, degree_eq_countP valid, rows_eq_values, List.length_map, List.countP_map,
    List.countP_eq_length_filter]
  simp only [Function.comp_def, Edge.owner_bare]

/-- A node is among the neighbors of another one as often as edges run between the two. -/
theorem count_neighbors (valid : g.Valid) (n m : NodeId) (d : Direction) :
    (g.neighbors n d).count m = g.edges.values.countP fun r => r.owner d == n && r.opposite d == m := by
  rw [neighbors_eq_values valid, List.count_eq_countP, List.countP_map, List.countP_filter]
  simp only [Function.comp_def, Bool.and_comm]

/-- What is told of two nodes from either side, as the table of edges has it. -/
structure Tallies (g : Graph) (a b : NodeId) : Prop where
  between : g.edgesBetween a b =
    g.edges.refs.filter fun e => (g.edges.get? e).any fun r => r.source == a && r.target == b
  arriving : g.edgesBetween a b = (g.edgesOf b .incoming).filter fun e => (g.edges.get? e).any (·.source == a)
  neighbors : ∀ d, g.neighbors a d = (g.edges.values.filter (·.owner d == a)).map (·.opposite d)
  degree : ∀ d, g.degree a d = (g.neighbors a d).length
  dead : g.nodes.contains a = false → ∀ d, g.degree a d = 0
  count : (g.neighbors a .outgoing).count b = (g.neighbors b .incoming).count a

theorem Valid.tallies (valid : g.Valid) (a b : NodeId) : g.Tallies a b where
  between := by
    rw [edgesBetween, edgesOf_eq valid]
    exact filter_incident g a .outgoing (·.target == b)
  arriving := by
    rw [edgesBetween, edgesOf_eq valid, edgesOf_eq valid, filter_incident, filter_incident]
    simp only [Edge.owner, Bool.and_comm]
  neighbors := neighbors_eq_values valid a
  degree := fun d => (length_neighbors valid a d).symm
  dead := by
    intro dead d
    rw [Graph.degree, edgesOf_eq valid, incident_of_dead valid dead, List.length_nil]
  count := by
    rw [count_neighbors valid, count_neighbors valid]
    simp only [Edge.owner, Edge.opposite, Bool.and_comm]

end Graph

/-- What queries find between two nodes is what the table of edges holds, whichever of them it is asked of. -/
theorem queries_tally :
    (∀ g : Graph, g.Reachable → ∀ a b, g.Tallies a b) ∧
      ∀ s : HybridStore, s.Reachable → ∀ a b, s.graph.Tallies a b ∧ s.connected a b = s.connected b a ∧
        (s.connected a b ↔ s.graph.Joins a b) := by
  refine ⟨fun g reachable => reachable.valid.tallies, fun s reachable a b => ⟨reachable.valid.graph.tallies a b, ?_, ?_⟩⟩
  · exact Bool.or_comm ..
  · exact HybridStore.connected_iff reachable.valid a b

/-- Parallel edges, a loop and an edge back. The third node is gone, and with it the edges between it and the first. -/
theorem queries_tally_parallel :
    let node (slot : Nat) : NodeId := ⟨.ofParts slot 1⟩
    let e (slot : Nat) : EdgeId := ⟨.ofParts slot 1⟩
    let edge (source target : Nat) : Graph.Request := .createEdge (node source) (node target) 0 ⟨0⟩ 0
    let requests := [.createNode, .createNode, .createNode, edge 0 1, edge 0 2, edge 1 0, edge 0 1, edge 0 0, edge 2 0,
      .deleteNode (node 2)]
    ∃ start index, Graph.create 3 6 1 = .ok start ∧ VectorIndex.create 1 1 = .ok index ∧
      let g := Session.after Graph.answer start requests
      let s : HybridStore := ⟨g, index⟩
      g.edgesBetween (node 0) (node 1) = [e 0, e 3] ∧ g.neighbors (node 0) .incoming = [node 1, node 0] ∧
        (g.neighbors (node 0) .outgoing).count (node 1) = 2 ∧ g.nodes.contains (node 2) = false ∧
        g.degree (node 2) .outgoing = 0 ∧ s.connected (node 0) (node 1) = s.connected (node 1) (node 0) ∧
        s.connected (node 1) (node 0) ∧ ¬ s.graph.Joins (node 0) (node 2) := by
  intro node e edge requests
  let start : Graph := .fresh 3 6 1
  let index : VectorIndex := .fresh 1 1
  let g := Session.after Graph.answer start requests
  let s : HybridStore := ⟨g, index⟩
  have made : g.Reachable := ⟨3, 6, 1, start, requests, rfl, rfl⟩
  have joined : s.Reachable := ⟨g, index, [], made, ⟨1, 1, .addressSpace, index, [], rfl, rfl⟩, rfl⟩
  have tallies := queries_tally.1 g made (node 0) (node 1)
  obtain ⟨_, symmetric, _⟩ := queries_tally.2 s joined (node 0) (node 1)
  obtain ⟨_, _, joins⟩ := queries_tally.2 s joined (node 0) (node 2)
  have gone : g.nodes.contains (node 2) = false := by decide +kernel
  refine ⟨start, index, rfl, rfl, ?_, ?_, ?_, gone, ?_, symmetric, by decide +kernel, ?_⟩
  · rw [tallies.between]
    decide +kernel
  · rw [tallies.neighbors]
    decide +kernel
  · rw [tallies.count]
    decide +kernel
  · exact (queries_tally.1 g made (node 2) (node 0)).dead gone .outgoing
  · rw [← joins]
    decide +kernel

end VectorGraph
