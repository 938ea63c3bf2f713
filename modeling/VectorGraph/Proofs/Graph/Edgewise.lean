import VectorGraph.Proofs.Graph.Adjacency

/-! Deleting a node comes to the same graph as deleting its edges one by one and then the node alone. The
loops of a deletion look for the first edge of a list anew in every round, while the edges that are deleted
one by one are read off the lists beforehand. -/
namespace VectorGraph.Graph

variable {g h k : Graph} {n : NodeId} {d : Direction} {es fs : List EdgeId}

/-- Edges removed in turn, each from the graph that those before it leave. -/
inductive Deletes : List EdgeId → Graph → Graph → Prop where
  | nil {g : Graph} : Deletes [] g g
  | cons {e : EdgeId} {es : List EdgeId} {g h k : Graph} : g.removeEdge? e = some h → Deletes es h k →
      Deletes (e :: es) g k

theorem Deletes.append (first : Deletes es g h) (second : Deletes fs h k) : Deletes (es ++ fs) g k := by
  induction first with
  | nil => exact second
  | cons removed _ ih => exact .cons removed (ih second)

theorem Deletes.after_eq (deletes : Deletes es g h) : Session.after answer g (es.map .deleteEdge) = h := by
  induction deletes with
  | nil => rfl
  | cons removed _ ih => simpa [Session.after, answer, outcome, deleteEdge, removed] using ih

theorem Deletes.transcript_eq (deletes : Deletes es g h) :
    Session.transcript answer g (es.map .deleteEdge) = (es.map .deleteEdge).map (·, .ok .done) := by
  induction deletes with
  | nil => rfl
  | cons removed _ ih =>
    simp only [List.map_cons, Session.transcript, answer, outcome, deleteEdge, removed, ih]
    rfl

theorem Drains.deletes {rounds : Nat} (drains : Drains n d rounds g h) (valid : g.Valid)
    (live : g.nodes.contains n) : Deletes (g.incident n d) g h := by
  induction drains with
  | done finished =>
    rw [first_eq valid live, List.head?_eq_none_iff] at finished
    rw [finished]
    exact .nil
  | round first removed _ ih =>
    rw [first_eq valid live] at first
    obtain ⟨rest, listed⟩ := List.head?_eq_some_iff.mp first
    obtain ⟨next, same, drops, remaining⟩ := valid.remove_first live listed
    obtain rfl := Option.some.inj (removed.symm.trans same)
    rw [listed]
    have later := ih drops.valid (drops.nodes.contains _ ▸ live)
    exact .cons removed (remaining ▸ later)

/-- Self-loops leave the incoming list while the outgoing one is emptied. -/
theorem Drops.incident_incoming (valid : g.Valid) (drops : g.Drops (·.owner .outgoing == n) h) :
    h.incident n .incoming = (g.incident n .incoming).filter fun e => !(g.edges.get? e).any (·.isLoop) := by
  rw [incident_of_rows valid drops.valid drops.rows]
  apply List.filter_congr
  intro e member
  obtain ⟨r, stored, owner⟩ := (mem_incident valid.edges).mp member
  rw [contains_of_rows valid drops.valid drops.rows stored, stored, Edge.owner_bare, Option.any_some, ← owner]
  rfl

theorem node_of_incident_nil (valid : g.Valid) (live : g.nodes.contains n) (bare : ∀ d, g.incident n d = []) :
    g.nodes.get? n = some { id := n } := by
  rw [valid.get?_node live, bare, bare]
  rfl

theorem detach_of_incident_nil (valid : g.Valid) (live : g.nodes.contains n) (none_listed : g.incident n d = []) :
    g.detach n d = g := by
  have finished : (g.nodes.get? n).bind (·.first d) = none := by
    rw [first_eq valid live, none_listed, List.head?_nil]
  exact (Drains.done finished).drain_eq (Nat.zero_le _)

theorem Drops.incident_nil (drops : g.Drops (·.touches n) h) (d : Direction) : h.incident n d = [] := by
  rw [drops.incident, List.map_eq_nil_iff, List.filter_filter, List.filter_eq_nil_iff]
  intro r _
  cases d <;> simp only [Edge.touches, Edge.owner, Bool.not_or] <;> grind

/-- The edges on a node, as its lists stand: the outgoing ones and then the incoming ones, without the
self-loops, which are on both lists. -/
def edgesOn (g : Graph) (n : NodeId) : List EdgeId :=
  g.edgesOf n .outgoing ++ (g.edgesOf n .incoming).filter fun e => !(g.edges.get? e).any (·.isLoop)

/-- The two loops of a deletion remove the edges on the node and no others. -/
theorem detach_deletes (valid : g.Valid) (live : g.nodes.contains n) :
    Deletes (g.edgesOn n) g ((g.detach n .outgoing).detach n .incoming) ∧
      g.Drops (·.touches n) ((g.detach n .outgoing).detach n .incoming) := by
  obtain ⟨first, outgoing⟩ := detach_drains valid live .outgoing
  have still : (g.detach n .outgoing).nodes.contains n := outgoing.nodes.contains n ▸ live
  obtain ⟨second, incoming⟩ := detach_drains outgoing.valid still .incoming
  refine ⟨?_, outgoing.trans incoming⟩
  rw [edgesOn, edgesOf_eq valid, edgesOf_eq valid, ← outgoing.incident_incoming valid]
  exact (first.deletes valid live).append (second.deletes outgoing.valid still)

/-- Every edge on a node can be deleted by itself, and once all are gone, the deletion of the node leaves the
same graph as if they had been there. -/
theorem deleteNode_edgewise (reachable : g.Reachable) (live : g.nodes.contains n) :
    let removals := (g.edgesOn n).map Request.deleteEdge
    let bare := Session.after answer g removals
    Session.transcript answer g removals = removals.map (·, .ok .done) ∧
      bare.nodes.get? n = some { id := n } ∧ (∀ d, bare.edgesOf n d = []) ∧
      ∃ h, g.deleteNode n = (.ok (), h) ∧ bare.deleteNode n = (.ok (), h) := by
  intro removals bare
  have valid := reachable.valid
  obtain ⟨deletes, drops⟩ := detach_deletes valid live
  have same : bare = (g.detach n .outgoing).detach n .incoming := deletes.after_eq
  rw [← same] at drops
  have still : bare.nodes.contains n := drops.nodes.contains n ▸ live
  have alone := drops.incident_nil
  refine ⟨deletes.transcript_eq, node_of_incident_nil drops.valid still alone, ?_, ?_⟩
  · intro d
    rw [edgesOf_eq drops.valid, alone]
  · refine ⟨_, by rw [deleteNode, if_pos live], ?_⟩
    rw [deleteNode, if_pos still, detach_of_incident_nil drops.valid still (alone .outgoing),
      detach_of_incident_nil drops.valid still (alone .incoming), same]

/-- Two self-loops and edges both ways. The self-loops are named once, among the outgoing edges, and the edge in
the slot that was freed comes last there. -/
theorem deleteNode_edgewise_loops :
    let a : NodeId := ⟨.ofParts 0 1⟩
    let b : NodeId := ⟨.ofParts 1 1⟩
    let e (slot generation : Nat) : EdgeId := ⟨.ofParts slot generation⟩
    let edge (source target : NodeId) : Request := .createEdge source target 0 ⟨0⟩ 0
    let requests := [.createNode, .createNode, edge a a, edge b a, edge a b, edge b b, .deleteEdge (e 1 1), edge a a,
      edge b a]
    ∃ start, create 2 6 1 = .ok start ∧
      let g := Session.after answer start requests
      let removals := (g.edgesOn a).map Request.deleteEdge
      let bare := Session.after answer g removals
      g.nodes.contains a ∧ g.edgesOn a = [e 0 1, e 2 1, e 1 2, e 4 1] ∧
        Session.transcript answer g removals = removals.map (·, .ok .done) ∧
        bare.nodes.get? a = some { id := a } ∧
        ∃ h, g.deleteNode a = (.ok (), h) ∧ bare.deleteNode a = (.ok (), h) := by
  intro a b e edge requests
  let start := fresh 2 6 1
  let g := Session.after answer start requests
  have live : g.nodes.contains a := by decide +kernel
  have named : g.edgesOn a = [e 0 1, e 2 1, e 1 2, e 4 1] := by decide +kernel
  obtain ⟨granted, alone, _, same⟩ := deleteNode_edgewise (g := g) ⟨2, 6, 1, start, requests, rfl, rfl⟩ live
  exact ⟨start, rfl, live, named, granted, alone, same⟩

end VectorGraph.Graph
