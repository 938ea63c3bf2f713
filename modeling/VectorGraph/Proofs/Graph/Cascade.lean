import VectorGraph.Proofs.Graph.Adjacency

/-! Deleting a node takes exactly the edges on it along, and each of them once, also one that the node has
on both of its lists. -/
namespace VectorGraph.Graph

variable {g h : Graph} {n : NodeId}

theorem edgesBetween_eq_rows (valid : g.Valid) (source target : NodeId) :
    g.edgesBetween source target = (g.rows.filter fun r => r.source == source && r.target == target).map Edge.id := by
  have labelled : g.edges.Labelled fun r => r.bare.id := valid.edgeIds
  have ends := Table.filter_refs labelled fun r => r.source == source && r.target == target
  rw [edgesBetween, edgesOf_eq valid, incident, List.filter_filter, rows, ← ends]
  congr 1
  funext e
  cases g.edges.get? e with
  | none => rfl
  | some r => simp [Edge.owner, Edge.bare, Bool.and_comm]

theorem degree_eq_countP (valid : g.Valid) (n : NodeId) (d : Direction) :
    g.degree n d = g.rows.countP (·.owner d == n) := by
  rw [degree, edgesOf_eq valid, incident_eq_rows valid, List.length_map, List.countP_eq_length_filter]

theorem length_edgesBetween (valid : g.Valid) (source target : NodeId) :
    (g.edgesBetween source target).length = g.rows.countP fun r => r.source == source && r.target == target := by
  rw [edgesBetween_eq_rows valid, List.length_map, List.countP_eq_length_filter]

/-- An edge on both lists of a node is counted by both of them. -/
theorem countP_touches (rows : List Edge) (n : NodeId) :
    rows.countP (·.touches n) + rows.countP (fun r => r.source == n && r.target == n) =
      rows.countP (·.source == n) + rows.countP (·.target == n) := by
  induction rows with
  | nil => rfl
  | cons r rows ih =>
    simp only [List.countP_cons, Edge.touches]
    cases r.source == n <;> cases r.target == n <;> simp <;> simp only [Edge.touches] at ih <;> omega

theorem DropsNode.edgeCount (valid : g.Valid) (drops : g.DropsNode n h) :
    h.edges.size + g.degree n .outgoing + g.degree n .incoming =
      g.edges.size + (g.edgesBetween n n).length := by
  have touched := countP_touches g.rows n
  have gone := size_of_rows valid drops.valid drops.rows
  rw [degree_eq_countP valid, degree_eq_countP valid, length_edgesBetween valid]
  simp only [Edge.owner]
  omega

/-- A graph without a node and the edges on it, and otherwise the same to every query. -/
structure Cascades (g : Graph) (n : NodeId) (h : Graph) : Prop where
  edges : ∀ e r, g.edges.get? e = some r → (h.edges.contains e ↔ r.source ≠ n ∧ r.target ≠ n)
  survivors : ∀ e s, h.edges.get? e = some s → ∃ r, g.edges.get? e = some r ∧ r.bare = s.bare
  edgeCount : h.edges.size + g.degree n .outgoing + g.degree n .incoming =
    g.edges.size + (g.edgesBetween n n).length
  edgeOrder : h.edges.refs = g.edges.refs.filter h.edges.contains
  nodes : ∀ m, h.nodes.contains m ↔ m ≠ n ∧ g.nodes.contains m
  nodeCount : h.nodes.size + 1 = g.nodes.size
  nodeOrder : h.nodes.refs = g.nodes.refs.filter (· != n)
  lists : ∀ m d, h.edgesOf m d = (g.edgesOf m d).filter h.edges.contains
  properties : h.properties = g.properties

theorem DropsNode.cascades (valid : g.Valid) (drops : g.DropsNode n h) : g.Cascades n h where
  edges := by
    intro e r stored
    rw [contains_of_rows valid drops.valid drops.rows stored]
    simp [Edge.touches, Edge.bare]
  survivors := by
    intro e s stored
    obtain ⟨r, before, same, _⟩ := find_of_rows valid drops.valid drops.rows stored
    exact ⟨r, before, same⟩
  edgeCount := drops.edgeCount valid
  edgeOrder := refs_of_rows valid drops.valid drops.rows
  nodes := drops.contains_node valid
  nodeCount := drops.nodeCount
  nodeOrder := drops.nodes
  lists := by
    intro m d
    rw [edgesOf_eq drops.valid, edgesOf_eq valid]
    exact incident_of_rows valid drops.valid drops.rows m d
  properties := drops.properties

/-- The deletion of a live node always comes to its end, and takes away no more than it must. -/
theorem deleteNode_cascades (reachable : g.Reachable) (live : g.nodes.contains n) :
    ∃ h, g.deleteNode n = (.ok (), h) ∧ Empties n g h ∧ g.Cascades n h := by
  have valid := reachable.valid
  rcases deleteNode_cases valid n with ⟨dead, _⟩ | ⟨_, h, deleted, drops⟩
  · simp [dead] at live
  · exact ⟨h, deleted, drops.empties, drops.cascades valid⟩

/-- A loop is on both lists of the node, so four edges go where the lists have five places. -/
theorem deleteNode_cascades_loop :
    let a : NodeId := ⟨.ofParts 0 1⟩
    let b : NodeId := ⟨.ofParts 1 1⟩
    let c : NodeId := ⟨.ofParts 2 1⟩
    let edge (source target : NodeId) : Request := .createEdge source target 0 ⟨0⟩ 0
    let requests := [.createNode, .createNode, .createNode, edge a a, edge a b, edge a b, edge b a, edge b c,
      edge c c]
    ∃ start, create 3 6 1 = .ok start ∧
      let g := Session.after answer start requests
      g.edges.size = 6 ∧ g.degree a .outgoing = 3 ∧ g.degree a .incoming = 2 ∧
        (g.edgesBetween a a).length = 1 ∧
        ∃ h, g.deleteNode a = (.ok (), h) ∧ h.edges.size = 2 ∧ h.nodes.size = 2 ∧
          ¬ h.nodes.contains a ∧ h.nodes.contains b ∧ h.nodes.contains c := by
  intro a b c edge requests
  let start := fresh 3 6 1
  let g := Session.after answer start requests
  have live : g.nodes.contains a ∧ g.nodes.contains b ∧ g.nodes.contains c := by decide +kernel
  obtain ⟨h, deleted, _, cascades⟩ := deleteNode_cascades (g := g) ⟨3, 6, 1, start, requests, rfl, rfl⟩ live.1
  have edges : g.edges.size = 6 := by decide +kernel
  have nodes : g.nodes.size = 3 := by decide +kernel
  have outgoing : g.degree a .outgoing = 3 := by decide +kernel
  have incoming : g.degree a .incoming = 2 := by decide +kernel
  have loops : (g.edgesBetween a a).length = 1 := by decide +kernel
  have fewer := cascades.edgeCount
  have nodeCount := cascades.nodeCount
  refine ⟨start, rfl, edges, outgoing, incoming, loops, h, deleted, by omega, by omega, ?_, ?_, ?_⟩
  · simp [cascades.nodes]
  · exact (cascades.nodes b).mpr ⟨by decide, live.2.1⟩
  · exact (cascades.nodes c).mpr ⟨by decide, live.2.2⟩

end VectorGraph.Graph
