import VectorGraph.Proofs.Graph.Steps

/-! Draining a list removes the first of its edges until none is left. In a valid graph the list of a node
is drained by as many removals as it has edges, and what goes is exactly the edges on it. -/
namespace VectorGraph

/-- An edge starts or ends at a node. -/
def Edge.touches (r : Edge) (n : NodeId) : Bool := r.source == n || r.target == n

namespace Graph

variable {g h : Graph} {n : NodeId} {d : Direction}

theorem Drops.congr {first second : Edge → Bool} (drops : g.Drops first h)
    (same : ∀ r ∈ g.rows, first r = second r) : g.Drops second h where
  valid := drops.valid
  nodes := drops.nodes
  rows := by
    rw [drops.rows]
    apply List.filter_congr
    intro r member
    rw [same r member]
  capacity := drops.capacity
  properties := drops.properties

theorem Drops.incident {gone : Edge → Bool} (drops : g.Drops gone h) (n : NodeId) (d : Direction) :
    h.incident n d = ((g.rows.filter (·.owner d == n)).filter fun r => !gone r).map Edge.id := by
  rw [incident_eq_rows drops.valid, drops.rows, List.filter_filter, List.filter_filter]
  simp only [Bool.and_comm]

theorem owner_of_mem_rows (valid : g.Valid) {r : Edge} {e : EdgeId} (member : r ∈ g.rows) (id : r.id = e)
    (listed : e ∈ g.incident n d) : r.owner d = n := by
  obtain ⟨s, stored, bare⟩ := (mem_rows valid).mp member
  obtain ⟨t, there, owner⟩ := (mem_incident valid.edges).mp listed
  obtain rfl : s = t := Option.some.inj (stored.symm.trans (id ▸ there))
  rw [← bare, Edge.owner_bare, owner]

theorem first_eq (valid : g.Valid) (live : g.nodes.contains n) (d : Direction) :
    (g.nodes.get? n).bind (·.first d) = (g.incident n d).head? := by
  obtain ⟨node, stored⟩ := Table.contains_iff.mp live
  rw [stored, Option.bind_some, (valid.threads n live d).first_eq stored]

theorem Drops.incident_ne {e : EdgeId} (valid : g.Valid) (drops : g.Drops (·.id == e) h) (n : NodeId)
    (d : Direction) : h.incident n d = (g.incident n d).filter (· != e) := by
  rw [drops.incident, incident_eq_rows valid, List.filter_map]
  rfl

/-- An empty list belongs to a node that owns no edge. -/
theorem not_owner_of_incident_nil (valid : g.Valid) (none_listed : g.incident n d = []) :
    ∀ r ∈ g.rows, (r.owner d == n) = false := by
  rw [incident_eq_rows valid, List.map_eq_nil_iff, List.filter_eq_nil_iff] at none_listed
  simpa using none_listed

/-- The first edge of a list can be removed, and the rest of the list stays as it was. -/
theorem Valid.remove_first {e : EdgeId} {rest : List EdgeId} (valid : g.Valid) (live : g.nodes.contains n)
    (listed : g.incident n d = e :: rest) :
    ∃ h, g.removeEdge? e = some h ∧ g.Drops (·.id == e) h ∧ h.incident n d = rest := by
  have member : e ∈ g.incident n d := by simp [listed]
  obtain ⟨r, stored, _⟩ := (mem_incident valid.edges).mp member
  obtain ⟨h, removed, drops⟩ := removeEdge?_drops valid stored
  have nodup : ([] ++ e :: rest).Nodup := listed ▸ (valid.threads n live d).nodup
  refine ⟨h, removed, drops, ?_⟩
  rw [drops.incident_ne valid, listed]
  exact Links.filter_split nodup

/-- The rounds that remove the first edge of a list until none is left. -/
inductive Drains (n : NodeId) (d : Direction) : Nat → Graph → Graph → Prop where
  | done {g : Graph} : (g.nodes.get? n).bind (·.first d) = none → Drains n d 0 g g
  | round {g h k : Graph} {e : EdgeId} {rounds : Nat} : (g.nodes.get? n).bind (·.first d) = some e →
      g.removeEdge? e = some h → Drains n d rounds h k → Drains n d (rounds + 1) g k

theorem Drains.drain_eq {rounds count : Nat} (drains : Drains n d rounds g h) (enough : rounds ≤ count) :
    g.drain n d count = h := by
  induction drains generalizing count with
  | done finished => cases count <;> simp [drain, finished]
  | round first removed _ ih =>
    cases count with
    | zero => omega
    | succ count =>
      rw [drain, first]
      simp only [removed]
      exact ih (by omega)

/-- Every round takes one edge of the list, so there are as many as the list has edges. -/
theorem drains_drops (valid : g.Valid) (live : g.nodes.contains n) (d : Direction) {rounds : Nat}
    (length : (g.incident n d).length = rounds) :
    ∃ h, Drains n d rounds g h ∧ g.Drops (·.owner d == n) h := by
  induction rounds generalizing g with
  | zero =>
    have none_listed := List.eq_nil_of_length_eq_zero length
    refine ⟨g, .done ?_, .refl valid (not_owner_of_incident_nil valid none_listed)⟩
    rw [first_eq valid live, none_listed, List.head?_nil]
  | succ rounds ih =>
    obtain ⟨e, rest, listed⟩ := List.exists_cons_of_length_eq_add_one length
    have member : e ∈ g.incident n d := by simp [listed]
    obtain ⟨h, removed, drops, remaining⟩ := valid.remove_first live listed
    obtain ⟨k, later, rest_drops⟩ := ih drops.valid (drops.nodes.contains n ▸ live)
      (by rw [remaining]; simpa [listed] using length)
    refine ⟨k, .round ?_ removed later, (drops.trans rest_drops).congr ?_⟩
    · rw [first_eq valid live, listed, List.head?_cons]
    · intro s row
      by_cases first : s.id = e
      · simp [first, owner_of_mem_rows valid row first member]
      · simp [first]

/-- A loop is never cut short, since no list has more edges than the graph. -/
theorem detach_drains (valid : g.Valid) (live : g.nodes.contains n) (d : Direction) :
    Drains n d (g.incident n d).length g (g.detach n d) ∧ g.Drops (·.owner d == n) (g.detach n d) := by
  obtain ⟨h, drains, drops⟩ := drains_drops valid live d rfl
  have same : g.detach n d = h := drains.drain_eq (length_incident_le valid n d)
  exact same ▸ ⟨drains, drops⟩

/-- Both loops of a deletion run until their list is empty, and then the node goes. -/
def Empties (n : NodeId) (g h : Graph) : Prop :=
  ∃ first second halved emptied nodes, Drains n .outgoing first g halved ∧
    Drains n .incoming second halved emptied ∧ emptied.nodes.release? n = some nodes ∧
    h = { emptied with nodes := nodes.forget n }

/-- The graph without a node and its edges. -/
structure DropsNode (g : Graph) (n : NodeId) (h : Graph) : Prop where
  valid : h.Valid
  empties : Empties n g h
  nodes : h.nodes.refs = g.nodes.refs.filter (· != n)
  nodeCount : h.nodes.size + 1 = g.nodes.size
  nodeCapacity : h.nodes.capacity = g.nodes.capacity
  nodeHistory : g.nodes.records.Continues [.retired n.id] h.nodes.records
  rows : h.rows = g.rows.filter fun r => !r.touches n
  edgeCapacity : h.edges.capacity = g.edges.capacity
  properties : h.properties = g.properties

theorem DropsNode.contains_node (drops : g.DropsNode n h) (valid : g.Valid) (m : NodeId) :
    h.nodes.contains m ↔ m ≠ n ∧ g.nodes.contains m := by
  rw [← drops.valid.nodes.mem_refs, ← valid.nodes.mem_refs, drops.nodes, List.mem_filter, bne_iff_ne, and_comm]

/-- Edges run between live nodes, so none touches a dead one. -/
theorem untouched_of_dead (valid : g.Valid) (dead : g.nodes.contains n = false) :
    ∀ r ∈ g.rows, r.touches n = false := by
  intro r member
  obtain ⟨s, stored, rfl⟩ := (mem_rows valid).mp member
  have other (d : Direction) : s.owner d ≠ n := by
    rintro rfl
    simp [valid.owners _ s stored d] at dead
  simpa [Edge.touches, Edge.bare] using ⟨other .outgoing, other .incoming⟩

/-- A node that no edge touches can be taken away by itself. -/
theorem Valid.release_node {nodes : Table .node Node} (valid : g.Valid) (step : g.nodes.Erases n nodes)
    (apart : ∀ r ∈ g.rows, r.touches n = false) : ({ g with nodes } : Graph).Valid := by
  have kept (m : NodeId) (other : m ≠ n) : nodes.get? m = g.nodes.get? m := by rw [step.get?, if_neg other]
  have live (m : NodeId) : nodes.contains m ↔ m ≠ n ∧ g.nodes.contains m := by
    rw [Table.contains_eq_isSome, Table.contains_eq_isSome, step.get?]
    split <;> simp_all
  refine ⟨step.valid, valid.edges, valid.properties, step.labelled valid.nodeIds, valid.edgeIds,
    valid.propertyIds, ?_, ?_⟩
  · intro e r stored d
    rw [live]
    refine ⟨?_, valid.owners e r stored d⟩
    obtain rfl := valid.edgeIds e r stored
    have free := apart r.bare ((mem_rows valid).mpr ⟨r, stored, rfl⟩)
    simp only [Edge.touches, Edge.bare, Bool.or_eq_false_iff, beq_eq_false_iff_ne] at free
    cases d
    · exact free.1
    · exact free.2
  · intro m listed d
    obtain ⟨other, before⟩ := (live m).mp listed
    exact (valid.threads m before d).congr (kept m other) fun _ _ => rfl

theorem deleteNode_cases (valid : g.Valid) (n : NodeId) :
    (g.nodes.contains n = false ∧ g.deleteNode n = (.error (.nodeNotFound n), g)) ∨
      g.nodes.contains n ∧ ∃ h, g.deleteNode n = (.ok (), h) ∧ g.DropsNode n h := by
  unfold deleteNode
  by_cases live : g.nodes.contains n
  · obtain ⟨first, outgoing⟩ := detach_drains valid live .outgoing
    obtain ⟨second, incoming⟩ := detach_drains outgoing.valid (outgoing.nodes.contains n ▸ live) .incoming
    have drops : g.Drops (·.touches n) ((g.detach n .outgoing).detach n .incoming) := outgoing.trans incoming
    generalize (g.detach n .outgoing).detach n .incoming = u at drops second
    cases released : u.nodes.release? n with
    | none =>
      have := Table.release?_eq_none_iff.mp released
      simp [drops.nodes.contains, live] at this
    | some nodes =>
      have step := Table.release?_erases drops.valid.nodes released
      have apart : ∀ r ∈ u.rows, r.touches n = false := by
        intro r member
        rw [drops.rows] at member
        simpa using (List.mem_filter.mp member).2
      refine .inr ⟨live, { u with nodes := nodes.forget n }, by simp [live, released], ?_⟩
      exact ⟨drops.valid.release_node step apart, ⟨_, _, _, u, nodes, first, second, released, rfl⟩,
        by rw [step.refs, drops.nodes.refs], step.size.trans drops.nodes.size,
        step.capacity.trans drops.nodes.capacity, drops.nodes.history.trans step.history, drops.rows,
        drops.capacity, drops.properties⟩
  · exact .inl ⟨by simpa using live, by simp [live]⟩

end Graph

end VectorGraph
