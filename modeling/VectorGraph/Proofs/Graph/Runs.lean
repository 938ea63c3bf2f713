import VectorGraph.Session.Graph
import VectorGraph.Proofs.Graph.Detach
import VectorGraph.Proofs.Session

/-! Every graph that requests can lead to is valid. -/
namespace VectorGraph.Graph

variable {g : Graph} {nodeCapacity edgeCapacity propertyCapacity : Nat}

/-- The graph is new, but for requests that it has answered. -/
def Reachable (g : Graph) : Prop :=
  ∃ nodeCapacity edgeCapacity propertyCapacity start requests,
    create nodeCapacity edgeCapacity propertyCapacity = .ok start ∧ Session.after answer start requests = g

def fresh (nodeCapacity edgeCapacity propertyCapacity : Nat) : Graph :=
  ⟨.fresh nodeCapacity, .fresh edgeCapacity, .fresh propertyCapacity⟩

theorem create_eq_ok_iff : create nodeCapacity edgeCapacity propertyCapacity = .ok g ↔
    ((0 < nodeCapacity ∧ nodeCapacity < UInt32.size) ∧ (0 < edgeCapacity ∧ edgeCapacity < UInt32.size) ∧
      0 < propertyCapacity ∧ propertyCapacity < UInt32.size) ∧
      g = fresh nodeCapacity edgeCapacity propertyCapacity := by
  unfold create
  constructor
  · intro created
    cases nodes : (Table.create nodeCapacity : Except ArenaError (Table .node Node)) <;>
      cases edges : (Table.create edgeCapacity : Except ArenaError (Table .edge Edge)) <;>
      cases properties : (Table.create propertyCapacity : Except ArenaError (Table .property Property)) <;>
      simp [nodes, edges, properties, bind, Except.bind, Except.mapError, pure, Except.pure] at created
    obtain ⟨node, rfl⟩ := Table.create_eq_ok_iff.mp nodes
    obtain ⟨edge, rfl⟩ := Table.create_eq_ok_iff.mp edges
    obtain ⟨property, rfl⟩ := Table.create_eq_ok_iff.mp properties
    exact ⟨⟨node, edge, property⟩, created.symm⟩
  · rintro ⟨⟨node, edge, property⟩, rfl⟩
    rw [Table.create_eq_ok_iff.mpr ⟨node, rfl⟩, Table.create_eq_ok_iff.mpr ⟨edge, rfl⟩,
      Table.create_eq_ok_iff.mpr ⟨property, rfl⟩]
    rfl

theorem create_valid (created : create nodeCapacity edgeCapacity propertyCapacity = .ok g) : g.Valid := by
  obtain ⟨⟨⟨_, node⟩, ⟨_, edge⟩, _, property⟩, rfl⟩ := create_eq_ok_iff.mp created
  refine ⟨Table.fresh_valid node, Table.fresh_valid edge, Table.fresh_valid property, ?_, ?_, ?_, ?_, ?_⟩
  · intro n r stored
    simp [fresh] at stored
  · intro e r stored
    simp [fresh] at stored
  · intro p r stored
    simp [fresh] at stored
  · intro e r stored
    simp [fresh] at stored
  · intro n live
    simp [fresh, Table.contains_eq_isSome] at live

/-- A request that may leave another graph than it meets. -/
def Request.changes : Request → Bool
  | .createNode | .deleteNode _ | .createEdge .. | .deleteEdge _ | .createProperty .. | .deleteProperty _ => true
  | _ => false

/-- What a request does to a graph, with its answer. -/
inductive Effect (g : Graph) : Request → Except GraphError Reply → Graph → Prop where
  | addsNode {n : NodeId} {h : Graph} : g.AddsNode n h → Effect g .createNode (.ok (.created n.id)) h
  | dropsNode {n : NodeId} {h : Graph} : g.nodes.contains n → g.DropsNode n h →
      Effect g (.deleteNode n) (.ok .done) h
  | addsEdge {r : Edge} {h : Graph} : g.Adds r h →
      Effect g (.createEdge r.source r.target r.label r.weight r.timestamp) (.ok (.created r.id.id)) h
  | dropsEdge {e : EdgeId} {h : Graph} : g.edges.contains e → g.Drops (·.id == e) h →
      Effect g (.deleteEdge e) (.ok .done) h
  | addsProperty {p : Property} {properties : Table .property Property} :
      g.properties.Inserts p.id p properties → ({ g with properties } : Graph).Valid →
      Effect g (.createProperty p.owner p.key p.value) (.ok (.created p.id.id)) { g with properties }
  | dropsProperty {p : PropertyId} {properties : Table .property Property} :
      g.properties.contains p → g.properties.Erases p properties → ({ g with properties } : Graph).Valid →
      Effect g (.deleteProperty p) (.ok .done) { g with properties }
  | refuses {q : Request} (e : GraphError) : Effect g q (.error e) g
  | tells {q : Request} (reply : Reply) : q.changes = false → Effect g q (.ok reply) g

theorem answer_effect (valid : g.Valid) (q : Request) : g.Effect q (g.answer q).1 (g.answer q).2 := by
  cases q with
  | createNode =>
    rcases createNode_cases valid with ⟨_, refused⟩ | ⟨n, h, made, adds⟩
    · simpa [answer, outcome, refused] using .refuses _
    · simpa [answer, outcome, made] using .addsNode adds
  | deleteNode n =>
    rcases deleteNode_cases valid n with ⟨_, refused⟩ | ⟨live, h, deleted, drops⟩
    · simpa [answer, outcome, refused] using .refuses _
    · simpa [answer, outcome, deleted] using .dropsNode live drops
  | createEdge source target label weight timestamp =>
    rcases createEdge_cases valid source target label weight timestamp with
      ⟨_, refused⟩ | ⟨_, _, refused⟩ | ⟨_, _, _, refused⟩ | ⟨_, _, e, h, made, adds⟩
    · simpa [answer, outcome, refused] using .refuses _
    · simpa [answer, outcome, refused] using .refuses _
    · simpa [answer, outcome, refused] using .refuses _
    · simpa [answer, outcome, made] using .addsEdge adds
  | deleteEdge e =>
    rcases deleteEdge_cases valid e with ⟨_, refused⟩ | ⟨live, h, deleted, drops⟩
    · simpa [answer, outcome, refused] using .refuses _
    · simpa [answer, outcome, deleted] using .dropsEdge live drops
  | createProperty owner key value =>
    rcases createProperty_cases valid owner key value with ⟨_, refused⟩ | ⟨p, properties, made, step, final⟩
    · simpa [answer, outcome, refused] using .refuses _
    · simpa [answer, outcome, made] using .addsProperty (p := ⟨p, owner, key, value⟩) step final
  | deleteProperty p =>
    rcases deleteProperty_cases valid p with ⟨_, refused⟩ | ⟨live, properties, deleted, step, final⟩
    · simpa [answer, outcome, refused] using .refuses _
    · simpa [answer, outcome, deleted] using .dropsProperty live step final
  | walk kind count => cases kind <;> exact .tells _ rfl
  | _ => exact .tells _ rfl

theorem Effect.valid {q : Request} {reply : Except GraphError Reply} {h : Graph} (effect : g.Effect q reply h)
    (valid : g.Valid) : h.Valid := by
  cases effect with
  | addsNode adds => exact adds.valid
  | dropsNode _ drops => exact drops.valid
  | addsEdge adds => exact adds.valid
  | dropsEdge _ drops => exact drops.valid
  | addsProperty _ final => exact final
  | dropsProperty _ _ final => exact final
  | refuses _ => exact valid
  | tells _ _ => exact valid

theorem answer_valid (g : Graph) (q : Request) (valid : g.Valid) : (g.answer q).2.Valid :=
  (answer_effect valid q).valid valid

theorem Effect.unchanged {q : Request} {e : GraphError} {h : Graph} (effect : g.Effect q (.error e) h) : h = g := by
  cases effect
  rfl

theorem Effect.contains_node {q : Request} {reply : Except GraphError Reply} {h : Graph} (effect : g.Effect q reply h)
    (other : ∀ n, q ≠ .deleteNode n) {n : NodeId} (live : g.nodes.contains n) : h.nodes.contains n := by
  cases effect with
  | addsNode adds => exact (adds.nodes.contains n).mpr (.inr live)
  | dropsNode _ _ => exact absurd rfl (other _)
  | addsEdge adds => rwa [adds.nodes.contains]
  | dropsEdge _ drops => rwa [drops.nodes.contains]
  | addsProperty _ _ | dropsProperty _ _ _ | refuses _ | tells _ _ => exact live

theorem Reachable.valid (reachable : g.Reachable) : g.Valid := by
  obtain ⟨_, _, _, start, requests, created, rfl⟩ := reachable
  exact Session.after_preserves Valid answer_valid (create_valid created) requests

end VectorGraph.Graph
