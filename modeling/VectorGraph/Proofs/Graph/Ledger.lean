import VectorGraph.Proofs.Graph.Runs

/-! The contents of a graph, told by its answers alone: what was created and not deleted since, in the order
of its creation. Slots and links play no part in this. -/
namespace VectorGraph.Graph

/-- The records that are left of those created, oldest first, edges without their places in lists. -/
structure Ledger where
  nodes : List NodeId := []
  edges : List Edge := []
  properties : List Property := []

namespace Ledger

/-- A node takes its edges along. Refusals and queries change nothing. -/
def note (l : Ledger) : Request × Except GraphError Reply → Ledger
  | (.createNode, .ok (.created n)) => { l with nodes := l.nodes ++ [⟨n⟩] }
  | (.deleteNode n, .ok _) =>
    { l with nodes := l.nodes.filter (· != n), edges := l.edges.filter fun r => !r.touches n }
  | (.createEdge source target label weight timestamp, .ok (.created e)) =>
    { l with edges := l.edges ++ [{ id := ⟨e⟩, source, target, label, weight, timestamp }] }
  | (.deleteEdge e, .ok _) => { l with edges := l.edges.filter (·.id != e) }
  | (.createProperty owner key value, .ok (.created p)) =>
    { l with properties := l.properties ++ [{ id := ⟨p⟩, owner, key, value }] }
  | (.deleteProperty p, .ok _) => { l with properties := l.properties.filter (·.id != p) }
  | _ => l

@[simp] theorem note_error (l : Ledger) (q : Request) (e : GraphError) : l.note (q, .error e) = l := by
  cases q <;> rfl

theorem note_query (l : Ledger) {q : Request} (query : q.changes = false) (reply : Reply) :
    l.note (q, .ok reply) = l := by
  cases q <;> simp_all [note, Request.changes]

def replay (transcript : List (Request × Except GraphError Reply)) : Ledger := transcript.foldl note {}

end Ledger

variable {g h : Graph} {l : Ledger}

/-- A graph holds what a ledger lists. -/
structure Keeps (g : Graph) (l : Ledger) : Prop where
  valid : g.Valid
  nodes : g.nodes.refs = l.nodes
  edges : g.rows = l.edges
  properties : g.properties.values = l.properties

theorem bare_of_mem_rows (valid : g.Valid) {r : Edge} (member : r ∈ g.rows) : r.bare = r := by
  obtain ⟨s, _, rfl⟩ := (mem_rows valid).mp member
  rfl

theorem Effect.keeps {q : Request} {reply : Except GraphError Reply} (effect : g.Effect q reply h)
    (before : g.Keeps l) : h.Keeps (l.note (q, reply)) := by
  obtain ⟨valid, nodes, edges, properties⟩ := before
  have final := effect.valid valid
  cases effect with
  | addsNode adds =>
    refine ⟨final, ?_, ?_, ?_⟩
    · rw [adds.nodes.refs, nodes, Ledger.note]
    · rw [rows, adds.edges, ← rows, edges, Ledger.note]
    · rw [adds.properties, properties, Ledger.note]
  | dropsNode _ drops =>
    refine ⟨final, ?_, ?_, ?_⟩
    · rw [drops.nodes, nodes, Ledger.note]
    · rw [drops.rows, edges, Ledger.note]
    · rw [drops.properties, properties, Ledger.note]
  | @addsEdge r _ adds =>
    have bare : r.bare = r := bare_of_mem_rows final (by simp [adds.rows])
    refine ⟨final, ?_, ?_, ?_⟩
    · rw [adds.nodes.refs, nodes, Ledger.note]
    · rw [adds.rows, edges, Ledger.note, ← bare]
      rfl
    · rw [adds.properties, properties, Ledger.note]
  | dropsEdge _ drops =>
    refine ⟨final, ?_, ?_, ?_⟩
    · rw [drops.nodes.refs, nodes, Ledger.note]
    · rw [drops.rows, edges, Ledger.note]
      rfl
    · rw [drops.properties, properties, Ledger.note]
  | addsProperty step _ =>
    refine ⟨final, nodes, edges, ?_⟩
    rw [step.values valid.properties, properties, Ledger.note]
  | dropsProperty _ step _ =>
    refine ⟨final, nodes, edges, ?_⟩
    rw [step.values valid.propertyIds, properties, Ledger.note]
  | refuses e =>
    rw [Ledger.note_error]
    exact ⟨final, nodes, edges, properties⟩
  | tells told query =>
    rw [Ledger.note_query l query]
    exact ⟨final, nodes, edges, properties⟩

variable {nodeCapacity edgeCapacity propertyCapacity : Nat} {start : Graph}

theorem create_keeps (created : create nodeCapacity edgeCapacity propertyCapacity = .ok start) :
    start.Keeps {} := by
  have valid := create_valid created
  obtain ⟨_, rfl⟩ := create_eq_ok_iff.mp created
  exact ⟨valid, rfl, rfl, rfl⟩

theorem Keeps.after (keeps : g.Keeps l) (requests : List Request) :
    (Session.after answer g requests).Keeps ((Session.transcript answer g requests).foldl Ledger.note l) := by
  have step (past : List (Request × Except GraphError Reply)) (h : Graph) (q : Request)
      (before : h.Keeps (past.foldl Ledger.note l)) :
      (h.answer q).2.Keeps ((past ++ [(q, (h.answer q).1)]).foldl Ledger.note l) := by
    rw [List.foldl_concat]
    exact (answer_effect before.valid q).keeps before
  exact Session.run_preserves (fun past h => Keeps h (past.foldl Ledger.note l)) step [] keeps requests

theorem after_keeps (created : create nodeCapacity edgeCapacity propertyCapacity = .ok start)
    (requests : List Request) :
    (Session.after answer start requests).Keeps (.replay (Session.transcript answer start requests)) :=
  (create_keeps created).after requests

/-- Each sequence of handles is what was created and not deleted since, in the order of creation, after every
run and whatever slots it used again. -/
theorem creation_order_exact (created : create nodeCapacity edgeCapacity propertyCapacity = .ok start)
    (requests : List Request) :
    let g := Session.after answer start requests
    let l := Ledger.replay (Session.transcript answer start requests)
    g.nodes.Shows l.nodes ∧ g.edges.Shows (l.edges.map Edge.id) ∧
      g.properties.Shows (l.properties.map Property.id) := by
  intro g l
  obtain ⟨valid, nodes, edges, properties⟩ := after_keeps created requests
  refine ⟨valid.nodes.shows nodes, valid.edges.shows ?_, valid.properties.shows ?_⟩
  · rw [← map_id_rows valid, edges]
  · have labelled : g.properties.Labelled fun r => (id r).id := valid.propertyIds
    rw [← Table.map_rows valid.properties labelled, ← Table.values_eq_rows, properties]

/-- The node and the edge that come last stand in slots that a deleted node and its edge have left. -/
theorem creation_order_exact_reuse :
    let a : NodeId := ⟨.ofParts 0 1⟩
    let b : NodeId := ⟨.ofParts 1 1⟩
    let c : NodeId := ⟨.ofParts 0 2⟩
    let edge (source target : NodeId) : Request := .createEdge source target 0 ⟨0⟩ 0
    let property : Request := .createProperty .null 0 ⟨0⟩
    let requests := [.createNode, .createNode, edge a b, edge b b, .deleteNode a, .deleteNode a, .createNode,
      edge b c, property, .deleteProperty ⟨.ofParts 0 1⟩, property, property]
    ∃ start, create 2 2 1 = .ok start ∧
      let g := Session.after answer start requests
      g.nodes.refs = [b, c] ∧ g.edges.refs = [⟨.ofParts 1 1⟩, ⟨.ofParts 0 2⟩] ∧
        g.properties.refs = [⟨.ofParts 0 2⟩] ∧ g.nodes.size = 2 ∧
        g.nodes.walk 0 4 = [⟨0, 2, some b⟩, ⟨0, 1, some c⟩, ⟨0, 0, none⟩, ⟨0, 0, none⟩] := by
  intro a b c edge property requests
  let start := fresh 2 2 1
  let l := Ledger.replay (Session.transcript answer start requests)
  have created : create 2 2 1 = .ok start := rfl
  obtain ⟨nodes, edges, properties⟩ := creation_order_exact created requests
  have listed : l.nodes = [b, c] := by decide +kernel
  have joined : l.edges.map Edge.id = [⟨.ofParts 1 1⟩, ⟨.ofParts 0 2⟩] := by decide +kernel
  have noted : l.properties.map Property.id = [⟨.ofParts 0 2⟩] := by decide +kernel
  refine ⟨start, rfl, nodes.refs.trans listed, edges.refs.trans joined, properties.refs.trans noted, ?_, ?_⟩
  · rw [nodes.size, listed]
    rfl
  · rw [nodes.walk, listed]
    rfl

end VectorGraph.Graph
