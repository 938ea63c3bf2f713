import VectorGraph.Proofs.Graph.Queries

/-! Records are given back as they were created. The links of an edge are written anew as its neighbours in lists come
and go, and slots are used again, but neither touches the rest of a record that is live. -/
namespace VectorGraph

/-- The request for such an edge, whose handle it does not choose. -/
def Edge.creation (r : Edge) : Graph.Request := .createEdge r.source r.target r.label r.weight r.timestamp

/-- The request for such a property, whose handle it does not choose. -/
def Property.creation (p : Property) : Graph.Request := .createProperty p.owner p.key p.value

/-- A deletion that was granted takes the edge away, by itself or with one of its ends. -/
def Edge.takenBy (r : Edge) : Graph.Request × Except GraphError Graph.Reply → Bool
  | (.deleteEdge e, .ok _) => r.id == e
  | (.deleteNode n, .ok _) => r.touches n
  | _ => false

/-- A deletion that was granted takes the property away. The deletion of its owner does not. -/
def Property.takenBy (p : Property) : Graph.Request × Except GraphError Graph.Reply → Bool
  | (.deleteProperty id, .ok _) => p.id == id
  | _ => false

namespace Graph

variable {g : Graph} {l : Ledger} {q : Request}

namespace Ledger

variable {entry : Request × Except GraphError Reply} {past : List (Request × Except GraphError Reply)}

theorem mem_edges_note {r : Edge} (listed : r.bare ∈ l.edges) (spared : r.takenBy entry = false) :
    r.bare ∈ (l.note entry).edges := by
  fun_cases note l entry with
  | case2 n => exact List.mem_filter.mpr ⟨listed, by simpa [Edge.takenBy, Edge.touches, Edge.bare] using spared⟩
  | case3 => exact List.mem_append_left _ listed
  | case4 e => exact List.mem_filter.mpr ⟨listed, by simpa [Edge.takenBy] using spared⟩
  | _ => exact listed

theorem mem_properties_note {p : Property} (listed : p ∈ l.properties) (spared : p.takenBy entry = false) :
    p ∈ (l.note entry).properties := by
  fun_cases note l entry with
  | case5 => exact List.mem_append_left _ listed
  | case6 id => exact List.mem_filter.mpr ⟨listed, by simpa [Property.takenBy] using spared⟩
  | _ => exact listed

theorem mem_edges_foldl {r : Edge} (listed : r.bare ∈ l.edges)
    (spared : ∀ entry ∈ past, r.takenBy entry = false) : r.bare ∈ (past.foldl note l).edges :=
  List.foldlRecOn (motive := (r.bare ∈ ·.edges)) past note listed fun _ before entry member =>
    mem_edges_note before (spared entry member)

theorem mem_properties_foldl {p : Property} (listed : p ∈ l.properties)
    (spared : ∀ entry ∈ past, p.takenBy entry = false) : p ∈ (past.foldl note l).properties :=
  List.foldlRecOn (motive := (p ∈ ·.properties)) past note listed fun _ before entry member =>
    mem_properties_note before (spared entry member)

end Ledger

/-- A graph that has created an edge holds it until it is taken away. -/
theorem Keeps.created_edge (keeps : g.Keeps l) {r : Edge}
    (created : (g.answer r.creation).1 = .ok (.created r.id.id)) {later : List Request}
    (spared : ∀ entry ∈ Session.transcript answer (g.answer r.creation).2 later, r.takenBy entry = false) :
    ∃ s, (Session.after answer g (r.creation :: later)).edges.get? r.id = some s ∧ s.bare = r.bare := by
  have noted := (answer_effect keeps.valid r.creation).keeps keeps
  rw [created] at noted
  have listed : r.bare ∈ (l.note (r.creation, .ok (.created r.id.id))).edges :=
    List.mem_append_right _ (by simp [Edge.bare])
  have final := noted.after later
  have kept := Ledger.mem_edges_foldl listed spared
  rw [← final.edges] at kept
  exact (mem_rows final.valid).mp kept

theorem Keeps.created_property (keeps : g.Keeps l) {p : Property}
    (created : (g.answer p.creation).1 = .ok (.created p.id.id)) {later : List Request}
    (spared : ∀ entry ∈ Session.transcript answer (g.answer p.creation).2 later, p.takenBy entry = false) :
    (Session.after answer g (p.creation :: later)).properties.get? p.id = some p := by
  have noted := (answer_effect keeps.valid p.creation).keeps keeps
  rw [created] at noted
  have listed : p ∈ (l.note (p.creation, .ok (.created p.id.id))).properties := List.mem_append_right _ (by simp)
  have final := noted.after later
  have kept := Ledger.mem_properties_foldl listed spared
  rw [← final.properties, Table.values_eq_rows, Table.mem_rows final.valid.properties] at kept
  obtain ⟨id, s, stored, rfl⟩ := kept
  obtain rfl := final.valid.propertyIds id s stored
  exact stored

theorem Effect.properties {h : Graph} {reply : Except GraphError Reply} (effect : g.Effect q reply h)
    (creates : ∀ p : Property, q ≠ p.creation) (deletes : ∀ p, q ≠ .deleteProperty p) :
    h.properties = g.properties := by
  cases effect with
  | addsNode adds => exact adds.properties
  | dropsNode _ drops => exact drops.properties
  | addsEdge adds => exact adds.properties
  | dropsEdge _ drops => exact drops.properties
  | @addsProperty p _ _ => exact absurd rfl (creates p)
  | @dropsProperty p _ _ => exact absurd rfl (deletes p)
  | refuses | tells => rfl

theorem Keeps.propertiesOf (keeps : g.Keeps l) (owner : Id) :
    g.propertiesOf owner = (l.properties.filter (·.owner == owner)).map Property.id := by
  have labelled : g.properties.Labelled fun r => (id r).id := keeps.valid.propertyIds
  have filtered := Table.filter_refs labelled (·.owner == owner)
  rw [← Table.values_eq_rows, keeps.properties] at filtered
  exact filtered

variable {nodeCapacity edgeCapacity propertyCapacity : Nat} {start : Graph}

/-- After every run, a record that is created is given back as it was asked for, whatever comes between, until a
deletion takes it away. Properties are listed under the owner that they were created with, oldest first, and nothing
that is done to nodes and edges touches them. -/
theorem payloads_verbatim (created : create nodeCapacity edgeCapacity propertyCapacity = .ok start)
    (past : List Request) :
    let g := Session.after answer start past
    (∀ r : Edge, (g.answer r.creation).1 = .ok (.created r.id.id) → ∀ later,
      (∀ entry ∈ Session.transcript answer (g.answer r.creation).2 later, r.takenBy entry = false) →
      ∃ s, ((Session.after answer g (r.creation :: later)).answer (.getEdge r.id)).1 = .ok (.edge (some s)) ∧
        s.bare = r.bare) ∧
    (∀ p : Property, (g.answer p.creation).1 = .ok (.created p.id.id) → ∀ later,
      (∀ entry ∈ Session.transcript answer (g.answer p.creation).2 later, p.takenBy entry = false) →
      ((Session.after answer g (p.creation :: later)).answer (.getProperty p.id)).1 = .ok (.property (some p))) ∧
    (∀ q, (∀ p : Property, q ≠ p.creation) → (∀ p, q ≠ .deleteProperty p) →
      (g.answer q).2.properties = g.properties) ∧
    ∀ owner, g.propertiesOf owner =
      ((Ledger.replay (Session.transcript answer start past)).properties.filter (·.owner == owner)).map
        Property.id := by
  intro g
  have keeps : g.Keeps _ := after_keeps created past
  refine ⟨?_, ?_, fun q => (answer_effect keeps.valid q).properties, keeps.propertiesOf⟩
  · intro r made later spared
    obtain ⟨s, stored, bare⟩ := keeps.created_edge made spared
    exact ⟨s, by rw [answer, stored], bare⟩
  · intro p made later spared
    rw [answer, keeps.created_property made spared]

/-- An edge in a slot that is used again, between two edges that come and go. Its owner takes it along at last, and
leaves a property behind. -/
theorem payloads_verbatim_reuse :
    let a : NodeId := ⟨.ofParts 0 1⟩
    let b : NodeId := ⟨.ofParts 1 1⟩
    let before : EdgeId := ⟨.ofParts 1 1⟩
    let edge : Request := .createEdge a b 0 ⟨0⟩ 0
    let property : Property := ⟨⟨.ofParts 0 1⟩, a.id, 3, ⟨0x7FF8000000000001⟩⟩
    let r : Edge := ⟨⟨.ofParts 0 2⟩, a, b, 7, ⟨0x8000000000000000⟩, 9, {}, {}⟩
    let past := [.createNode, .createNode, edge, edge, .deleteEdge ⟨.ofParts 0 1⟩]
    let later := [edge, .deleteEdge before, .deleteNode ⟨.ofParts 1 2⟩]
    ∃ start, create 2 3 1 = .ok start ∧
      let g := Session.after answer start past
      (∃ s, ((Session.after answer g (r.creation :: later)).answer (.getEdge r.id)).1 = .ok (.edge (some s)) ∧
        s.bare = r) ∧
      ((Session.after answer g [property.creation, .deleteNode a]).answer (.getProperty property.id)).1 =
        .ok (.property (some property)) ∧
      (Session.after answer g [property.creation, .deleteNode a]).edges.size = 0 := by
  intro a b before edge property r past later
  let start := fresh 2 3 1
  let g := Session.after answer start past
  have created : create 2 3 1 = .ok start := rfl
  obtain ⟨edges, properties, _, _⟩ := payloads_verbatim created past
  exact ⟨start, created, edges r (by decide +kernel) later (by decide +kernel),
    properties property (by decide +kernel) _ (by decide +kernel), by decide +kernel⟩

end Graph

end VectorGraph
