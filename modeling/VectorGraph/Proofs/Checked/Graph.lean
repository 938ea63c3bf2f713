import VectorGraph.Proofs.Checked.Arena
import VectorGraph.Proofs.Graph.Runs

/-!
Calls on a graph, stopping at a step that is not defined. Lists are linked and cut by lookups and writes alone. The
deletion of a node relies on the invariant: the first edge of a list is live, and no list is longer than the graph has
edges.
-/
namespace VectorGraph

namespace Table

variable {kind : Kind} {α : Type}

/-- The handles of the records that are accepted, each looked up. -/
def filterChecked (t : Table kind α) (refs : List (Ref kind)) (accepts : α → Bool) : Checked (List (Ref kind)) := do
  let found ← refs.mapM fun ref => return (ref, ← t.getChecked ref)
  return (found.filter (·.2.any accepts)).map (·.1)

def valuesChecked (t : Table kind α) : Checked (List α) :=
  return (← t.refs.mapM t.getChecked).filterMap id

@[simp] theorem filterChecked_eq (t : Table kind α) (refs : List (Ref kind)) (accepts : α → Bool) :
    t.filterChecked refs accepts = pure (refs.filter fun ref => (t.get? ref).any accepts) := by
  simp [filterChecked, List.filter_map, Function.comp_def]

@[simp] theorem mapM_getChecked (t : Table kind α) (refs : List (Ref kind)) :
    refs.mapM t.getChecked = pure (refs.map t.get?) := by
  have lookup : t.getChecked = fun ref => pure (t.get? ref) := funext (getChecked_eq t)
  rw [lookup, List.mapM_pure]

@[simp] theorem valuesChecked_eq (t : Table kind α) : t.valuesChecked = pure t.values := by
  simp [valuesChecked, values, List.filterMap_map]

end Table

namespace Graph

def setNextChecked (g : Graph) (owner : NodeId) (d : Direction) (previous next : Option EdgeId) : Checked Graph :=
  match previous.filter g.edges.contains with
  | some e => return { g with edges := ← g.edges.modifyChecked e (·.setNext d next) }
  | none => return { g with nodes := ← g.nodes.modifyChecked owner (·.setFirst d next) }

def setPreviousChecked (g : Graph) (owner : NodeId) (d : Direction) (previous next : Option EdgeId) : Checked Graph :=
  match next.filter g.edges.contains with
  | some e => return { g with edges := ← g.edges.modifyChecked e (·.setPrevious d previous) }
  | none => return { g with nodes := ← g.nodes.modifyChecked owner (·.setLast d previous) }

def linkChecked (g : Graph) (e : EdgeId) (owner : NodeId) (d : Direction) (last : Option EdgeId) : Checked Graph := do
  let g ← g.setNextChecked owner d last (some e)
  return { g with nodes := ← g.nodes.modifyChecked owner (·.setLast d (some e)) }

def unlinkChecked (g : Graph) (e : Edge) (d : Direction) : Checked Graph := do
  let g ← g.setNextChecked (e.owner d) d (e.previous d) (e.next d)
  g.setPreviousChecked (e.owner d) d (e.previous d) (e.next d)

def followChecked (g : Graph) (d : Direction) : (count : Nat) → Option EdgeId → Checked (List EdgeId)
  | count + 1, some e => do
    match ← g.edges.getChecked e with
    | some edge => return e :: (← g.followChecked d count (edge.next d))
    | none => return []
  | _, _ => return []

def edgesOfChecked (g : Graph) (n : NodeId) (d : Direction) : Checked (List EdgeId) := do
  g.followChecked d g.edges.size ((← g.nodes.getChecked n).bind (·.first d))

def neighborsChecked (g : Graph) (n : NodeId) (d : Direction) : Checked (List NodeId) := do
  let found ← (← g.edgesOfChecked n d).mapM g.edges.getChecked
  return found.filterMap fun edge => edge.map (·.opposite d)

def edgesBetweenChecked (g : Graph) (source target : NodeId) : Checked (List EdgeId) := do
  g.edges.filterChecked (← g.edgesOfChecked source .outgoing) (·.target == target)

@[simp] theorem setNextChecked_eq (g : Graph) (owner : NodeId) (d : Direction) (previous next : Option EdgeId) :
    g.setNextChecked owner d previous next = pure (g.setNext owner d previous next) := by
  unfold setNextChecked setNext
  cases previous.filter g.edges.contains <;> simp

@[simp] theorem setPreviousChecked_eq (g : Graph) (owner : NodeId) (d : Direction) (previous next : Option EdgeId) :
    g.setPreviousChecked owner d previous next = pure (g.setPrevious owner d previous next) := by
  unfold setPreviousChecked setPrevious
  cases next.filter g.edges.contains <;> simp

@[simp] theorem linkChecked_eq (g : Graph) (e : EdgeId) (owner : NodeId) (d : Direction) (last : Option EdgeId) :
    g.linkChecked e owner d last = pure (g.link e owner d last) := by
  simp [linkChecked, link]

@[simp] theorem unlinkChecked_eq (g : Graph) (e : Edge) (d : Direction) :
    g.unlinkChecked e d = pure (g.unlink e d) := by
  simp [unlinkChecked, unlink]

@[simp] theorem followChecked_eq (g : Graph) (d : Direction) (count : Nat) (first : Option EdgeId) :
    g.followChecked d count first = pure (g.follow d count first) := by
  induction count generalizing first with
  | zero => rfl
  | succ count ih =>
    cases first with
    | none => rfl
    | some e =>
      rw [followChecked, follow, Table.getChecked_eq, pure_bind]
      cases g.edges.get? e with
      | none => rfl
      | some edge => simp [ih]

@[simp] theorem edgesOfChecked_eq (g : Graph) (n : NodeId) (d : Direction) :
    g.edgesOfChecked n d = pure (g.edgesOf n d) := by
  simp [edgesOfChecked, edgesOf]

@[simp] theorem neighborsChecked_eq (g : Graph) (n : NodeId) (d : Direction) :
    g.neighborsChecked n d = pure (g.neighbors n d) := by
  simp [neighborsChecked, neighbors, List.filterMap_map]

@[simp] theorem edgesBetweenChecked_eq (g : Graph) (source target : NodeId) :
    g.edgesBetweenChecked source target = pure (g.edgesBetween source target) := by
  simp [edgesBetweenChecked, edgesBetween]

def createNodeChecked (g : Graph) : Checked (Except GraphError NodeId × Graph) := do
  match ← g.nodes.insertChecked fun id => { id } with
  | (some id, nodes) => return (.ok id, { g with nodes })
  | (none, nodes) => return (.error (.capacityExhausted .node), { g with nodes })

def releaseEdgeChecked (g : Graph) (id : EdgeId) : Checked (Option Graph) := do
  match ← g.edges.getChecked id with
  | none => return none
  | some e =>
    let g ← g.unlinkChecked e .outgoing
    let g ← g.unlinkChecked e .incoming
    return (← g.edges.releaseChecked id).map fun edges => { g with edges }

def createEdgeChecked (g : Graph) (source target : NodeId) (label : UInt64) (weight : Binary64)
    (timestamp : UInt64) : Checked (Except GraphError EdgeId × Graph) := do
  match ← g.nodes.getChecked source, ← g.nodes.getChecked target with
  | none, _ => return (.error (.invalidSource source), g)
  | some _, none => return (.error (.invalidTarget target), g)
  | some s, some t =>
    let make := fun id =>
      { id, source, target, label, weight, timestamp
        outgoing := { previous := s.last .outgoing }
        incoming := { previous := t.last .incoming } : Edge }
    match ← g.edges.allocateChecked make with
    | none => return (.error (.capacityExhausted .edge), g)
    | some (id, edges) =>
      let g := { g with edges }
      let g ← g.linkChecked id source .outgoing (s.last .outgoing)
      let g ← g.linkChecked id target .incoming (t.last .incoming)
      match g.edges.record? id with
      | some edges => return (.ok id, { g with edges })
      | none => return (.error (.capacityExhausted .edge), (← g.releaseEdgeChecked id).getD g)

def removeEdgeChecked (g : Graph) (id : EdgeId) : Checked (Option Graph) := do
  match ← g.releaseEdgeChecked id with
  | some g => return some { g with edges := ← g.edges.forgetChecked id }
  | none => return none

def deleteEdgeChecked (g : Graph) (id : EdgeId) : Checked (Except GraphError Unit × Graph) := do
  match ← g.removeEdgeChecked id with
  | some g => return (.ok (), g)
  | none => return (.error (.edgeNotFound id), g)

/-- A list that starts at an edge which is not live is a fault, and so is one that is not empty after all rounds. -/
def drainChecked (g : Graph) (n : NodeId) (d : Direction) : (count : Nat) → Checked Graph
  | 0 => do
    match (← g.nodes.getChecked n).bind (·.first d) with
    | none => return g
    | some _ => throw .loop
  | count + 1 => do
    match (← g.nodes.getChecked n).bind (·.first d) with
    | none => return g
    | some e =>
      match ← g.removeEdgeChecked e with
      | some g => g.drainChecked n d count
      | none => throw (.head e)

def detachChecked (g : Graph) (n : NodeId) (d : Direction) : Checked Graph := g.drainChecked n d g.edges.size

def deleteNodeChecked (g : Graph) (n : NodeId) : Checked (Except GraphError Unit × Graph) :=
  if g.nodes.contains n then do
    let g ← g.detachChecked n .outgoing
    let g ← g.detachChecked n .incoming
    let nodes := (← g.nodes.releaseChecked n).getD g.nodes
    return (.ok (), { g with nodes := ← nodes.forgetChecked n })
  else return (.error (.nodeNotFound n), g)

def createPropertyChecked (g : Graph) (owner : Id) (key : UInt64) (value : Binary64) :
    Checked (Except GraphError PropertyId × Graph) := do
  match ← g.properties.insertChecked fun id => { id, owner, key, value } with
  | (some id, properties) => return (.ok id, { g with properties })
  | (none, properties) => return (.error (.capacityExhausted .property), { g with properties })

def deletePropertyChecked (g : Graph) (id : PropertyId) : Checked (Except GraphError Unit × Graph) := do
  match ← g.properties.eraseChecked id with
  | some properties => return (.ok (), { g with properties })
  | none => return (.error (.propertyNotFound id), g)

variable {g : Graph} {n : NodeId} {d : Direction}

theorem createNodeChecked_eq (valid : g.Valid) : g.createNodeChecked = pure g.createNode := by
  unfold createNodeChecked createNode
  rw [Table.insertChecked_eq valid.nodes, pure_bind]
  rcases g.nodes.insert fun id => { id } with ⟨_ | id, nodes⟩ <;> rfl

theorem releaseEdgeChecked_eq (valid : g.edges.Valid) (id : EdgeId) :
    g.releaseEdgeChecked id = pure (g.releaseEdge? id) := by
  unfold releaseEdgeChecked releaseEdge?
  rw [Table.getChecked_eq, pure_bind]
  cases g.edges.get? id with
  | none => rfl
  | some e =>
    have same := (unlink_relinks g e .outgoing).trans (unlink_relinks _ e .incoming)
    have cut := (same.edges.ordered _ valid).records
    simp only [unlinkChecked_eq, pure_bind, Table.releaseChecked_eq cut]

theorem removeEdgeChecked_eq (valid : g.edges.Valid) (id : EdgeId) :
    g.removeEdgeChecked id = pure (g.removeEdge? id) := by
  unfold removeEdgeChecked removeEdge?
  rw [releaseEdgeChecked_eq valid, pure_bind]
  cases g.releaseEdge? id <;> simp

theorem deleteEdgeChecked_eq (valid : g.edges.Valid) (id : EdgeId) :
    g.deleteEdgeChecked id = pure (g.deleteEdge id) := by
  unfold deleteEdgeChecked deleteEdge
  rw [removeEdgeChecked_eq valid, pure_bind]
  cases g.removeEdge? id <;> rfl

/-- The creation order has room for an edge that the arena had room for. -/
theorem createEdgeChecked_eq (valid : g.edges.Valid) (source target : NodeId) (label : UInt64) (weight : Binary64)
    (timestamp : UInt64) :
    g.createEdgeChecked source target label weight timestamp
      = pure (g.createEdge source target label weight timestamp) := by
  unfold createEdgeChecked createEdge
  simp only [Table.getChecked_eq, pure_bind]
  cases g.nodes.get? source with
  | none => rfl
  | some s =>
    cases g.nodes.get? target with
    | none => rfl
    | some t =>
      simp only [Table.allocateChecked_eq valid.records, pure_bind]
      cases allocated : g.edges.allocate? _ with
      | none => rfl
      | some issue =>
        obtain ⟨id, edges⟩ := issue
        have same := (link_relinks ({ g with edges } : Graph) id source .outgoing (s.last .outgoing)).trans
          (link_relinks _ id target .incoming (t.last .incoming))
        obtain ⟨ordered, recorded, _⟩ := (Table.allocate?_stores valid allocated).record? same.edges
        simp only [linkChecked_eq, pure_bind, recorded]

/-- As many rounds as the list has edges, each of which removes the first one. -/
theorem drainChecked_eq (valid : g.Valid) (live : g.nodes.contains n) {count : Nat}
    (enough : (g.incident n d).length ≤ count) : g.drainChecked n d count = pure (g.drain n d count) := by
  induction count generalizing g with
  | zero =>
    have empty : g.incident n d = [] := List.eq_nil_of_length_eq_zero (by omega)
    simp [drainChecked, drain, first_eq valid live, empty]
  | succ count ih =>
    cases listed : g.incident n d with
    | nil => simp [drainChecked, drain, first_eq valid live, listed]
    | cons e rest =>
      obtain ⟨h, removed, drops, remaining⟩ := valid.remove_first live listed
      rw [listed, List.length_cons] at enough
      have later := ih drops.valid (drops.nodes.contains n ▸ live) (by rw [remaining]; omega)
      simp [drainChecked, drain, first_eq valid live, listed, removeEdgeChecked_eq valid.edges, removed, later]

theorem detachChecked_eq (valid : g.Valid) (live : g.nodes.contains n) (d : Direction) :
    g.detachChecked n d = pure (g.detach n d) :=
  drainChecked_eq valid live (length_incident_le valid n d)

theorem deleteNodeChecked_eq (valid : g.Valid) (n : NodeId) : g.deleteNodeChecked n = pure (g.deleteNode n) := by
  unfold deleteNodeChecked deleteNode
  by_cases live : g.nodes.contains n
  · have outgoing := (detach_drains valid live .outgoing).2
    have still : (g.detach n .outgoing).nodes.contains n := outgoing.nodes.contains n ▸ live
    have incoming := (detach_drains outgoing.valid still .incoming).2
    simp only [live, if_true, detachChecked_eq valid live, detachChecked_eq outgoing.valid still, pure_bind,
      Table.releaseChecked_eq incoming.valid.nodes.records, Table.forgetChecked_eq]
  · simp only [live, if_false, Bool.false_eq_true]

theorem createPropertyChecked_eq (valid : g.Valid) (owner : Id) (key : UInt64) (value : Binary64) :
    g.createPropertyChecked owner key value = pure (g.createProperty owner key value) := by
  unfold createPropertyChecked createProperty
  rw [Table.insertChecked_eq valid.properties, pure_bind]
  rcases g.properties.insert fun id => { id, owner, key, value } with ⟨_ | id, properties⟩ <;> rfl

theorem deletePropertyChecked_eq (valid : g.Valid) (id : PropertyId) :
    g.deletePropertyChecked id = pure (g.deleteProperty id) := by
  unfold deletePropertyChecked deleteProperty
  rw [Table.eraseChecked_eq valid.properties.records, pure_bind]
  cases g.properties.erase? id <;> rfl

def contentsChecked (g : Graph) : Checked Contents := do
  let nodes ← (← g.nodes.valuesChecked).mapM fun n =>
    return ⟨n, ← g.edgesOfChecked n.id .outgoing, ← g.edgesOfChecked n.id .incoming⟩
  return ⟨g.statistics, nodes, ← g.edges.valuesChecked, ← g.properties.valuesChecked⟩

/-- The other queries ask no more than which records are live. -/
def answerChecked (g : Graph) : Request → Checked (Except GraphError Reply × Graph)
  | .createNode => return outcome (fun n => .created n.id) (← g.createNodeChecked)
  | .deleteNode id => return outcome (fun _ => .done) (← g.deleteNodeChecked id)
  | .createEdge source target label weight timestamp =>
    return outcome (fun e => .created e.id) (← g.createEdgeChecked source target label weight timestamp)
  | .deleteEdge id => return outcome (fun _ => .done) (← g.deleteEdgeChecked id)
  | .createProperty owner key value =>
    return outcome (fun p => .created p.id) (← g.createPropertyChecked owner key value)
  | .deleteProperty id => return outcome (fun _ => .done) (← g.deletePropertyChecked id)
  | .getNode id => return (.ok (.node (← g.nodes.getChecked id)), g)
  | .getEdge id => return (.ok (.edge (← g.edges.getChecked id)), g)
  | .edgesOf node d => return (.ok (.ofRefs (← g.edgesOfChecked node d)), g)
  | .neighbors node d => return (.ok (.ofRefs (← g.neighborsChecked node d)), g)
  | .edgesBetween source target => return (.ok (.ofRefs (← g.edgesBetweenChecked source target)), g)
  | .degree node d => return (.ok (.count (← g.edgesOfChecked node d).length), g)
  | .getProperty id => return (.ok (.property (← g.properties.getChecked id)), g)
  | .propertiesOf owner =>
    return (.ok (.ofRefs (← g.properties.filterChecked g.properties.refs (·.isOwnedBy owner))), g)
  | .contents => return (.ok (.contents (← g.contentsChecked)), g)
  | q => return g.answer q

@[simp] theorem contentsChecked_eq (g : Graph) : g.contentsChecked = pure g.contents := by
  simp [contentsChecked, contents]

theorem answerChecked_eq (valid : g.Valid) (q : Request) : g.answerChecked q = pure (g.answer q) := by
  cases q <;>
    simp [answerChecked, answer, createNodeChecked_eq valid, deleteNodeChecked_eq valid,
      createEdgeChecked_eq valid.edges, deleteEdgeChecked_eq valid.edges, createPropertyChecked_eq valid,
      deletePropertyChecked_eq valid, degree, propertiesOf]

end Graph

end VectorGraph
