import VectorGraph.Proofs.Graph.Runs
import VectorGraph.Proofs.Graph.Outcomes

/-! A graph makes use of its room only by refusing what it has no room for. A graph with more room answers alike and
comes to hold the same records in the same slots. -/
namespace VectorGraph

/-- A slot that was freed goes first, and then the first that was never used, however many there are. -/
theorem Arena.allocate_resize {α : Type} [Inhabited α] {a b : Arena α} {id : Id} {capacity : Nat}
    (allocated : a.allocate = some (id, b)) (more : a.capacity ≤ capacity) :
    ({ a with capacity } : Arena α).allocate = some (id, { b with capacity }) := by
  have next (found) (slot : a.nextSlot? = some found) : ({ a with capacity } : Arena α).nextSlot? = some found := by
    unfold nextSlot? at *
    cases freed : a.freed with
    | some _ => simpa [freed] using slot
    | none =>
      simp only [freed, Option.ite_none_right_eq_some] at slot
      have room : a.slots.size < capacity := Nat.lt_of_lt_of_le slot.1 more
      simpa [room] using slot.2
  unfold allocate at *
  cases slot : a.nextSlot? with
  | none => simp [slot] at allocated
  | some found =>
    simp only [slot, Option.some.injEq, Prod.mk.injEq] at allocated
    obtain ⟨rfl, rfl⟩ := allocated
    rw [next found slot]

namespace Table

variable {kind : Kind} {α : Type}

/-- The same table with room for another number of records. -/
def resize (t : Table kind α) (capacity : Nat) : Table kind α :=
  ⟨{ t.records with capacity }, { t.order with capacity }⟩

variable (t : Table kind α) (capacity : Nat) (ref : Ref kind)

@[simp] theorem get?_resize : (t.resize capacity).get? = t.get? := rfl

@[simp] theorem contains_resize : (t.resize capacity).contains = t.contains := rfl

@[simp] theorem size_resize : (t.resize capacity).size = t.size := rfl

@[simp] theorem capacity_resize : (t.resize capacity).capacity = capacity := rfl

@[simp] theorem refs_resize : (t.resize capacity).refs = t.refs := rfl

@[simp] theorem values_resize : (t.resize capacity).values = t.values := rfl

@[simp] theorem forget_resize : (t.resize capacity).forget ref = (t.forget ref).resize capacity := rfl

@[simp] theorem modify_resize (f : α → α) :
    (t.resize capacity).modify ref f = (t.modify ref f).resize capacity := by
  have found : (t.resize capacity).records.find? ref.id = t.records.find? ref.id := rfl
  simp only [modify, Arena.modify, found]
  split <;> rfl

@[simp] theorem release?_resize : (t.resize capacity).release? ref = (t.release? ref).map (resize · capacity) := by
  have found : (t.resize capacity).records.find? ref.id = t.records.find? ref.id := rfl
  simp only [release?, Arena.free?, found]
  cases t.records.find? ref.id <;> rfl

@[simp] theorem erase?_resize : (t.resize capacity).erase? ref = (t.erase? ref).map (resize · capacity) := by
  simp [erase?, Function.comp_def]

theorem next_resize (place : Nat) : (t.resize capacity).next place = t.next place := by
  fun_induction next t place with
  | case1 place more ref live =>
    rw [next]
    exact (dif_pos more).trans (if_pos live)
  | case2 place more ref dead ih =>
    rw [next]
    exact (dif_pos more).trans ((if_neg dead).trans ih)
  | case3 place past =>
    rw [next]
    exact dif_neg past

@[simp] theorem walk_resize (place count : Nat) : (t.resize capacity).walk place count = t.walk place count := by
  induction count generalizing place with
  | zero => rfl
  | succ count ih =>
    simp only [walk, next_resize, ih]
    rfl

variable {t u : Table kind α} {capacity : Nat} {ref : Ref kind}

theorem allocate?_resize [Inhabited α] {make : Ref kind → α} (allocated : t.allocate? make = some (ref, u))
    (more : t.capacity ≤ capacity) : (t.resize capacity).allocate? make = some (ref, u.resize capacity) := by
  unfold allocate? at *
  cases issued : t.records.allocate with
  | none => simp [issued] at allocated
  | some issue =>
    obtain ⟨id, records⟩ := issue
    simp only [issued, Option.some.injEq, Prod.mk.injEq] at allocated
    obtain ⟨rfl, rfl⟩ := allocated
    have written := modify_resize (⟨records, t.order⟩ : Table kind α) capacity ⟨id⟩ fun _ => make ⟨id⟩
    rw [show (t.resize capacity).records.allocate = _ from Arena.allocate_resize issued more]
    exact congrArg (fun u => some ((⟨id⟩ : Ref kind), u)) written

theorem record?_resize (recorded : t.record? ref = some u) (more : t.order.capacity ≤ capacity) :
    (t.resize capacity).record? ref = some (u.resize capacity) := by
  unfold record? CreationOrder.push? at *
  by_cases room : t.order.refs.size < t.order.capacity
  · have still : t.order.refs.size < capacity := Nat.lt_of_lt_of_le room more
    simp only [room, if_true, Option.some.injEq] at recorded
    simp [resize, still, ← recorded]
  · simp [room] at recorded

/-- A record that finds room finds the same slot where there is more room. -/
theorem insert_resize [Inhabited α] {make : Ref kind → α} (inserted : t.insert make = (some ref, u))
    (valid : t.Valid) (more : t.capacity ≤ capacity) :
    (t.resize capacity).insert make = (some ref, u.resize capacity) := by
  unfold insert at *
  cases allocated : t.allocate? make with
  | none => simp [allocated] at inserted
  | some found =>
    obtain ⟨own, stored⟩ := found
    have order : stored.order.capacity ≤ capacity := by
      rw [(allocate?_stores valid allocated).order, valid.capacity]
      exact more
    cases recorded : stored.record? own with
    | none => simp [allocated, recorded] at inserted
    | some recorded' =>
      simp only [allocated, recorded, Prod.mk.injEq, Option.some.injEq] at inserted
      obtain ⟨rfl, rfl⟩ := inserted
      simp only [allocate?_resize allocated more, record?_resize recorded order]

end Table

/-- The same counts of a graph with room for other numbers of records. -/
def Statistics.resize (s : Statistics) (room : Kind → Nat) : Statistics :=
  { s with
    nodeCapacity := .ofNat (room .node)
    edgeCapacity := .ofNat (room .edge)
    propertyCapacity := .ofNat (room .property) }

namespace Graph

/-- The same graph with room for other numbers of records. -/
def resize (g : Graph) (room : Kind → Nat) : Graph :=
  ⟨g.nodes.resize (room .node), g.edges.resize (room .edge), g.properties.resize (room .property)⟩

section

variable (g : Graph) (room : Kind → Nat) (n owner : NodeId) (e : EdgeId) (r : Edge) (d : Direction)
  (previous next : Option EdgeId)

@[simp] theorem nodes_resize : (g.resize room).nodes = g.nodes.resize (room .node) := rfl

@[simp] theorem edges_resize : (g.resize room).edges = g.edges.resize (room .edge) := rfl

@[simp] theorem properties_resize : (g.resize room).properties = g.properties.resize (room .property) := rfl

@[simp] theorem setNext_resize :
    (g.resize room).setNext owner d previous next = (g.setNext owner d previous next).resize room := by
  unfold setNext
  rw [edges_resize, Table.contains_resize]
  split <;> simp [resize]

@[simp] theorem setPrevious_resize :
    (g.resize room).setPrevious owner d previous next = (g.setPrevious owner d previous next).resize room := by
  unfold setPrevious
  rw [edges_resize, Table.contains_resize]
  split <;> simp [resize]

@[simp] theorem link_resize (last : Option EdgeId) :
    (g.resize room).link e owner d last = (g.link e owner d last).resize room := by
  unfold link
  rw [setNext_resize]
  simp [resize]

@[simp] theorem unlink_resize : (g.resize room).unlink r d = (g.unlink r d).resize room := by
  rw [unlink, setNext_resize, setPrevious_resize, unlink]

@[simp] theorem releaseEdge?_resize :
    (g.resize room).releaseEdge? e = (g.releaseEdge? e).map (·.resize room) := by
  unfold releaseEdge?
  rw [edges_resize, Table.get?_resize]
  cases g.edges.get? e with
  | none => rfl
  | some r =>
    simp only [unlink_resize, edges_resize, Table.release?_resize, Option.map_map]
    rfl

@[simp] theorem removeEdge?_resize : (g.resize room).removeEdge? e = (g.removeEdge? e).map (·.resize room) := by
  unfold removeEdge?
  rw [releaseEdge?_resize, Option.map_map, Option.map_map]
  rfl

@[simp] theorem drain_resize (count : Nat) : (g.resize room).drain n d count = (g.drain n d count).resize room := by
  induction count generalizing g with
  | zero => rfl
  | succ count ih =>
    simp only [drain, nodes_resize, Table.get?_resize, removeEdge?_resize]
    cases (g.nodes.get? n).bind (·.first d) with
    | none => rfl
    | some e =>
      cases removed : g.removeEdge? e with
      | none => simp [removed]
      | some h => simpa [removed] using ih h

@[simp] theorem detach_resize : (g.resize room).detach n d = (g.detach n d).resize room := drain_resize ..

@[simp] theorem follow_resize (count : Nat) (first : Option EdgeId) :
    (g.resize room).follow d count first = g.follow d count first :=
  follow_congr (fun e => by rw [edges_resize, Table.get?_resize]) d count first

@[simp] theorem edgesOf_resize : (g.resize room).edgesOf = g.edgesOf := by
  funext n d
  simp [edgesOf]

end

section

variable (g : Graph) (room : Kind → Nat)

@[simp] theorem deleteEdge_resize (e : EdgeId) :
    (g.resize room).deleteEdge e = (g.deleteEdge e).map id (·.resize room) := by
  unfold deleteEdge
  rw [removeEdge?_resize]
  cases g.removeEdge? e <;> rfl

@[simp] theorem deleteProperty_resize (p : PropertyId) :
    (g.resize room).deleteProperty p = (g.deleteProperty p).map id (·.resize room) := by
  unfold deleteProperty
  rw [properties_resize, Table.erase?_resize]
  cases g.properties.erase? p <;> rfl

@[simp] theorem deleteNode_resize (n : NodeId) :
    (g.resize room).deleteNode n = (g.deleteNode n).map id (·.resize room) := by
  unfold deleteNode
  rw [nodes_resize, Table.contains_resize]
  split
  · simp only [detach_resize, nodes_resize, Table.release?_resize]
    cases ((g.detach n .outgoing).detach n .incoming).nodes.release? n <;> rfl
  · rfl

end

section

variable {g : Graph} {room : Kind → Nat} (valid : g.Valid) (more : ∀ kind, g.capacity kind ≤ room kind)
include valid more

theorem createNode_resize (fits : g.createNode.1 ≠ .error (.capacityExhausted .node)) :
    (g.resize room).createNode = g.createNode.map id (·.resize room) := by
  rcases inserted : g.nodes.insert (fun id => { id }) with ⟨_ | n, nodes⟩
  · simp [createNode, inserted] at fits
  · have same := Table.insert_resize inserted valid.nodes (more .node)
    simp only [createNode, nodes_resize, inserted, same]
    rfl

theorem createProperty_resize (owner : Id) (key : UInt64) (value : Binary64)
    (fits : (g.createProperty owner key value).1 ≠ .error (.capacityExhausted .property)) :
    (g.resize room).createProperty owner key value = (g.createProperty owner key value).map id (·.resize room) := by
  rcases inserted : g.properties.insert (fun id => { id, owner, key, value }) with ⟨_ | p, properties⟩
  · simp [createProperty, inserted] at fits
  · have same := Table.insert_resize inserted valid.properties (more .property)
    simp only [createProperty, properties_resize, inserted, same]
    rfl

theorem createEdge_resize (source target : NodeId) (label : UInt64) (weight : Binary64) (timestamp : UInt64)
    (fits : (g.createEdge source target label weight timestamp).1 ≠ .error (.capacityExhausted .edge)) :
    (g.resize room).createEdge source target label weight timestamp =
      (g.createEdge source target label weight timestamp).map id (·.resize room) := by
  unfold createEdge at *
  simp only [nodes_resize, Table.get?_resize]
  cases from_source : g.nodes.get? source with
  | none => rfl
  | some s =>
    cases to_target : g.nodes.get? target with
    | none => rfl
    | some t =>
      simp only [from_source, to_target, edges_resize] at fits ⊢
      split at fits
      · simp at fits
      · rename_i id edges allocated
        simp only [Table.allocate?_resize allocated (more .edge)]
        have start : (⟨g.nodes.resize (room .node), edges.resize (room .edge), (g.resize room).properties⟩ : Graph) =
          ({ g with edges } : Graph).resize room := rfl
        generalize linked : (({ g with edges } : Graph).link id source .outgoing (s.last .outgoing)).link
          id target .incoming (t.last .incoming) = u at fits
        have same : ({ g with edges } : Graph).Relinks u := linked ▸ (link_relinks ..).trans (link_relinks ..)
        have order : u.edges.order.capacity ≤ room .edge := by
          rw [same.edges.order, (Table.allocate?_stores valid.edges allocated).order, valid.edges.capacity]
          exact more .edge
        cases recorded : u.edges.record? id with
        | none => simp [recorded] at fits
        | some ordered =>
          simp only [start, link_resize, linked, edges_resize, Table.record?_resize recorded order]
          rfl

end

@[simp] theorem contents_resize (g : Graph) (room : Kind → Nat) :
    (g.resize room).contents = { g.contents with statistics := g.statistics.resize room } := by
  simp only [contents, edgesOf_resize]
  rfl

/-- The same answer with other numbers for the room of the graph. -/
def Reply.resize (room : Kind → Nat) : Reply → Reply
  | .statistics s => .statistics (s.resize room)
  | .contents c => .contents { c with statistics := c.statistics.resize room }
  | reply => reply

theorem outcome_resize {ε α : Type} (room : Kind → Nat) {reply : α → Reply} (r : Except ε α × Graph)
    (same : ∀ a, (reply a).resize room = reply a) : outcome reply (r.map id (·.resize room)) =
      (outcome reply r).map (·.map (Reply.resize room)) (·.resize room) := by
  obtain ⟨_ | a, h⟩ := r
  · rfl
  · simp [outcome, Except.map, same]

theorem answer_resize {g : Graph} {room : Kind → Nat} (valid : g.Valid)
    (more : ∀ kind, g.capacity kind ≤ room kind) (q : Request)
    (fits : ∀ kind, (g.answer q).1 ≠ .error (.capacityExhausted kind)) :
    (g.resize room).answer q = (g.answer q).map (·.map (Reply.resize room)) (·.resize room) := by
  cases q with
  | createNode =>
    have same := createNode_resize valid more (Session.ne_error_of_map (fits .node))
    simp only [answer, same]
    exact outcome_resize _ _ fun _ => rfl
  | createEdge source target label weight timestamp =>
    have same :=
      createEdge_resize valid more source target label weight timestamp (Session.ne_error_of_map (fits .edge))
    simp only [answer, same]
    exact outcome_resize _ _ fun _ => rfl
  | createProperty owner key value =>
    have same := createProperty_resize valid more owner key value (Session.ne_error_of_map (fits .property))
    simp only [answer, same]
    exact outcome_resize _ _ fun _ => rfl
  | deleteNode | deleteEdge | deleteProperty =>
    simp only [answer, deleteNode_resize, deleteEdge_resize, deleteProperty_resize]
    exact outcome_resize _ _ fun _ => rfl
  | walk kind count =>
    cases kind <;>
      simp only [answer, nodes_resize, edges_resize, properties_resize, Table.walk_resize] <;> rfl
  | edgesOf | neighbors | edgesBetween | degree =>
    simp only [answer, neighbors, edgesBetween, degree, edgesOf_resize]
    rfl
  | contents =>
    simp only [answer, contents_resize]
    rfl
  | _ => rfl

end Graph

end VectorGraph
