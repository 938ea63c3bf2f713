import VectorGraph.Proofs.Graph.Edgewise

/-! When a graph refuses a request, and with what error. A record is refused for want of room only where as many
are live as the graph was made for, so all room that deletions give back can be used again. -/
namespace VectorGraph

namespace Table

variable {kind : Kind} {α : Type} {t u : Table kind α}

/-- The refusal that a new record meets where no slot is left for it. -/
def exhausted? (t : Table kind α) : Option GraphError :=
  if t.size = t.capacity then some (.capacityExhausted kind) else none

theorem exhausted?_of_full (full : t.size = t.capacity) : t.exhausted? = some (.capacityExhausted kind) :=
  if_pos full

theorem exhausted?_of_room (room : t.size < t.capacity) : t.exhausted? = none := if_neg (Nat.ne_of_lt room)

theorem Inserts.room {ref : Ref kind} {value : α} (step : t.Inserts ref value u) : t.size < t.capacity := by
  have bound : u.size ≤ u.capacity := step.valid.records.size_le
  rw [step.size, step.capacity] at bound
  exact bound

/-- The creation order takes every handle that the arena issues. -/
def Unhindered [Inhabited α] (t : Table kind α) : Prop :=
  ∀ make ref u, t.allocate? make = some (ref, u) → (u.record? ref).isSome

theorem Ordered.unhindered [Inhabited α] (valid : t.Valid) : t.Unhindered := by
  intro make ref u allocated
  have same : u.Similar id u := .refl u
  obtain ⟨_, recorded, _⟩ := (allocate?_stores valid allocated).record? same
  simp [recorded]

end Table

namespace Graph

variable {g h : Graph} {n : NodeId} {e : EdgeId} {es : List EdgeId} {r : Edge} {kind : Kind} {q : Request}

theorem Adds.size (adds : g.Adds r h) (valid : g.Valid) : h.edges.size = g.edges.size + 1 := by
  rw [← length_rows adds.valid, adds.rows, List.length_append, length_rows valid, List.length_singleton]

theorem Adds.room (adds : g.Adds r h) (valid : g.Valid) : g.edges.size < g.edges.capacity := by
  have bound : h.edges.size ≤ h.edges.capacity := adds.valid.edges.records.size_le
  rw [adds.size valid, adds.capacity] at bound
  exact bound

def size (g : Graph) : Kind → Nat
  | .node => g.nodes.size
  | .edge => g.edges.size
  | .property => g.properties.size

def capacity (g : Graph) : Kind → Nat
  | .node => g.nodes.capacity
  | .edge => g.edges.capacity
  | .property => g.properties.capacity

theorem Valid.size_le (valid : g.Valid) (kind : Kind) : g.size kind ≤ g.capacity kind := by
  cases kind with
  | node => exact valid.nodes.records.size_le
  | edge => exact valid.edges.records.size_le
  | property => exact valid.properties.records.size_le

/-- Why a graph refuses a request, if it does. The ends of an edge are looked at before the room for it, and the
owner of a property not at all. -/
def refusal? (g : Graph) : Request → Option GraphError
  | .createNode => g.nodes.exhausted?
  | .createProperty .. => g.properties.exhausted?
  | .createEdge source target .. =>
    if g.nodes.contains source = false then some (.invalidSource source)
    else if g.nodes.contains target = false then some (.invalidTarget target)
    else g.edges.exhausted?
  | .deleteNode n => if g.nodes.contains n then none else some (.nodeNotFound n)
  | .deleteEdge e => if g.edges.contains e then none else some (.edgeNotFound e)
  | .deleteProperty p => if g.properties.contains p then none else some (.propertyNotFound p)
  | _ => none

theorem answer_eq_error_iff (valid : g.Valid) (q : Request) (e : GraphError) :
    (g.answer q).1 = .error e ↔ g.refusal? q = some e := by
  cases q with
  | createNode =>
    rcases createNode_cases valid with ⟨full, refused⟩ | ⟨n, h, made, adds⟩
    · simp [answer, outcome, refused, refusal?, Table.exhausted?_of_full full, Except.map]
    · simp [answer, outcome, made, refusal?, Table.exhausted?_of_room adds.nodes.room, Except.map]
  | deleteNode n =>
    rcases deleteNode_cases valid n with ⟨dead, refused⟩ | ⟨live, h, deleted, _⟩
    · simp [answer, outcome, refused, refusal?, dead, Except.map]
    · simp [answer, outcome, deleted, refusal?, live, Except.map]
  | createEdge source target label weight timestamp =>
    rcases createEdge_cases valid source target label weight timestamp with
      ⟨dead, refused⟩ | ⟨live, dead, refused⟩ | ⟨sources, targets, full, refused⟩ |
        ⟨sources, targets, e, h, made, adds⟩
    · simp [answer, outcome, refused, refusal?, dead, Except.map]
    · simp [answer, outcome, refused, refusal?, live, dead, Except.map]
    · simp [answer, outcome, refused, refusal?, sources, targets, Table.exhausted?_of_full full, Except.map]
    · have room := Table.exhausted?_of_room (adds.room valid)
      simp [answer, outcome, made, refusal?, sources, targets, room, Except.map]
  | deleteEdge e =>
    rcases deleteEdge_cases valid e with ⟨dead, refused⟩ | ⟨live, h, deleted, _⟩
    · simp [answer, outcome, refused, refusal?, dead, Except.map]
    · simp [answer, outcome, deleted, refusal?, live, Except.map]
  | createProperty owner key value =>
    rcases createProperty_cases valid owner key value with ⟨full, refused⟩ | ⟨p, properties, made, step, _⟩
    · simp [answer, outcome, refused, refusal?, Table.exhausted?_of_full full, Except.map]
    · simp [answer, outcome, made, refusal?, Table.exhausted?_of_room step.room, Except.map]
  | deleteProperty p =>
    rcases deleteProperty_cases valid p with ⟨dead, refused⟩ | ⟨live, properties, deleted, _⟩
    · simp [answer, outcome, refused, refusal?, dead, Except.map]
    · simp [answer, outcome, deleted, refusal?, live, Except.map]
  | walk kind count => cases kind <;> simp [answer, refusal?]
  | _ => simp [answer, refusal?]

theorem Drops.size (drops : g.Drops (·.id == e) h) (valid : g.Valid) (live : g.edges.contains e) :
    h.edges.size + 1 = g.edges.size := by
  have refs : h.edges.refs = g.edges.refs.erase e := by
    rw [← map_id_rows drops.valid, drops.rows, valid.edges.nodup_refs.erase_eq_filter, ← map_id_rows valid,
      List.filter_map]
    rfl
  have listed : e ∈ g.edges.refs := valid.edges.mem_refs.mpr live
  have positive := List.length_pos_of_mem listed
  rw [← drops.valid.edges.length_refs, refs, List.length_erase_of_mem listed, ← valid.edges.length_refs]
  omega

theorem removeEdge?_cases (valid : g.Valid) (removed : g.removeEdge? e = some h) :
    g.edges.contains e ∧ g.Drops (·.id == e) h := by
  rcases deleteEdge_cases valid e with ⟨_, refused⟩ | ⟨live, k, deleted, drops⟩
  · simp [deleteEdge, removed] at refused
  · obtain rfl : h = k := by simpa [deleteEdge, removed] using deleted
    exact ⟨live, drops⟩

theorem Deletes.size (deletes : Deletes es g h) (valid : g.Valid) : h.edges.size + es.length = g.edges.size := by
  induction deletes with
  | nil => rfl
  | cons removed _ ih =>
    obtain ⟨live, drops⟩ := removeEdge?_cases valid removed
    have one := drops.size valid live
    have rest := ih drops.valid
    rw [List.length_cons]
    omega

theorem DropsNode.size (drops : g.DropsNode n h) (valid : g.Valid) (live : g.nodes.contains n) :
    h.edges.size + (g.edgesOn n).length = g.edges.size := by
  obtain ⟨deletes, emptied⟩ := detach_deletes valid live
  rw [← deletes.size valid, ← length_rows drops.valid, ← length_rows emptied.valid, drops.rows, emptied.rows]

/-- How many records of a kind a request stores when it is granted. -/
def Request.stored : Request → Kind → Nat
  | .createNode, .node | .createEdge .., .edge | .createProperty .., .property => 1
  | _, _ => 0

/-- How many records of a kind a request takes away when it is granted. -/
def released (g : Graph) : Request → Kind → Nat
  | .deleteNode n, .edge => (g.edgesOn n).length
  | .deleteNode _, .node | .deleteEdge _, .edge | .deleteProperty _, .property => 1
  | _, _ => 0

/-- The room for records of a kind stays, and of the records some go and some come. -/
structure Recounts (g h : Graph) (kind : Kind) (gone come : Nat) : Prop where
  capacity : h.capacity kind = g.capacity kind
  size : h.size kind + gone = g.size kind + come

theorem Effect.recounts {reply : Reply} (effect : g.Effect q (.ok reply) h) (valid : g.Valid) (kind : Kind) :
    g.Recounts h kind (g.released q kind) (q.stored kind) := by
  cases effect with
  | addsNode adds =>
    cases kind with
    | node => exact ⟨adds.nodes.capacity, adds.nodes.size⟩
    | edge => exact ⟨congrArg Table.capacity adds.edges, congrArg Table.size adds.edges⟩
    | property => exact ⟨congrArg Table.capacity adds.properties, congrArg Table.size adds.properties⟩
  | dropsNode live drops =>
    cases kind with
    | node => exact ⟨drops.nodeCapacity, drops.nodeCount⟩
    | edge => exact ⟨drops.edgeCapacity, drops.size valid live⟩
    | property => exact ⟨congrArg Table.capacity drops.properties, congrArg Table.size drops.properties⟩
  | addsEdge adds =>
    cases kind with
    | node => exact ⟨adds.nodes.capacity, adds.nodes.size⟩
    | edge => exact ⟨adds.capacity, adds.size valid⟩
    | property => exact ⟨congrArg Table.capacity adds.properties, congrArg Table.size adds.properties⟩
  | dropsEdge live drops =>
    cases kind with
    | node => exact ⟨drops.nodes.capacity, drops.nodes.size⟩
    | edge => exact ⟨drops.capacity, drops.size valid live⟩
    | property => exact ⟨congrArg Table.capacity drops.properties, congrArg Table.size drops.properties⟩
  | addsProperty step _ =>
    cases kind with
    | property => exact ⟨step.capacity, step.size⟩
    | _ => exact ⟨rfl, rfl⟩
  | dropsProperty _ step _ =>
    cases kind with
    | property => exact ⟨step.capacity, step.size⟩
    | _ => exact ⟨rfl, rfl⟩
  | tells _ query =>
    refine ⟨rfl, ?_⟩
    cases q <;> simp_all [Request.changes, released, Request.stored]

theorem Effect.capacity {reply : Except GraphError Reply} (effect : g.Effect q reply h) (valid : g.Valid)
    (kind : Kind) : h.capacity kind = g.capacity kind := by
  cases reply with
  | error e => rw [effect.unchanged]
  | ok told => exact (effect.recounts valid kind).capacity

/-- A request that asks for nothing but room for a record. -/
inductive Creates (g : Graph) : Kind → Request → Prop where
  | node : Creates g .node .createNode
  | edge {source target : NodeId} (label : UInt64) (weight : Binary64) (timestamp : UInt64) :
      g.nodes.contains source → g.nodes.contains target →
      Creates g .edge (.createEdge source target label weight timestamp)
  | property (owner : Id) (key : UInt64) (value : Binary64) : Creates g .property (.createProperty owner key value)

theorem Creates.refusal?_of_full (creates : g.Creates kind q) (full : g.size kind = g.capacity kind) :
    g.refusal? q = some (.capacityExhausted kind) := by
  cases creates with
  | node | property _ _ _ => exact Table.exhausted?_of_full full
  | edge _ _ _ source target => simpa [refusal?, source, target] using Table.exhausted?_of_full full

theorem Creates.refusal?_of_room (creates : g.Creates kind q) (room : g.size kind < g.capacity kind) :
    g.refusal? q = none := by
  cases creates with
  | node | property _ _ _ => exact Table.exhausted?_of_room room
  | edge _ _ _ source target => simpa [refusal?, source, target] using Table.exhausted?_of_room room

theorem Creates.stored_eq (creates : g.Creates kind q) : q.stored kind = 1 ∧ g.released q kind = 0 := by
  cases creates <;> exact ⟨rfl, rfl⟩

theorem Creates.ne_deleteNode (creates : g.Creates kind q) (n : NodeId) : q ≠ .deleteNode n := by
  rintro rfl
  cases creates

theorem Creates.mono (creates : g.Creates kind q) (kept : ∀ n, g.nodes.contains n → h.nodes.contains n) :
    h.Creates kind q := by
  cases creates with
  | node => exact .node
  | edge label weight timestamp source target =>
    exact .edge label weight timestamp (kept _ source) (kept _ target)
  | property owner key value => exact .property owner key value

/-- Records can be created one after the other until as many are live as the graph was made for. -/
theorem length_granted_creations (valid : g.Valid) (requests : List Request)
    (creations : ∀ q ∈ requests, g.Creates kind q) :
    (Session.granted answer g requests).length = min requests.length (g.capacity kind - g.size kind) := by
  induction requests generalizing g with
  | nil => simp [Session.granted, Session.transcript]
  | cons q requests ih =>
    have creates := creations q (by simp)
    have effect := answer_effect valid q
    have kept : ∀ n, g.nodes.contains n → (g.answer q).2.nodes.contains n :=
      fun _ => effect.contains_node creates.ne_deleteNode
    have rest := ih (effect.valid valid) fun q member => (creations q (by simp [member])).mono kept
    rw [effect.capacity valid] at rest
    rcases Nat.lt_or_ge (g.size kind) (g.capacity kind) with room | full
    · cases reply : (g.answer q).1 with
      | error e =>
        rw [answer_eq_error_iff valid, creates.refusal?_of_room room] at reply
        simp at reply
      | ok told =>
        rw [reply] at effect
        have size := (effect.recounts valid kind).size
        rw [creates.stored_eq.1, creates.stored_eq.2] at size
        rw [Session.granted_of_ok reply, List.length_cons, List.length_cons, rest]
        omega
    · have full := Nat.le_antisymm (valid.size_le kind) full
      have refused := (answer_eq_error_iff valid q _).mpr (creates.refusal?_of_full full)
      rw [refused] at effect
      rw [Session.granted_of_error refused, rest, effect.unchanged, full]
      simp

/-- What a graph grants and refuses. The creation order has no say in it, since it takes whatever handle an arena
has issued, and for edges that is so whichever lists they have been linked to. -/
structure Decides (g : Graph) : Prop where
  refuses : ∀ q e, (g.answer q).1 = .error e ↔ g.refusal? q = some e
  bound : ∀ kind, g.size kind ≤ g.capacity kind
  balance : ∀ q reply, (g.answer q).1 = .ok reply → ∀ kind,
    (g.answer q).2.size kind + g.released q kind = g.size kind + q.stored kind
  room : ∀ kind requests, (∀ q ∈ requests, g.Creates kind q) →
    (Session.granted answer g requests).length = min requests.length (g.capacity kind - g.size kind)
  nodeOrder : g.nodes.Unhindered
  edgeOrder : ∀ make e edges, g.edges.allocate? make = some (e, edges) → ∀ source last target last',
    ((({ g with edges } : Graph).link e source .outgoing last).link e target .incoming last').edges.record? e
      |>.isSome
  propertyOrder : g.properties.Unhindered

theorem Valid.decides (valid : g.Valid) : g.Decides where
  refuses := answer_eq_error_iff valid
  bound := valid.size_le
  balance := by
    intro q reply granted
    have effect := answer_effect valid q
    rw [granted] at effect
    exact fun kind => (effect.recounts valid kind).size
  room := fun _ requests => length_granted_creations valid requests
  nodeOrder := valid.nodes.unhindered
  edgeOrder := by
    intro make e edges allocated source last target last'
    have step := Table.allocate?_stores valid.edges allocated
    have same := (link_relinks ({ g with edges } : Graph) e source .outgoing last).trans
      (link_relinks _ e target .incoming last')
    obtain ⟨_, recorded, _⟩ := step.record? same.edges
    simp [recorded]
  propertyOrder := valid.properties.unhindered

variable {nodeCapacity edgeCapacity propertyCapacity : Nat} {start : Graph}

/-- After every run a graph has the room that it was made with, less what is live, and refuses exactly what it has
a reason to refuse. -/
theorem outcomes_exact (created : create nodeCapacity edgeCapacity propertyCapacity = .ok start)
    (requests : List Request) :
    let g := Session.after answer start requests
    g.capacity .node = nodeCapacity ∧ g.capacity .edge = edgeCapacity ∧ g.capacity .property = propertyCapacity ∧
      g.Decides := by
  have step (g : Graph) (q : Request) (before : g.Valid ∧ ∀ kind, g.capacity kind = start.capacity kind) :
      (g.answer q).2.Valid ∧ ∀ kind, (g.answer q).2.capacity kind = start.capacity kind := by
    have effect := answer_effect before.1 q
    exact ⟨effect.valid before.1, fun kind => (effect.capacity before.1 kind).trans (before.2 kind)⟩
  obtain ⟨valid, capacity⟩ := Session.after_preserves _ step ⟨create_valid created, fun _ => rfl⟩ requests
  obtain ⟨_, rfl⟩ := create_eq_ok_iff.mp created
  exact ⟨capacity .node, capacity .edge, capacity .property, valid.decides⟩

/-- A full graph loses a node with two of its three edges, one of them a self-loop. One node and two edges can be
created then, and no more, and none of the edges at the node that is gone. -/
theorem outcomes_exact_cascade :
    let a : NodeId := ⟨.ofParts 0 1⟩
    let b : NodeId := ⟨.ofParts 1 1⟩
    let edge (source target : NodeId) : Request := .createEdge source target 0 ⟨0⟩ 0
    let requests := [.createNode, .createNode, edge a a, edge a b, edge b b, edge b a, .deleteNode a]
    ∃ start, create 2 3 1 = .ok start ∧
      let g := Session.after answer start requests
      g.size .node = 1 ∧ g.size .edge = 1 ∧
        (Session.granted answer g [.createNode, .createNode]).length = 1 ∧
        (Session.granted answer g [edge b b, edge b b, edge b b]).length = 2 ∧
        (g.answer (edge a a)).1 = .error (.invalidSource a) ∧ (g.answer (edge b a)).1 = .error (.invalidTarget a) ∧
        (g.answer (.deleteNode a)).1 = .error (.nodeNotFound a) := by
  intro a b edge requests
  let start := fresh 2 3 1
  let g := Session.after answer start requests
  have created : create 2 3 1 = .ok start := rfl
  obtain ⟨nodeCapacity, edgeCapacity, _, decides⟩ := outcomes_exact created requests
  have nodes : g.size .node = 1 := by decide +kernel
  have edges : g.size .edge = 1 := by decide +kernel
  have dead : g.nodes.contains a = false := by decide +kernel
  have live : g.nodes.contains b := by decide +kernel
  have refused (q : Request) (e : GraphError) (why : g.refusal? q = some e) : (g.answer q).1 = .error e :=
    (decides.refuses q e).mpr why
  refine ⟨start, created, nodes, edges, ?_, ?_, refused _ _ ?_, refused _ _ ?_, refused _ _ ?_⟩
  · rw [decides.room .node _ (by simpa using .node), nodeCapacity, nodes]
    rfl
  · rw [decides.room .edge _ (by simpa using .edge 0 ⟨0⟩ 0 live live), edgeCapacity, edges]
    rfl
  · simp [edge, refusal?, dead]
  · simp [edge, refusal?, live, dead]
  · simp [refusal?, dead]

end Graph

end VectorGraph
