import VectorGraph.Proofs.Graph.Resize
import VectorGraph.Proofs.Hybrid.Runs
import VectorGraph.Proofs.Vector.Resize

/-! Room is told from an answer only where it runs out. Two stores that differ in their capacities give the same
answers to a session in which the smaller one never runs out of room, but for the capacities that they report. -/
namespace VectorGraph

def GraphError.isExhaustion : GraphError → Bool
  | .capacityExhausted _ => true
  | _ => false

def VectorError.isExhaustion : VectorError → Bool
  | .capacityExhausted _ => true
  | _ => false

def HybridError.isExhaustion : HybridError → Bool
  | .graph cause => cause.isExhaustion
  | .vector cause => cause.isExhaustion
  | .missingVector _ => false

/-- How many records of a kind a graph is made for. -/
def GraphConfig.room (c : GraphConfig) : Kind → Nat
  | .node => c.nodeCapacity.toNat
  | .edge => c.edgeCapacity.toNat
  | .property => c.propertyCapacity.toNat

namespace HybridStore

def Refusal.isExhaustion : Refusal → Bool
  | .graph e => e.isExhaustion
  | .vectors e => e.isExhaustion
  | .store e => e.isExhaustion

/-- The same store with the capacities of another one. -/
def resize (s : HybridStore) (c : Config) : HybridStore :=
  ⟨s.graph.resize c.graph.room, s.vectors.resize c.vector.capacity.toNat⟩

def Reply.resize (c : Config) : Reply → Reply
  | .graph reply => .graph (reply.resize c.graph.room)
  | .vectors reply => .vectors (reply.resize c.vector.capacity.toNat)
  | .contents g x => .contents
      { g with statistics := g.statistics.resize c.graph.room }
      { x with info := { x.info with capacity := c.vector.capacity.toNat } }
  | reply => reply

/-- A store has no more room than a configuration asks for. -/
structure Within (s : HybridStore) (c : Config) : Prop where
  graph : ∀ kind, s.graph.capacity kind ≤ c.graph.room kind
  vectors : s.vectors.capacity ≤ c.vector.capacity.toNat

variable {s t : HybridStore} {c : Config} {v : Vec} {q : Request}

theorem Effect.capacity {reply : Except Refusal Reply} (effect : s.Effect q reply t) (valid : s.Valid) :
    (∀ kind, t.graph.capacity kind = s.graph.capacity kind) ∧ t.vectors.capacity = s.vectors.capacity := by
  cases effect with
  | graph effect => exact ⟨effect.capacity valid.graph, rfl⟩
  | vectors effect => exact ⟨fun _ => rfl, effect.shape.2⟩
  | addsNode adds stores => exact ⟨(Graph.Effect.addsNode adds).capacity valid.graph, stores.capacity⟩
  | setsVector _ stores => exact ⟨fun _ => rfl, stores.capacity⟩
  | dropsNode live drops forgets =>
    refine ⟨(Graph.Effect.dropsNode live drops).capacity valid.graph, ?_⟩
    cases forgets with
    | absent _ => rfl
    | removed removes => exact removes.capacity
  | refuses | tells => exact ⟨fun _ => rfl, rfl⟩

theorem answer_within (valid : s.Valid) (within : s.Within c) (q : Request) : (s.answer q).2.Within c := by
  obtain ⟨graph, vectors⟩ := (answer_effect valid q).capacity valid
  exact ⟨fun kind => (graph kind).symm ▸ within.graph kind, vectors.symm ▸ within.vectors⟩

@[simp] theorem connected_resize (s : HybridStore) (c : Config) : (s.resize c).connected = s.connected := by
  funext a b
  simp [HybridStore.connected, Graph.edgesBetween, resize]

section

variable (valid : s.Valid) (within : s.Within c)
include valid

theorem setVector_resize (n : NodeId) (fits : ∀ e, (s.setVector n v).1 = .error e → e.isExhaustion = false) :
    (s.resize c).setVector n v = (s.setVector n v).map id (·.resize c) := by
  have live : (s.resize c).graph.nodes.contains n = s.graph.nodes.contains n := rfl
  have vectors : (s.resize c).vectors = s.vectors.resize c.vector.capacity.toNat := rfl
  unfold setVector at *
  rw [live, vectors]
  split
  · rename_i live
    have room : (s.vectors.set n.id v).1 ≠ .error (.capacityExhausted s.vectors.capacity) := by
      rcases stored : s.vectors.set n.id v with ⟨e | _, y⟩
      · have proper : e.isExhaustion = false := fits (.vector e) (by simp [live, stored])
        rintro ⟨⟩
        cases proper
      · simp
    rw [valid.vectors.set_resize n.id room]
    rcases s.vectors.set n.id v with ⟨_ | _, y⟩ <;> rfl
  · rfl

theorem deleteNode_resize (n : NodeId) : (s.resize c).deleteNode n = (s.deleteNode n).map id (·.resize c) := by
  have graph : (s.resize c).graph = s.graph.resize c.graph.room := rfl
  have vectors : (s.resize c).vectors = s.vectors.resize c.vector.capacity.toNat := rfl
  have stored : (s.resize c).vectors.contains n.id = s.vectors.contains n.id := rfl
  unfold deleteNode
  rw [stored, graph, vectors, Graph.deleteNode_resize, valid.vectors.remove_resize]
  rcases s.graph.deleteNode n with ⟨_ | _, h⟩
  · rfl
  · dsimp only [Prod.map, id_eq]
    split
    · rcases s.vectors.remove n.id with ⟨_ | _, y⟩ <;> rfl
    · rfl

theorem similarNodes_resize : (s.resize c).similarNodes = s.similarNodes := by
  funext n k
  have vectors : (s.resize c).vectors = s.vectors.resize c.vector.capacity.toNat := rfl
  simp only [similarNodes, connected_resize, vectors, valid.vectors.get?_resize, valid.vectors.nearest_resize]

include within

/-- The index has been asked for room before, so it is not full when the node is there. -/
theorem createNode_resize (fits : ∀ e, (s.createNode v).1 = .error e → e.isExhaustion = false) :
    (s.resize c).createNode v = (s.createNode v).map id (·.resize c) := by
  have graph : (s.resize c).graph = s.graph.resize c.graph.room := rfl
  have vectors : (s.resize c).vectors = s.vectors.resize c.vector.capacity.toNat := rfl
  unfold createNode at *
  have room : s.vectors.ensureRoom v ≠ .error (.capacityExhausted s.vectors.capacity) := by
    intro full
    have proper := fits (.vector (.capacityExhausted s.vectors.capacity)) (by rw [full])
    cases proper
  rw [graph, vectors, VectorIndex.ensureRoom_resize within.vectors room]
  cases asked : s.vectors.ensureRoom v with
  | error e => rfl
  | ok =>
    have node : s.graph.createNode.1 ≠ .error (.capacityExhausted .node) := by
      rcases made : s.graph.createNode with ⟨e | _, h⟩
      · have proper : e.isExhaustion = false := fits (.graph e) (by simp [asked, made])
        rintro ⟨⟩
        cases proper
      · simp
    rw [Graph.createNode_resize valid.graph within.graph node]
    rcases made : s.graph.createNode with ⟨e | n, h⟩
    · rfl
    · have room : (s.vectors.set n.id v).1 ≠ .error (.capacityExhausted s.vectors.capacity) := by
        rw [VectorIndex.ensureRoom_outcome valid.vectors] at asked
        rw [VectorIndex.set_outcome valid.vectors]
        grind
      dsimp only [Prod.map, id_eq]
      rw [valid.vectors.set_resize n.id room]
      rcases s.vectors.set n.id v with ⟨e | _, y⟩
      · dsimp only [Prod.map, id_eq]
        rw [Graph.deleteNode_resize]
        rcases h.deleteNode n with ⟨_ | _, h⟩ <;> rfl
      · rfl

theorem answer_resize (q : Request) (fits : ∀ e, (s.answer q).1 = .error e → e.isExhaustion = false) :
    (s.resize c).answer q = (s.answer q).map (·.map (Reply.resize c)) (·.resize c) := by
  have graph : (s.resize c).graph = s.graph.resize c.graph.room := rfl
  have vectors : (s.resize c).vectors = s.vectors.resize c.vector.capacity.toNat := rfl
  cases q with
  | graph q =>
    have room (kind : Kind) : (s.graph.answer q).1 ≠ .error (.capacityExhausted kind) := by
      intro full
      have proper := fits (.graph (.capacityExhausted kind)) (by simp [answer, full, Except.map, Except.mapError])
      cases proper
    simp only [answer, graph, Graph.answer_resize valid.graph within.graph q room]
    rcases s.graph.answer q with ⟨_ | _, h⟩ <;> rfl
  | vectors q =>
    have room : (s.vectors.answer q).1 ≠ .error (.capacityExhausted s.vectors.capacity) := by
      intro full
      have proper := fits (.vectors (.capacityExhausted s.vectors.capacity))
        (by simp [answer, full, Except.map, Except.mapError])
      cases proper
    simp only [answer, vectors, valid.vectors.answer_resize within.vectors q room]
    rcases s.vectors.answer q with ⟨_ | _, y⟩ <;> rfl
  | createNode v =>
    have same := createNode_resize (v := v) valid within fun e refused =>
      fits (.store e) (by simp [answer, refused, Except.map, Except.mapError])
    simp only [answer, same]
    rcases s.createNode v with ⟨_ | _, t⟩ <;> rfl
  | setVector n v =>
    have same := setVector_resize (c := c) (v := v) valid n fun e refused =>
      fits (.store e) (by simp [answer, refused, Except.map, Except.mapError])
    simp only [answer, same]
    rcases s.setVector n v with ⟨_ | _, t⟩ <;> rfl
  | deleteNode n =>
    simp only [answer, deleteNode_resize valid]
    rcases s.deleteNode n with ⟨_ | _, t⟩ <;> rfl
  | similarNodes n k =>
    simp only [answer, similarNodes_resize valid]
    cases s.similarNodes n k <;> rfl
  | vector n =>
    simp only [answer, vector?, vectors, valid.vectors.get?_resize]
    rfl
  | connected a b =>
    simp only [answer, connected_resize]
    rfl
  | contents =>
    simp only [answer, graph, vectors, Graph.contents_resize, valid.vectors.contents_resize within.vectors]
    rfl

end

/-- A session that never runs out of room in a store is answered alike by every store of the same dimension whose
capacities are no smaller, but for the capacities that it is told. -/
theorem capacity_independent {small large : Config} {allocator allocator' : Allocator}
    (narrow : ofConfig small allocator = .ok s) (wide : ofConfig large allocator' = .ok t)
    (dimension : large.vector.dimension = small.vector.dimension)
    (room : ∀ kind, small.graph.room kind ≤ large.graph.room kind)
    (slots : small.vector.capacity ≤ large.vector.capacity) (commands : List (Session.Command Request))
    (fits : ∀ e, some (.error e) ∈ Session.run answer (.start s) commands → e.isExhaustion = false) :
    Session.run answer (.start t) commands =
      (Session.run answer (.start s) commands).map (Option.map (Except.map (Reply.resize large))) := by
  have valid : s.Valid := (ofConfig_reachable narrow).valid
  obtain ⟨graph, vectors⟩ := ofConfig_parts narrow
  obtain ⟨graph', vectors'⟩ := ofConfig_parts wide
  obtain ⟨_, made⟩ := Graph.create_eq_ok_iff.mp graph
  obtain ⟨_, made'⟩ := Graph.create_eq_ok_iff.mp graph'
  obtain ⟨_, empty⟩ := VectorIndex.create_eq_ok_iff.mp vectors
  obtain ⟨_, empty'⟩ := VectorIndex.create_eq_ok_iff.mp vectors'
  have within : s.Within large := by
    refine ⟨fun kind => ?_, ?_⟩
    · rw [made]
      cases kind
      · exact room .node
      · exact room .edge
      · exact room .property
    · rw [empty]
      simpa [VectorIndex.fresh, VectorIndex.capacity] using UInt64.le_iff_toNat_le.mp slots
  have same : t = s.resize large := by
    have index : s.vectors.resize large.vector.capacity.toNat = t.vectors := by
      rw [empty, empty', VectorIndex.fresh_resize (UInt64.le_iff_toNat_le.mp slots), dimension]
    have store : s.graph.resize large.graph.room = t.graph := by
      rw [made, made']
      rfl
    rw [resize, index, store]
  have step (s : HybridStore) (q : Request) (before : s.Valid ∧ s.Within large) :
      (s.answer q).2.Valid ∧ (s.answer q).2.Within large :=
    ⟨answer_valid s q before.1, answer_within before.1 before.2 q⟩
  rw [same]
  exact Session.run_translate (fun s => s.Valid ∧ s.Within large)
    (fun a => ∀ e, a = .error e → e.isExhaustion = false) step
    (fun s q before => answer_resize before.1 before.2 q) (s := .start s) ⟨valid, within⟩ ⟨valid, within⟩
    fun a member e refused => fits e (refused ▸ member)

/-- A slot that is used again as long as the store has room, before the session goes back to what it has saved. -/
theorem capacity_independent_reuse :
    let small : Config := ⟨⟨1, 1, 1⟩, ⟨1, 1⟩⟩
    let large : Config := ⟨⟨2, 3, 4⟩, ⟨1, 5⟩⟩
    let a : NodeId := ⟨.ofParts 0 1⟩
    let b : NodeId := ⟨.ofParts 0 2⟩
    let v : Vec := #[.infinity]
    let commands : List (Session.Command Request) := [.request (.vectors .info), .request (.createNode v), .save,
      .request (.graph (.deleteNode a)), .request (.graph .createNode), .request (.vectors .entries), .swap,
      .request (.graph .nodes), .request (.graph .statistics)]
    let replies (c : Config) : List (Option (Except Refusal Reply)) := [
      some (.ok (.vectors (.info ⟨1, c.vector.capacity.toNat, 0, true⟩))), some (.ok (.created a)), none,
      some (.ok (.graph .done)), some (.ok (.graph (.created b.id))), some (.ok (.vectors (.entries [(a.id, v)]))),
      none, some (.ok (.graph (.ids [a.id]))),
      some (.ok (.graph (.statistics
        ⟨1, 0, 0, c.graph.nodeCapacity, c.graph.edgeCapacity, c.graph.propertyCapacity⟩)))]
    ∃ s t, ofConfig small = .ok s ∧ ofConfig large = .ok t ∧
      Session.run answer (.start s) commands = replies small ∧
      Session.run answer (.start t) commands = replies large := by
  intro small large a b v commands replies
  let s : HybridStore := ⟨.fresh 1 1 1, .fresh 1 1⟩
  let t : HybridStore := ⟨.fresh 2 3 4, .fresh 1 5⟩
  let index : VectorIndex := ⟨1, #[some a.id], v, (∅ : Std.HashMap Id Nat).insert a.id 0⟩
  let stored : HybridStore := ⟨Session.after Graph.answer s.graph [.createNode], index⟩
  have told : s.answer (.vectors .info) = (.ok (.vectors (.info ⟨1, 1, 0, true⟩)), s) := rfl
  have made : s.answer (.createNode v) = (.ok (.created a), stored) := by
    have room : s.vectors.ensureRoom v = .ok () := rfl
    have node : s.graph.createNode = (.ok a, stored.graph) := by decide +kernel
    have named : a.id.isNull = false := by decide
    have fits : s.vectors.checkDimension v = .ok () := rfl
    have absent : s.vectors.slots[a.id]? = none := Std.HashMap.getElem?_empty
    have vacant : s.vectors.vacantSlot? = some 0 := by decide +kernel
    simp only [answer, createNode, room, node, VectorIndex.set, named, fits, absent, vacant]
    rfl
  have answers : Session.run answer (.start s) commands = replies small := by
    simp only [commands, Session.run, Session.perform, Session.start, told, made]
    decide +kernel
  have room (kind : Kind) : small.graph.room kind ≤ large.graph.room kind := by cases kind <;> decide
  have narrow : ofConfig small = .ok s := rfl
  have wide : ofConfig large = .ok t := rfl
  have same := capacity_independent narrow wide rfl room (by decide) commands (by simp [answers, replies])
  refine ⟨s, t, narrow, wide, answers, ?_⟩
  rw [same, answers]
  rfl

end HybridStore

end VectorGraph
