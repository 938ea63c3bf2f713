import VectorGraph.Proofs.Graph.Outcomes
import VectorGraph.Proofs.Hybrid.Runs
import VectorGraph.Proofs.Vector.Map

/-! Creating a node together with its vector. The index is asked for room by the number of its vectors and later
searches its slots for one, and the handle of the new node may have a vector there before it is issued. Still the
question settles what the search will find, so a node that was made is never deleted again. -/
namespace VectorGraph

namespace VectorIndex

variable {x : VectorIndex} {id : Id} {v : Vec}

/-- Being asked for room, an index answers what it would answer to a vector under any handle that is new to it. -/
theorem set_eq_ensureRoom (valid : x.Valid) (named : id ≠ .null) (absent : x.contains id = false) (v : Vec) :
    (x.set id v).1 = x.ensureRoom v := by
  rw [set_outcome valid, ensureRoom_outcome valid, if_neg named]
  simp [absent]

theorem ensureRoom_eq_ok_iff (valid : x.Valid) :
    x.ensureRoom v = .ok () ↔ v.size = x.dimension ∧ x.size ≠ x.capacity := by
  rw [ensureRoom_outcome valid]
  by_cases fits : v.size = x.dimension <;> by_cases full : x.size = x.capacity <;> simp [fits, full]

/-- Where there is room, a handle that has a vector already is not refused either. -/
theorem set_of_ensureRoom (valid : x.Valid) (named : id ≠ .null) (room : x.ensureRoom v = .ok ()) :
    ∃ y, x.set id v = (.ok (), y) := by
  obtain ⟨fits, notFull⟩ := (ensureRoom_eq_ok_iff valid).mp room
  refine ⟨(x.set id v).2, Prod.ext ?_ rfl⟩
  rw [set_outcome valid, if_neg named, if_neg (not_not_intro fits), if_neg fun full => notFull full.2]

end VectorIndex

namespace HybridStore

variable {s : HybridStore} {n : NodeId} {v : Vec}

/-- Why a store refuses a new node with a vector, if it does. The length of the vector is looked at before the room
in the index, and that before the room in the graph. -/
def creationRefusal? (s : HybridStore) (v : Vec) : Option HybridError :=
  if v.size ≠ s.vectors.dimension then some (.vector (.dimensionMismatch s.vectors.dimension v.size))
  else if s.vectors.size = s.vectors.capacity then some (.vector (.capacityExhausted s.vectors.capacity))
  else if s.graph.nodes.size = s.graph.nodes.capacity then some (.graph (.capacityExhausted .node))
  else none

/-- The store with one more node, which has no edges, and with a vector under its handle. -/
structure Gains (s : HybridStore) (n : NodeId) (v : Vec) (t : HybridStore) : Prop where
  graph : s.graph.createNode = (.ok n, t.graph)
  fresh : s.graph.nodes.contains n = false
  node : t.graph.nodes.get? n = some { id := n }
  isolated : ∀ d, t.graph.edgesOf n d = []
  vector : t.vector? n = some v
  nodes : ∀ m, m ≠ n → t.graph.nodes.get? m = s.graph.nodes.get? m
  nodeOrder : t.graph.nodes.refs = s.graph.nodes.refs ++ [n]
  edges : t.graph.edges = s.graph.edges
  properties : t.graph.properties = s.graph.properties
  vectors : ∀ id, id ≠ n.id → t.vectors.get? id = s.vectors.get? id

theorem gains_of_stores {h : Graph} {y : VectorIndex} {slot : Nat} (valid : s.Valid)
    (made : s.graph.createNode = (.ok n, h)) (adds : s.graph.AddsNode n h)
    (stores : s.vectors.Stores n.id slot v y) : s.Gains n v ⟨h, y⟩ where
  graph := made
  fresh := adds.nodes.absent
  node := by rw [adds.nodes.get?, if_pos rfl]
  isolated := by
    intro d
    have live : h.nodes.get? n = some { id := n } := by rw [adds.nodes.get?, if_pos rfl]
    have start : (h.nodes.get? n).bind (·.first d) = none := by cases d <;> simp [live, Node.first, Node.ends]
    rw [Graph.edgesOf, start]
    exact Graph.Visits.done.follow_eq (Nat.zero_le _)
  vector := by rw [vector?, stores.get? valid.vectors, if_pos rfl]
  nodes := by
    intro m other
    rw [adds.nodes.get?, if_neg other]
  nodeOrder := adds.nodes.refs
  edges := adds.edges
  properties := adds.properties
  vectors := by
    intro id other
    rw [stores.get? valid.vectors, if_neg other]

/-- A store decides on a new node before it makes one. -/
theorem createNode_decided (valid : s.Valid) (v : Vec) :
    (∃ e, s.creationRefusal? v = some e ∧ s.createNode v = (.error e, s)) ∨
      s.creationRefusal? v = none ∧ ∃ n t, s.createNode v = (.ok n, t) ∧ s.Gains n v t := by
  rcases createNode_cases valid v with
    ⟨e, refused, answer⟩ | ⟨room, full, answer⟩ | ⟨n, h, slot, y, answer, made, adds, stores⟩
  · refine .inl ⟨_, ?_, answer⟩
    rw [VectorIndex.ensureRoom_outcome valid.vectors] at refused
    unfold creationRefusal?
    split at refused
    · rename_i wide
      rw [if_pos wide, ← Except.error.inj refused]
    · rename_i fits
      split at refused
      · rename_i crowded
        rw [if_neg fits, if_pos crowded, ← Except.error.inj refused]
      · cases refused
  · obtain ⟨fits, notFull⟩ := (VectorIndex.ensureRoom_eq_ok_iff valid.vectors).mp room
    exact .inl ⟨_, by rw [creationRefusal?, if_neg (not_not_intro fits), if_neg notFull, if_pos full], answer⟩
  · have room : s.vectors.ensureRoom v = .ok () := by
      cases asked : s.vectors.ensureRoom v with
      | error e => simp [createNode, asked] at answer
      | ok => rfl
    obtain ⟨fits, notFull⟩ := (VectorIndex.ensureRoom_eq_ok_iff valid.vectors).mp room
    refine .inr ⟨?_, n, _, answer, gains_of_stores valid made adds stores⟩
    rw [creationRefusal?, if_neg (not_not_intro fits), if_neg notFull, if_neg (Nat.ne_of_lt adds.nodes.room)]

/-- A store refuses a new node with a vector for the length of the vector, for want of room in the index or for want
of room in the graph, and then stays as it was. Else it makes the node that the graph would have made alone, and
changes nothing but that node and the vector under its handle. What the index says of its room beforehand is what it
would say to a vector under any new handle, and a node that is made on its word always gets its vector. -/
theorem createNode_exact (reachable : s.Reachable) (v : Vec) :
    (∀ id, id ≠ .null → s.vectors.contains id = false → (s.vectors.set id v).1 = s.vectors.ensureRoom v) ∧
    (∀ e, (s.createNode v).1 = .error e ↔ s.creationRefusal? v = some e) ∧
    (∀ e, (s.createNode v).1 = .error e → (s.createNode v).2 = s) ∧
    (s.creationRefusal? v = none → ∃ n t, s.createNode v = (.ok n, t) ∧ s.Gains n v t) ∧
    ∀ n h, s.vectors.ensureRoom v = .ok () → s.graph.createNode = (.ok n, h) →
      ∃ y, s.vectors.set n.id v = (.ok (), y) := by
  have valid := reachable.valid
  have index := valid.vectors
  refine ⟨fun id named absent => VectorIndex.set_eq_ensureRoom index named absent v, ?_, ?_, ?_, ?_⟩
  · intro e
    rcases createNode_decided valid v with ⟨why, refused, answer⟩ | ⟨granted, n, t, answer, _⟩
    · simp [answer, refused]
    · simp [answer, granted]
  · intro e failed
    rcases createNode_decided valid v with ⟨why, _, answer⟩ | ⟨_, n, t, answer, _⟩
    · rw [answer]
    · simp [answer] at failed
  · intro granted
    rcases createNode_decided valid v with ⟨why, refused, _⟩ | ⟨_, created⟩
    · simp [granted] at refused
    · exact created
  · intro n h room made
    have adds := Graph.addsNode_of_createNode valid.graph made
    have live : h.nodes.contains n := (adds.nodes.contains n).mpr (.inl rfl)
    exact VectorIndex.set_of_ensureRoom index (Table.ne_null_of_contains live) room

/-- The handle that is issued next has a vector already, which gives way to the vector of the new node. -/
theorem createNode_exact_reserved :
    let a : NodeId := ⟨.ofParts 0 1⟩
    let b : NodeId := ⟨.ofParts 1 1⟩
    let v : Vec := #[.zero]
    let w : Vec := #[.infinity]
    let requests := [.vectors (.set b.id v), .graph .createNode]
    ∃ start, ofConfig ⟨⟨2, 1, 1⟩, ⟨1, 2⟩⟩ = .ok start ∧
      let s := Session.after answer start requests
      (s.vectors.set a.id w).1 = .ok () ∧ s.createNode #[] = (.error (.vector (.dimensionMismatch 1 0)), s) ∧
        ∃ t, s.createNode w = (.ok b, t) ∧ t.vector? b = some w ∧ t.graph.nodes.refs = [a, b] ∧
          t.graph.edgesOf b .outgoing = [] ∧ ∃ y, s.vectors.set b.id w = (.ok (), y) := by
  intro a b v w requests
  let index : VectorIndex := .fresh 1 2
  let start : HybridStore := ⟨.fresh 2 1 1, index⟩
  let s := Session.after answer start requests
  have reachable : s.Reachable :=
    ⟨_, _, requests, ⟨2, 1, 1, _, [], rfl, rfl⟩, ⟨1, 2, .addressSpace, index, [], rfl, rfl⟩, rfl⟩
  obtain ⟨holds, wide, large⟩ :=
    (VectorIndex.create_holds (rfl : VectorIndex.create 1 2 = .ok index)).set b.id v (by decide) rfl (.inr (by decide))
  have size : s.vectors.size = 1 := holds.refines.size
  have dimension : s.vectors.dimension = 1 := wide
  have capacity : s.vectors.capacity = 2 := large
  have absent : s.vectors.contains a.id = false :=
    Bool.eq_false_iff.mpr fun held => absurd ((holds.refines.contains a.id).mp held) (by decide)
  have room : s.vectors.ensureRoom w = .ok () := by
    rw [VectorIndex.ensureRoom_eq_ok_iff reachable.valid.vectors, dimension, size, capacity]
    decide
  have made : s.graph.createNode.1 = .ok b := by decide +kernel
  obtain ⟨asked, refusal, unchanged, _, _⟩ := createNode_exact reachable #[]
  obtain ⟨foretold, _, _, granted, stored⟩ := createNode_exact reachable w
  have narrow : (s.createNode #[]).1 = .error (.vector (.dimensionMismatch 1 0)) := by
    rw [refusal, creationRefusal?, dimension]
    rfl
  have nodes : s.graph.nodes.size ≠ s.graph.nodes.capacity := by decide +kernel
  obtain ⟨n, t, created, gains⟩ := granted (by simp [creationRefusal?, dimension, size, capacity, nodes, w])
  obtain rfl : n = b := by simpa [gains.graph] using made
  have before : s.graph.nodes.refs = [a] := by decide +kernel
  exact ⟨start, rfl, (foretold a.id (by decide) absent).trans room, Prod.ext narrow (unchanged _ narrow), t, created,
    gains.vector, by rw [gains.nodeOrder, before]; rfl, gains.isolated .outgoing, stored _ _ room gains.graph⟩

end HybridStore

end VectorGraph
