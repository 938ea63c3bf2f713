import VectorGraph.Hybrid
import VectorGraph.Proofs.Graph.Detach
import VectorGraph.Proofs.Vector.Steps

/-! What each change does to a store whose parts are valid. A change that takes two steps is refused at its
first one or not at all. -/
namespace VectorGraph.HybridStore

variable {s t : HybridStore} {n : NodeId} {v : Vec}

structure Valid (s : HybridStore) : Prop where
  graph : s.graph.Valid
  vectors : s.vectors.Valid

/-- A vector that the index has room for is never refused under the handle of a new node. -/
theorem createNode_cases (valid : s.Valid) (v : Vec) :
    (∃ e, s.vectors.ensureRoom v = .error e ∧ s.createNode v = (.error (.vector e), s)) ∨
    (s.vectors.ensureRoom v = .ok () ∧ s.graph.nodes.size = s.graph.nodes.capacity ∧
      s.createNode v = (.error (.graph (.capacityExhausted .node)), s)) ∨
    ∃ n h slot y, s.createNode v = (.ok n, ⟨h, y⟩) ∧ s.graph.createNode = (.ok n, h) ∧
      s.graph.AddsNode n h ∧ s.vectors.Stores n.id slot v y := by
  unfold createNode
  cases room : s.vectors.ensureRoom v with
  | error e => exact .inl ⟨e, rfl, rfl⟩
  | ok =>
    rcases Graph.createNode_cases valid.graph with ⟨full, refused⟩ | ⟨n, h, made, adds⟩
    · exact .inr (.inl ⟨rfl, full, by simp [refused]⟩)
    · have live : h.nodes.contains n := (adds.nodes.contains n).mpr (.inl rfl)
      rw [VectorIndex.ensureRoom_outcome valid.vectors] at room
      rcases VectorIndex.set_cases valid.vectors n.id v with
        ⟨null, _⟩ | ⟨_, wide, _⟩ | ⟨_, fits, _, full, _⟩ | ⟨slot, y, stored, step⟩
      · exact absurd null (Table.ne_null_of_contains live)
      · simp [wide] at room
      · simp [fits, full] at room
      · exact .inr (.inr ⟨n, h, slot, y, by simp [made, stored], made, adds, step⟩)

theorem setVector_cases (valid : s.Valid) (n : NodeId) (v : Vec) :
    (s.graph.nodes.contains n = false ∧ s.setVector n v = (.error (.graph (.nodeNotFound n)), s)) ∨
    (s.graph.nodes.contains n ∧ ∃ e, s.setVector n v = (.error (.vector e), s)) ∨
    s.graph.nodes.contains n ∧ ∃ slot y, s.setVector n v = (.ok (), { s with vectors := y }) ∧
      s.vectors.Stores n.id slot v y := by
  unfold setVector
  by_cases live : s.graph.nodes.contains n
  · rcases VectorIndex.set_stores valid.vectors n.id v with ⟨e, refused⟩ | ⟨slot, y, stored, step⟩
    · exact .inr (.inl ⟨live, e, by simp [live, refused]⟩)
    · exact .inr (.inr ⟨live, slot, y, by simp [live, stored], step⟩)
  · exact .inl ⟨by simpa using live, by simp [live]⟩

/-- Once the node is gone, nothing refuses to take its vector away. -/
theorem deleteNode_cases (valid : s.Valid) (n : NodeId) :
    (s.graph.nodes.contains n = false ∧ s.deleteNode n = (.error (.graph (.nodeNotFound n)), s)) ∨
    s.graph.nodes.contains n ∧ ∃ h y, s.deleteNode n = (.ok (), ⟨h, y⟩) ∧ s.graph.DropsNode n h ∧
      s.vectors.Forgets n.id y := by
  unfold deleteNode
  rcases Graph.deleteNode_cases valid.graph n with ⟨dead, refused⟩ | ⟨live, h, deleted, drops⟩
  · exact .inl ⟨dead, by simp [refused]⟩
  · refine .inr ⟨live, h, ?_⟩
    rcases VectorIndex.remove_cases valid.vectors n.id with ⟨missing, _⟩ | ⟨stored, slot, y, removed, step⟩
    · exact ⟨_, by simp [deleted, missing], drops, .absent missing⟩
    · exact ⟨y, by simp [deleted, stored, removed], drops, .removed step⟩

end VectorGraph.HybridStore
