import VectorGraph.Proofs.Hybrid.Runs

/-! Every refusal is atomic, in the graph, in the index and in the store of both. The store changes its parts one
after the other, and so does the graph with its nodes, edges and orders, but in a valid store nothing is
refused once a first change was made. -/
namespace VectorGraph

theorem Graph.Reachable.atomic {g : Graph} (reachable : g.Reachable) : Session.Atomic answer g :=
  Session.atomic_of_unchanged Valid answer_valid
    (fun _ q _ valid refused => Effect.unchanged (refused ▸ answer_effect valid q)) reachable.valid

theorem VectorIndex.Reachable.atomic {x : VectorIndex} (reachable : x.Reachable) : Session.Atomic answer x :=
  Session.atomic_of_unchanged Valid answer_valid
    (fun _ q _ valid refused => Effect.unchanged (refused ▸ answer_effect valid q)) reachable.valid

theorem HybridStore.Reachable.atomic {s : HybridStore} (reachable : s.Reachable) : Session.Atomic answer s :=
  Session.atomic_of_unchanged Valid answer_valid
    (fun _ q _ valid refused => (answer_effect valid q).unchanged refused) reachable.valid

/-- A request that fails leaves the whole state as it was, and no later answer tells that it was made. -/
theorem refusals_leave_no_trace :
    (∀ g : Graph, g.Reachable → Session.Atomic Graph.answer g) ∧
      (∀ x : VectorIndex, x.Reachable → Session.Atomic VectorIndex.answer x) ∧
        ∀ s : HybridStore, s.Reachable → Session.Atomic HybridStore.answer s :=
  ⟨fun _ => Graph.Reachable.atomic, fun _ => VectorIndex.Reachable.atomic, fun _ => HybridStore.Reachable.atomic⟩

/-- Nothing has room for more: a graph refuses an edge, an index a vector, and a store of both a node. Afterwards
the graph gives the slot of a deleted edge the generation that it would have had without the refusal. -/
theorem refusals_leave_no_trace_full :
    let a : NodeId := ⟨.ofParts 0 1⟩
    let v : Vec := #[.zero]
    let loop : Graph.Request := .createEdge a a 0 ⟨0⟩ 0
    ∃ start index, Graph.create 1 1 1 = .ok start ∧ VectorIndex.create 1 1 = .ok index ∧
      let g := Session.after Graph.answer start [.createNode, loop]
      let x := Session.after VectorIndex.answer index [.set ⟨1⟩ v]
      let s : HybridStore := ⟨g, index⟩
      (g.answer loop).1 = .error (.capacityExhausted .edge) ∧ (g.answer loop).2 = g ∧
        (Session.transcript Graph.answer (g.answer loop).2 [.deleteEdge ⟨.ofParts 0 1⟩, loop]).map Prod.snd =
          [.ok .done, .ok (.created (.ofParts 0 2))] ∧
        (x.answer (.set ⟨2⟩ v)).1 = .error (.capacityExhausted 1) ∧ (x.answer (.set ⟨2⟩ v)).2 = x ∧
        (s.answer (.createNode v)).1 = .error (.store (.graph (.capacityExhausted .node))) ∧
        (s.answer (.createNode v)).2 = s := by
  intro a v loop
  let start : Graph := .fresh 1 1 1
  let index : VectorIndex := .fresh 1 1
  let g := Session.after Graph.answer start [.createNode, loop]
  let x := Session.after VectorIndex.answer index [.set ⟨1⟩ v]
  let s : HybridStore := ⟨g, index⟩
  have made : g.Reachable := ⟨1, 1, 1, start, _, rfl, rfl⟩
  have empty : index.Reachable := ⟨1, 1, .addressSpace, index, [], rfl, rfl⟩
  obtain ⟨graphs, indexes, stores⟩ := refusals_leave_no_trace
  have full : (g.answer loop).1 = .error (.capacityExhausted .edge) := by decide +kernel
  have crowded : (x.answer (.set ⟨2⟩ v)).1 = .error (.capacityExhausted 1) := by
    simp [x, index, VectorIndex.fresh, Session.after, VectorIndex.answer, VectorIndex.set, v, Id.isNull,
      VectorIndex.checkDimension, VectorIndex.vacantSlot?, VectorIndex.setRow, VectorIndex.capacity, Except.map]
  have refused : (s.answer (.createNode v)).1 = .error (.store (.graph (.capacityExhausted .node))) := by
    have room : index.ensureRoom v = .ok () := rfl
    have full : g.createNode = (.error (.capacityExhausted .node), g) := by decide +kernel
    simp only [s, HybridStore.answer, HybridStore.createNode, room, full]
    rfl
  refine ⟨start, index, rfl, rfl, full, (graphs g made).unchanged _ _ full, ?_, crowded,
    (indexes x ⟨1, 1, .addressSpace, index, _, rfl, rfl⟩).unchanged _ _ crowded, refused,
    (stores s ⟨g, index, [], made, empty, rfl⟩).unchanged _ _ refused⟩
  rw [(graphs g made).later _ _ _ full]
  decide +kernel

end VectorGraph
