import VectorGraph.Proofs.Checked.Graph
import VectorGraph.Proofs.Checked.Vector
import VectorGraph.Proofs.Hybrid.Runs

/-!
Calls on a hybrid store, stopping at a step that is not defined in either part. No call on a store of any kind comes to
one, whatever calls came before and whatever it is called with.
-/
namespace VectorGraph

namespace HybridStore

def createNodeChecked (s : HybridStore) (v : Vec) : Checked (Except HybridError NodeId × HybridStore) :=
  match s.vectors.ensureRoom v with
  | .error e => return (.error (.vector e), s)
  | .ok () => do
    match ← s.graph.createNodeChecked with
    | (.error e, graph) => return (.error (.graph e), { s with graph })
    | (.ok node, graph) =>
      match ← s.vectors.setChecked node.id v with
      | (.ok (), vectors) => return (.ok node, ⟨graph, vectors⟩)
      | (.error e, vectors) =>
        match ← graph.deleteNodeChecked node with
        | (.ok (), graph) => return (.error (.vector e), ⟨graph, vectors⟩)
        | (.error e, graph) => return (.error (.graph e), ⟨graph, vectors⟩)

def setVectorChecked (s : HybridStore) (node : NodeId) (v : Vec) : Checked (Except HybridError Unit × HybridStore) :=
  if s.graph.nodes.contains node then do
    match ← s.vectors.setChecked node.id v with
    | (.ok (), vectors) => return (.ok (), { s with vectors })
    | (.error e, vectors) => return (.error (.vector e), { s with vectors })
  else return (.error (.graph (.nodeNotFound node)), s)

def deleteNodeChecked (s : HybridStore) (node : NodeId) : Checked (Except HybridError Unit × HybridStore) := do
  match ← s.graph.deleteNodeChecked node with
  | (.error e, graph) => return (.error (.graph e), { s with graph })
  | (.ok (), graph) =>
    if s.vectors.contains node.id then
      match ← s.vectors.removeChecked node.id with
      | (.ok (), vectors) => return (.ok (), ⟨graph, vectors⟩)
      | (.error e, vectors) => return (.error (.vector e), ⟨graph, vectors⟩)
    else return (.ok (), { s with graph })

def connectedChecked (s : HybridStore) (a b : NodeId) : Checked Bool :=
  return !(← s.graph.edgesBetweenChecked a b).isEmpty || !(← s.graph.edgesBetweenChecked b a).isEmpty

def similarNodesChecked (s : HybridStore) (node : NodeId) (k : Nat) :
    Checked (Except HybridError (List SimilarNode)) := do
  match ← s.vectors.getChecked node.id with
  | none => return .error (.missingVector node)
  | some query =>
    match ← s.vectors.nearestChecked query (k + 1) with
    | .error e => return .error (.vector e)
    | .ok hits =>
      return .ok (← ((hits.filter (·.id != node.id)).take k).mapM fun hit =>
        return ⟨⟨hit.id⟩, hit.distance, ← s.connectedChecked node ⟨hit.id⟩⟩)

def answerChecked (s : HybridStore) : Request → Checked (Except Refusal Reply × HybridStore)
  | .graph r => do
    let (reply, graph) ← s.graph.answerChecked r
    return ((reply.map .graph).mapError .graph, { s with graph })
  | .vectors r => do
    let (reply, vectors) ← s.vectors.answerChecked r
    return ((reply.map .vectors).mapError .vectors, { s with vectors })
  | .createNode v => do
    let (outcome, t) ← s.createNodeChecked v
    return ((outcome.map .created).mapError .store, t)
  | .setVector node v => do
    let (outcome, t) ← s.setVectorChecked node v
    return ((outcome.map fun _ => .done).mapError .store, t)
  | .vector node => return (.ok (.vector (← s.vectors.getChecked node.id)), s)
  | .deleteNode node => do
    let (outcome, t) ← s.deleteNodeChecked node
    return ((outcome.map fun _ => .done).mapError .store, t)
  | .connected a b => return (.ok (.flag (← s.connectedChecked a b)), s)
  | .similarNodes node k => return (((← s.similarNodesChecked node k).map .similar).mapError .store, s)
  | .contents =>
    return (.ok (.contents (← s.graph.contentsChecked) ⟨s.vectors.info, ← s.vectors.entriesChecked⟩), s)

structure Sound (s : HybridStore) : Prop where
  graph : s.graph.Valid
  vectors : s.vectors.Sound

variable {s t : HybridStore} {q : Request} {reply : Except Refusal Reply}

theorem createNodeChecked_eq (sound : s.Sound) (v : Vec) : s.createNodeChecked v = pure (s.createNode v) := by
  unfold createNodeChecked createNode
  cases s.vectors.ensureRoom v with
  | error e => rfl
  | ok =>
    simp only [Graph.createNodeChecked_eq sound.graph, pure_bind]
    rcases made : s.graph.createNode with ⟨e | node, graph⟩
    · rfl
    · have valid := (Graph.addsNode_of_createNode sound.graph made).valid
      simp only [VectorIndex.setChecked_eq sound.vectors, pure_bind]
      rcases s.vectors.set node.id v with ⟨e | _, vectors⟩
      · simp only [Graph.deleteNodeChecked_eq valid, pure_bind]
        rcases graph.deleteNode node with ⟨e | _, graph⟩ <;> rfl
      · rfl

theorem setVectorChecked_eq (sound : s.Sound) (node : NodeId) (v : Vec) :
    s.setVectorChecked node v = pure (s.setVector node v) := by
  unfold setVectorChecked setVector
  split
  · rw [VectorIndex.setChecked_eq sound.vectors, pure_bind]
    rcases s.vectors.set node.id v with ⟨e | _, vectors⟩ <;> rfl
  · rfl

theorem deleteNodeChecked_eq (sound : s.Sound) (node : NodeId) :
    s.deleteNodeChecked node = pure (s.deleteNode node) := by
  unfold deleteNodeChecked deleteNode
  rw [Graph.deleteNodeChecked_eq sound.graph, pure_bind]
  rcases s.graph.deleteNode node with ⟨e | _, graph⟩
  · rfl
  · dsimp only
    split
    · rw [VectorIndex.removeChecked_eq sound.vectors, pure_bind]
      rcases s.vectors.remove node.id with ⟨e | _, vectors⟩ <;> rfl
    · rfl

@[simp] theorem connectedChecked_eq (s : HybridStore) (a b : NodeId) :
    s.connectedChecked a b = pure (s.connected a b) := by
  simp [connectedChecked, connected]

theorem similarNodesChecked_eq (sound : s.Sound) (node : NodeId) (k : Nat) :
    s.similarNodesChecked node k = pure (s.similarNodes node k) := by
  unfold similarNodesChecked similarNodes
  rw [VectorIndex.getChecked_eq sound.vectors, pure_bind]
  cases s.vectors.get? node.id with
  | none => rfl
  | some query =>
    simp only [VectorIndex.nearestChecked_eq sound.vectors, pure_bind]
    cases s.vectors.nearest query (k + 1) with
    | error e => rfl
    | ok hits => simp

theorem answerChecked_eq (sound : s.Sound) (q : Request) : s.answerChecked q = pure (s.answer q) := by
  cases q <;>
    simp [answerChecked, answer, Graph.answerChecked_eq sound.graph, VectorIndex.answerChecked_eq sound.vectors,
      createNodeChecked_eq sound, setVectorChecked_eq sound, deleteNodeChecked_eq sound, similarNodesChecked_eq sound,
      VectorIndex.getChecked_eq sound.vectors, VectorIndex.entriesChecked_eq sound.vectors, vector?,
      VectorIndex.contents]

theorem Effect.sound (effect : s.Effect q reply t) (sound : s.Sound) : t.Sound := by
  cases effect with
  | graph effect => exact ⟨effect.valid sound.graph, sound.vectors⟩
  | vectors effect => exact ⟨sound.graph, effect.sound sound.vectors⟩
  | addsNode adds stores => exact ⟨adds.valid, stores.sound sound.vectors⟩
  | setsVector _ stores => exact ⟨sound.graph, stores.sound sound.vectors⟩
  | dropsNode _ drops forgets => exact ⟨drops.valid, forgets.sound sound.vectors⟩
  | refuses _ | tells _ _ => exact sound

theorem answer_sound (s : HybridStore) (q : Request) (sound : s.Sound) : (s.answer q).2.Sound :=
  (answer_effect ⟨sound.graph, sound.vectors.valid⟩ q).sound sound

theorem Reachable.sound (reachable : s.Reachable) : s.Sound := by
  obtain ⟨graph, vectors, requests, g, x, rfl⟩ := reachable
  exact Session.after_preserves Sound answer_sound ⟨g.valid, x.sound⟩ requests

end HybridStore

/-- In every arena, graph, index and store that calls have led to, every call does what it does without the checks. A
deletion of a node finds the first edge of each list live, and every slot that the map of an index tells has an owner's
place, and a place in the buffer that fits 64 bits. -/
theorem calls_never_fault :
    (∀ (α : Type) [Inhabited α] (capacity : Nat) (start : Arena α) (uses : List (Arena.Use α)),
      Arena.create capacity = .ok start → (start.after uses).Safe) ∧
    (∀ g : Graph, g.Reachable → ∀ q, g.answerChecked q = .ok (g.answer q)) ∧
    (∀ x : VectorIndex, x.Reachable →
      (∀ (id : Id) (slot : Nat), x.slots[id]? = some slot → slot < x.owners.size ∧
        slot * x.dimension + x.dimension < UInt64.size ∧
        slot * x.dimension + x.dimension ≤ x.components.size) ∧
      ∀ q, x.answerChecked q = .ok (x.answer q)) ∧
    ∀ s : HybridStore, s.Reachable → ∀ q, s.answerChecked q = .ok (s.answer q) := by
  refine ⟨?_, ?_, ?_, ?_⟩
  · intro α _ capacity start uses created
    obtain ⟨⟨_, bound⟩, rfl⟩ := Arena.create_eq_ok_iff.mp created
    exact (Arena.after_valid (Arena.fresh_valid bound) uses).safe
  · intro g reachable q
    exact Graph.answerChecked_eq reachable.valid q
  · intro x reachable
    have sound := reachable.sound
    refine ⟨fun id slot own => ?_, VectorIndex.answerChecked_eq sound⟩
    have within := sound.valid.lt_size own
    exact ⟨within, sound.span within⟩
  · intro s reachable q
    exact HybridStore.answerChecked_eq reachable.sound q

/-- A slot that was freed is taken again, a node goes with a self-loop and two more edges, a vector is stored in the
last slot, and a node without a vector is refused. -/
theorem calls_never_fault_small :
    let arena : Arena Nat := (Arena.fresh 1).after [.allocate, .free (.ofParts 0 1)]
    let a : NodeId := ⟨.ofParts 0 1⟩
    let b : NodeId := ⟨.ofParts 1 1⟩
    let edge (source target : NodeId) : Graph.Request := .createEdge source target 0 ⟨0⟩ 0
    let graph := Session.after Graph.answer (Graph.fresh 2 3 1) [.createNode, .createNode, edge a a, edge a b, edge b a]
    let index := VectorIndex.fresh 2 1
    let v : Vec := #[.zero, .zero]
    (∃ left, arena.allocateChecked = .ok (some (.ofParts 0 2, left))) ∧
      (∃ left, graph.answerChecked (.deleteNode a) = .ok (.ok .done, left)) ∧
      (∃ left, index.answerChecked (.set a.id v) = .ok (.ok .done, left)) ∧
      ∃ left, HybridStore.answerChecked ⟨graph, index⟩ (.similarNodes a 1)
        = .ok (.error (.store (.missingVector a)), left) := by
  intro arena a b edge graph index v
  obtain ⟨arenas, graphs, indexes, stores⟩ := calls_never_fault
  have created : Graph.create 2 3 1 = .ok (Graph.fresh 2 3 1) := rfl
  have made : VectorIndex.create 2 1 = .ok index := rfl
  have reached : graph.Reachable := ⟨2, 3, 1, _, _, created, rfl⟩
  have new : index.Reachable := ⟨2, 1, .addressSpace, _, [], made, rfl⟩
  have shown {σ τ : Type} {r : σ × τ} {reply : σ} (same : r.1 = reply) : r = (reply, r.2) := by
    rw [← same]
  have stored : (index.set a.id v).1 = .ok () := by
    have named : a.id ≠ .null := by decide
    have room : (VectorIndex.fresh 2 1).size ≠ (VectorIndex.fresh 2 1).capacity := by decide
    rw [VectorIndex.set_outcome (VectorIndex.fresh_valid 2 1), if_neg named, if_neg (by decide),
      if_neg fun full => room full.2]
  refine ⟨⟨_, (arenas Nat 1 _ _ rfl).allocate⟩, ⟨_, (graphs graph reached _).trans (congrArg _ (shown ?_))⟩,
    ⟨_, ((indexes index new).2 _).trans (congrArg _ (shown (congrArg (Except.map _) stored)))⟩,
    ⟨_, (stores ⟨graph, index⟩ ⟨graph, index, [], reached, new, rfl⟩ _).trans (congrArg _ (shown ?_))⟩⟩
  · decide +kernel
  · simp [HybridStore.answer, HybridStore.similarNodes, index]
    rfl

end VectorGraph
