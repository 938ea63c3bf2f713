import VectorGraph.Proofs.Hybrid.Runs
import VectorGraph.Proofs.Vector.Nearest

/-! Graph and vectors in step: as long as nodes are deleted by the store and not behind its back, every vector has
a live node. -/
namespace VectorGraph.HybridStore

variable {s t : HybridStore} {q : Request} {reply : Except Refusal Reply} {n : NodeId} {k : Nat}

/-- A request to the store itself, or one to a part that leaves no vector without a node. -/
def Permits (s : HybridStore) : Request → Prop
  | .graph (.deleteNode _) => False
  | .vectors (.set id _) => s.graph.nodes.contains ⟨id⟩
  | _ => True

/-- A valid store whose vectors all have live nodes. -/
structure InStep (s : HybridStore) : Prop where
  valid : s.Valid
  live : ∀ id, s.vectors.contains id → s.graph.nodes.contains ⟨id⟩

theorem Effect.inStep (effect : s.Effect q reply t) (permitted : s.Permits q) (before : s.InStep) :
    t.InStep := by
  refine ⟨effect.valid before.valid, fun id stored => ?_⟩
  obtain ⟨⟨graph, vectors⟩, live⟩ := before
  cases effect with
  | @graph inner _ _ effect =>
    -- Edges may go, but no node does.
    refine effect.contains_node ?_ (live id stored)
    rintro n rfl
    exact permitted
  | vectors effect =>
    cases effect with
    | stores step =>
      rcases (step.contains vectors id).mp stored with rfl | old
      · exact permitted
      · exact live id old
    | removes step => exact live id ((VectorIndex.Forgets.removed step).contains vectors id |>.mp stored).2
    | refuses _ | tells _ _ => exact live id stored
  | addsNode adds step =>
    refine (adds.nodes.contains ⟨id⟩).mpr ?_
    rcases (step.contains vectors id).mp stored with rfl | old
    · exact .inl rfl
    · exact .inr (live id old)
  | setsVector node step =>
    rcases (step.contains vectors id).mp stored with rfl | old
    · exact node
    · exact live id old
  | dropsNode _ drops step =>
    obtain ⟨different, old⟩ := (step.contains vectors id).mp stored
    refine (drops.contains_node graph ⟨id⟩).mpr ⟨?_, live id old⟩
    rintro rfl
    exact different rfl
  | refuses _ | tells _ _ => exact live id stored

theorem ofConfig_inStep {c : Config} {allocator : Allocator} (created : ofConfig c allocator = .ok s) :
    s.InStep := by
  obtain ⟨_, vectors⟩ := ofConfig_parts created
  obtain ⟨_, empty⟩ := VectorIndex.create_eq_ok_iff.mp vectors
  refine ⟨(ofConfig_reachable created).valid, fun id stored => ?_⟩
  simp [empty, VectorIndex.contains_eq_isSome] at stored

theorem InStep.size_le (inStep : s.InStep) : s.vectors.size ≤ s.graph.nodes.size := by
  obtain ⟨⟨graph, vectors⟩, live⟩ := inStep
  rw [← vectors.length_holders, ← graph.nodes.length_refs, ← List.length_map Ref.id]
  refine List.Nodup.length_le_of_subset vectors.nodup_holders fun id held => ?_
  exact List.mem_map.mpr ⟨⟨id⟩, graph.nodes.mem_refs.mpr (live id (vectors.mem_holders.mp held)), rfl⟩

/-- Nodes are compared with one that has a vector, and all that are found have one. -/
theorem similarNodes_cases (valid : s.Valid) (n : NodeId) (k : Nat) :
    (s.vectors.contains n.id = false ∧ s.similarNodes n k = .error (.missingVector n)) ∨
      s.vectors.contains n.id ∧ ∃ hits, s.similarNodes n k = .ok hits ∧
        ∀ hit ∈ hits, s.vectors.contains hit.id.id := by
  simp only [VectorIndex.contains_eq_isSome]
  unfold similarNodes
  cases stored : s.vectors.get? n.id with
  | none => exact .inl ⟨rfl, rfl⟩
  | some query =>
    refine .inr ⟨rfl, _, by simp only [VectorIndex.nearest_eq (valid.vectors.size_get? stored)]; rfl, ?_⟩
    intro hit found
    obtain ⟨near, taken, rfl⟩ := List.mem_map.mp found
    have ranked := List.mem_of_mem_take (List.mem_filter.mp (List.mem_of_mem_take taken)).1
    obtain ⟨v, here, _⟩ := ((valid.vectors.ranks query).members near).mp ranked
    simp [here]

/-- Nodes and vectors as queries tell of them: only live nodes have vectors and are found, and a node takes its
own vector along and no other. -/
structure Agrees (s : HybridStore) : Prop where
  live : ∀ id, s.vectors.contains id → s.graph.nodes.contains ⟨id⟩
  size : s.vectors.size ≤ s.graph.nodes.size
  unknown : ∀ n k, s.vectors.contains n.id = false → s.similarNodes n k = .error (.missingVector n)
  similar : ∀ n k, s.vectors.contains n.id →
    ∃ hits, s.similarNodes n k = .ok hits ∧ ∀ hit ∈ hits, s.graph.nodes.contains hit.id
  dead : ∀ n, s.graph.nodes.contains n = false → s.deleteNode n = (.error (.graph (.nodeNotFound n)), s)
  deleted : ∀ n, s.graph.nodes.contains n → ∃ t, s.deleteNode n = (.ok (), t) ∧
    t.graph.nodes.contains n = false ∧ t.vectors.get? n.id = none ∧
      ∀ id, id ≠ n.id → t.vectors.get? id = s.vectors.get? id

theorem InStep.agrees (inStep : s.InStep) : s.Agrees where
  live := inStep.live
  size := inStep.size_le
  unknown := by
    intro n k missing
    rcases similarNodes_cases inStep.valid n k with ⟨_, refused⟩ | ⟨stored, _⟩
    · exact refused
    · simp [missing] at stored
  similar := by
    intro n k stored
    rcases similarNodes_cases inStep.valid n k with ⟨missing, _⟩ | ⟨_, hits, found, holders⟩
    · simp [missing] at stored
    · exact ⟨hits, found, fun hit member => inStep.live _ (holders hit member)⟩
  dead := by
    intro n dead
    rcases deleteNode_cases inStep.valid n with ⟨_, refused⟩ | ⟨live, _⟩
    · exact refused
    · simp [dead] at live
  deleted := by
    intro n live
    rcases deleteNode_cases inStep.valid n with ⟨dead, _⟩ | ⟨_, h, y, deleted, drops, forgets⟩
    · simp [dead] at live
    · refine ⟨_, deleted, ?_, ?_, ?_⟩
      · simpa using (drops.contains_node inStep.valid.graph n).not.mpr (by simp)
      · rw [forgets.get? inStep.valid.vectors, if_pos rfl]
      · intro id different
        rw [forgets.get? inStep.valid.vectors, if_neg different]

/-- No run of permitted requests leaves a vector without a live node. -/
theorem vectors_in_step {c : Config} {allocator : Allocator} {start : HybridStore}
    (created : ofConfig c allocator = .ok start) {requests : List Request} (permitted : Session.Permitted answer Permits start requests) :
    (Session.after answer start requests).Agrees := by
  have step (s : HybridStore) (q : Request) (inStep : s.InStep) (permits : s.Permits q) : (s.answer q).2.InStep :=
    (answer_effect inStep.valid q).inStep permits inStep
  exact (Session.permitted_preserves InStep step (ofConfig_inStep created) permitted).agrees

/-- Two nodes whose vectors go to the index directly: one node goes with its vector, and the other vector stays. A
handle that was not issued has neither. -/
theorem vectors_in_step_apart :
    let a : NodeId := ⟨.ofParts 0 1⟩
    let b : NodeId := ⟨.ofParts 1 1⟩
    let c : NodeId := ⟨.ofParts 0 2⟩
    let v : Vec := #[.zero]
    let w : Vec := #[.infinity]
    let requests := [.graph .createNode, .graph .createNode, .vectors (.set a.id v), .vectors (.set b.id w)]
    ∃ start, ofConfig ⟨⟨2, 1, 1⟩, ⟨1, 2⟩⟩ = .ok start ∧
      Session.Permitted answer Permits start requests ∧
      let s := Session.after answer start requests
      s.vectors.size = 2 ∧ s.graph.nodes.size = 2 ∧
        (∃ hits, s.similarNodes a 1 = .ok hits ∧ ∀ hit ∈ hits, s.graph.nodes.contains hit.id) ∧
        s.similarNodes c 1 = .error (.missingVector c) ∧
        s.deleteNode c = (.error (.graph (.nodeNotFound c)), s) ∧
        ∃ t, s.deleteNode a = (.ok (), t) ∧ t.graph.nodes.contains a = false ∧ t.vectors.get? a.id = none ∧
          t.vectors.get? b.id = some w := by
  intro a b c v w requests
  let index : VectorIndex := .fresh 1 2
  let start : HybridStore := ⟨.fresh 2 1 1, index⟩
  let s := Session.after answer start requests
  have created : ofConfig ⟨⟨2, 1, 1⟩, ⟨1, 2⟩⟩ = .ok start := rfl
  have first : (Session.after answer start (requests.take 2)).graph.nodes.contains a := by decide +kernel
  have second : (Session.after answer start (requests.take 3)).graph.nodes.contains b := by decide +kernel
  have permitted : Session.Permitted answer Permits start requests := ⟨trivial, trivial, first, second, trivial⟩
  have agrees : s.Agrees := vectors_in_step created permitted
  have holds : s.vectors.Holds ((Finmap.insert a.id v ∅).insert b.id w) := by
    have made : VectorIndex.create 1 2 = .ok index := rfl
    obtain ⟨one, wide, large⟩ := (VectorIndex.create_holds made).set a.id v (by decide) rfl (.inr (by decide))
    exact (one.set b.id w (by decide) wide.symm (.inr (large.symm ▸ by decide))).1
  have live : s.graph.nodes.contains a := by decide +kernel
  have dead : s.graph.nodes.contains c = false := by decide +kernel
  have missing := (holds.refines.contains c.id).not.mpr (by decide)
  obtain ⟨t, deleted, gone, forgotten, kept⟩ := agrees.deleted a live
  refine ⟨start, created, permitted, holds.refines.size, by decide +kernel,
    agrees.similar a 1 ((holds.refines.contains a.id).mpr (by decide)), agrees.unknown c 1 (by simpa using missing),
    agrees.dead c dead, t, deleted, gone, forgotten, ?_⟩
  rw [kept b.id (by decide), holds.lookup]
  exact Finmap.lookup_insert _

end VectorGraph.HybridStore
