import VectorGraph.Session.Hybrid
import VectorGraph.Proofs.Graph.Runs
import VectorGraph.Proofs.Hybrid.Steps
import VectorGraph.Proofs.Vector.Runs

/-! Every store that requests can lead to has valid parts, whether they went to the store or to one part. -/
namespace VectorGraph.HybridStore

variable {s t : HybridStore} {q : Request} {reply : Except Refusal Reply}

/-- The store is put together of parts that requests have led to, and has answered requests since. -/
def Reachable (s : HybridStore) : Prop :=
  ∃ (graph : Graph) (vectors : VectorIndex) (requests : List Request),
    graph.Reachable ∧ vectors.Reachable ∧ Session.after answer ⟨graph, vectors⟩ requests = s

theorem ofConfig_parts {c : Config} {allocator : Allocator} (created : ofConfig c allocator = .ok s) :
    Graph.ofConfig c.graph = .ok s.graph ∧ VectorIndex.ofConfig c.vector allocator = .ok s.vectors := by
  unfold ofConfig at created
  cases graph : Graph.ofConfig c.graph <;> cases vectors : VectorIndex.ofConfig c.vector allocator <;>
    simp [graph, vectors, bind, Except.bind, Except.mapError, pure, Except.pure] at created
  exact created ▸ ⟨rfl, rfl⟩

theorem ofConfig_reachable {c : Config} {allocator : Allocator} (created : ofConfig c allocator = .ok s) :
    s.Reachable := by
  obtain ⟨graph, vectors⟩ := ofConfig_parts created
  exact ⟨s.graph, s.vectors, [], ⟨_, _, _, s.graph, [], graph, rfl⟩, ⟨_, _, _, s.vectors, [], vectors, rfl⟩, rfl⟩

/-- A request that may leave another store than it meets. -/
def Request.changes : Request → Bool
  | .graph r => r.changes
  | .vectors r => r.changes
  | .createNode _ | .setVector .. | .deleteNode _ => true
  | _ => false

/-- What a request does to a store, with its answer. -/
inductive Effect (s : HybridStore) : Request → Except Refusal Reply → HybridStore → Prop where
  | graph {q : Graph.Request} {reply : Except GraphError Graph.Reply} {h : Graph} : s.graph.Effect q reply h →
      Effect s (.graph q) ((reply.map .graph).mapError .graph) { s with graph := h }
  | vectors {q : VectorIndex.Request} {reply : Except VectorError VectorIndex.Reply} {y : VectorIndex} :
      s.vectors.Effect q reply y →
      Effect s (.vectors q) ((reply.map .vectors).mapError .vectors) { s with vectors := y }
  | addsNode {n : NodeId} {h : Graph} {v : Vec} {slot : Nat} {y : VectorIndex} : s.graph.AddsNode n h →
      s.vectors.Stores n.id slot v y → Effect s (.createNode v) (.ok (.created n)) ⟨h, y⟩
  | setsVector {n : NodeId} {v : Vec} {slot : Nat} {y : VectorIndex} : s.graph.nodes.contains n →
      s.vectors.Stores n.id slot v y → Effect s (.setVector n v) (.ok .done) { s with vectors := y }
  | dropsNode {n : NodeId} {h : Graph} {y : VectorIndex} : s.graph.nodes.contains n → s.graph.DropsNode n h →
      s.vectors.Forgets n.id y → Effect s (.deleteNode n) (.ok .done) ⟨h, y⟩
  | refuses {q : Request} (e : Refusal) : Effect s q (.error e) s
  | tells {q : Request} (reply : Reply) : q.changes = false → Effect s q (.ok reply) s

theorem Effect.query (query : q.changes = false) (reply : Except Refusal Reply) : s.Effect q reply s := by
  cases reply with
  | error e => exact .refuses e
  | ok reply => exact .tells reply query

theorem answer_effect (valid : s.Valid) (q : Request) : s.Effect q (s.answer q).1 (s.answer q).2 := by
  cases q with
  | graph q => exact .graph (Graph.answer_effect valid.graph q)
  | vectors q => exact .vectors (VectorIndex.answer_effect valid.vectors q)
  | createNode v =>
    rcases createNode_cases valid v with
      ⟨_, _, refused⟩ | ⟨_, _, refused⟩ | ⟨n, h, slot, y, made, _, adds, stores⟩
    · simpa [answer, refused] using .refuses _
    · simpa [answer, refused] using .refuses _
    · simpa [answer, made] using .addsNode adds stores
  | setVector n v =>
    rcases setVector_cases valid n v with ⟨_, refused⟩ | ⟨_, _, refused⟩ | ⟨live, slot, y, set, stores⟩
    · simpa [answer, refused] using .refuses _
    · simpa [answer, refused] using .refuses _
    · simpa [answer, set] using .setsVector live stores
  | deleteNode n =>
    rcases deleteNode_cases valid n with ⟨_, refused⟩ | ⟨live, h, y, deleted, drops, forgets⟩
    · simpa [answer, refused] using .refuses _
    · simpa [answer, deleted] using .dropsNode live drops forgets
  | _ => exact .query rfl _

theorem Effect.valid (effect : s.Effect q reply t) (valid : s.Valid) : t.Valid := by
  cases effect with
  | graph effect => exact ⟨effect.valid valid.graph, valid.vectors⟩
  | vectors effect => exact ⟨valid.graph, effect.valid valid.vectors⟩
  | addsNode adds stores => exact ⟨adds.valid, stores.valid valid.vectors⟩
  | setsVector _ stores => exact ⟨valid.graph, stores.valid valid.vectors⟩
  | dropsNode _ drops forgets => exact ⟨drops.valid, forgets.valid valid.vectors⟩
  | refuses _ => exact valid
  | tells _ _ => exact valid

theorem answer_valid (s : HybridStore) (q : Request) (valid : s.Valid) : (s.answer q).2.Valid :=
  (answer_effect valid q).valid valid

theorem Effect.unchanged {e : Refusal} (effect : s.Effect q reply t) (refused : reply = .error e) : t = s := by
  cases effect with
  | @graph _ inner _ effect =>
    cases inner with
    | error e => rw [effect.unchanged]
    | ok _ => cases refused
  | @vectors _ inner _ effect =>
    cases inner with
    | error e => rw [effect.unchanged]
    | ok _ => cases refused
  | refuses _ => rfl
  | _ => cases refused

theorem Reachable.valid (reachable : s.Reachable) : s.Valid := by
  obtain ⟨graph, vectors, requests, g, x, rfl⟩ := reachable
  exact Session.after_preserves Valid answer_valid ⟨g.valid, x.valid⟩ requests

end VectorGraph.HybridStore
