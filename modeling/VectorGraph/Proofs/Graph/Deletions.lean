import Mathlib.Data.List.Perm.Basic
import VectorGraph.Proofs.Graph.Queries

/-! Deletions commute. Each strikes records off the ledger, whether the graph grants it or refuses it because the
record is gone already, and what is left does not depend on the order in which they are struck off. -/
namespace VectorGraph.Graph

variable {g h : Graph} {l : Ledger} {q : Request}

/-- A request that only takes records away. -/
def Request.deletes : Request → Bool
  | .deleteNode _ | .deleteEdge _ | .deleteProperty _ => true
  | _ => false

namespace Ledger

/-- What a deletion leaves, also where there is nothing to delete. -/
def strike (l : Ledger) : Request → Ledger
  | .deleteNode n =>
    { l with nodes := l.nodes.filter (· != n), edges := l.edges.filter fun r => !r.touches n }
  | .deleteEdge e => { l with edges := l.edges.filter (·.id != e) }
  | .deleteProperty p => { l with properties := l.properties.filter (·.id != p) }
  | _ => l

instance : RightCommutative strike where
  right_comm := by
    intro l first second
    cases first <;> cases second <;>
      simp only [strike, List.filter_filter, Bool.and_comm]

end Ledger

namespace Keeps

theorem strike_node (keeps : g.Keeps l) {n : NodeId} (dead : g.nodes.contains n = false) :
    l.strike (.deleteNode n) = l := by
  have nodes : l.nodes.filter (· != n) = l.nodes := by
    refine List.filter_eq_self.mpr fun m listed => bne_iff_ne.mpr ?_
    rintro rfl
    rw [← keeps.nodes] at listed
    simp [keeps.valid.nodes.mem_refs.mp listed] at dead
  have edges : l.edges.filter (fun r => !r.touches n) = l.edges := by
    rw [← keeps.edges]
    exact List.filter_eq_self.mpr fun r listed => by simp [untouched_of_dead keeps.valid dead r listed]
  rw [Ledger.strike, nodes, edges]

theorem strike_edge (keeps : g.Keeps l) {e : EdgeId} (dead : g.edges.contains e = false) :
    l.strike (.deleteEdge e) = l := by
  have edges : l.edges.filter (·.id != e) = l.edges := by
    refine List.filter_eq_self.mpr fun r listed => bne_iff_ne.mpr ?_
    rintro rfl
    rw [← keeps.edges] at listed
    obtain ⟨s, stored, _⟩ := (mem_rows keeps.valid).mp listed
    simp [Table.contains_eq_isSome, stored] at dead
  rw [Ledger.strike, edges]

theorem strike_property (keeps : g.Keeps l) {p : PropertyId} (dead : g.properties.contains p = false) :
    l.strike (.deleteProperty p) = l := by
  have properties : l.properties.filter (·.id != p) = l.properties := by
    refine List.filter_eq_self.mpr fun r listed => bne_iff_ne.mpr ?_
    rintro rfl
    have member : r.id ∈ g.properties.refs := keeps.propertyRefs ▸ List.mem_map_of_mem listed
    simp [keeps.valid.properties.mem_refs.mp member] at dead
  rw [Ledger.strike, properties]

theorem strike (keeps : g.Keeps l) (deletes : q.deletes) : (g.answer q).2.Keeps (l.strike q) := by
  have valid := keeps.valid
  have noted := (answer_effect valid q).keeps keeps
  cases q with
  | deleteNode n =>
    rcases deleteNode_cases valid n with ⟨dead, refused⟩ | ⟨_, h, deleted, _⟩
    · rw [keeps.strike_node dead]
      simpa [answer, outcome, refused] using keeps
    · simpa [answer, outcome, deleted, Except.map, Ledger.note, Ledger.strike] using noted
  | deleteEdge e =>
    rcases deleteEdge_cases valid e with ⟨dead, refused⟩ | ⟨_, h, deleted, _⟩
    · rw [keeps.strike_edge dead]
      simpa [answer, outcome, refused] using keeps
    · simpa [answer, outcome, deleted, Except.map, Ledger.note, Ledger.strike] using noted
  | deleteProperty p =>
    rcases deleteProperty_cases valid p with ⟨dead, refused⟩ | ⟨_, properties, deleted, _⟩
    · rw [keeps.strike_property dead]
      simpa [answer, outcome, refused] using keeps
    · simpa [answer, outcome, deleted, Except.map, Ledger.note, Ledger.strike] using noted
  | _ => cases deletes

theorem after_deletions (keeps : g.Keeps l) {requests : List Request} (deletions : ∀ q ∈ requests, q.deletes) :
    (Session.after answer g requests).Keeps (requests.foldl Ledger.strike l) := by
  induction requests generalizing g l with
  | nil => exact keeps
  | cons q requests ih =>
    exact ih (keeps.strike (deletions q (by simp))) fun q member => deletions q (by simp [member])

end Keeps

theorem after_capacity (valid : g.Valid) (requests : List Request) (kind : Kind) :
    (Session.after answer g requests).capacity kind = g.capacity kind := by
  have step (h : Graph) (q : Request) (before : h.Valid ∧ h.capacity kind = g.capacity kind) :
      (h.answer q).2.Valid ∧ (h.answer q).2.capacity kind = g.capacity kind :=
    ⟨answer_valid h q before.1, ((answer_effect before.1 q).capacity before.1 kind).trans before.2⟩
  exact (Session.after_preserves _ step ⟨valid, rfl⟩ requests).2

theorem Valid.keeps (valid : g.Valid) : g.Keeps ⟨g.nodes.refs, g.rows, g.properties.values⟩ :=
  ⟨valid, rfl, rfl, rfl⟩

/-- Deletions lead to the same answers to all queries in whatever order they are made. -/
theorem deletions_commute (reachable : g.Reachable) {requests permuted : List Request}
    (deletions : ∀ q ∈ requests, q.deletes) (order : requests.Perm permuted) :
    let first := Session.after answer g requests
    let second := Session.after answer g permuted
    first.contents = second.contents ∧ ∀ q, q.changes = false → (first.answer q).1 = (second.answer q).1 := by
  intro first second
  have valid := reachable.valid
  have left : first.Keeps (requests.foldl Ledger.strike _) := valid.keeps.after_deletions deletions
  have right : second.Keeps (permuted.foldl Ledger.strike _) :=
    valid.keeps.after_deletions fun q member => deletions q (order.mem_iff.mpr member)
  rw [← order.foldl_eq] at right
  have capacity (kind : Kind) : first.capacity kind = second.capacity kind := by
    rw [after_capacity valid, after_capacity valid]
  have alike := right.alike left capacity
  exact ⟨alike.contents, fun q => alike.answer⟩

/-- Two nodes, the edge between them twice, and a loop that goes with its node. The edge in the middle stays, and only
the slots that are left tell the two orders apart. -/
theorem deletions_commute_overlap :
    let node (slot generation : Nat) : NodeId := ⟨.ofParts slot generation⟩
    let e (slot : Nat) : EdgeId := ⟨.ofParts slot 1⟩
    let edge (source target : Nat) : Request := .createEdge (node source 1) (node target 1) 0 ⟨0⟩ 0
    let requests := [.createNode, .createNode, .createNode, edge 0 1, edge 1 1, edge 1 2, edge 2 2]
    let deletions := [.deleteNode (node 0 1), .deleteEdge (e 2), .deleteNode (node 2 1), .deleteEdge (e 2),
      .deleteEdge (e 3)]
    ∃ start, create 3 4 1 = .ok start ∧ (∀ q ∈ deletions, q.deletes) ∧ deletions.Perm deletions.reverse ∧
      let g := Session.after answer start requests
      let first := Session.after answer g deletions
      let second := Session.after answer g deletions.reverse
      first.contents = second.contents ∧
        (second.answer (.getNode (node 1 1))).1 = .ok (.node (some ⟨node 1 1, ⟨e 1, e 1⟩, ⟨e 1, e 1⟩⟩)) ∧
        (first.answer .createNode).1 = .ok (.created (.ofParts 2 2)) ∧
        (second.answer .createNode).1 = .ok (.created (.ofParts 0 2)) := by
  intro node e edge requests deletions
  let start := fresh 3 4 1
  let g := Session.after answer start requests
  have deletes : ∀ q ∈ deletions, q.deletes := by simp [deletions, Request.deletes]
  have order : deletions.Perm deletions.reverse := (List.reverse_perm deletions).symm
  obtain ⟨contents, queries⟩ := deletions_commute (g := g) ⟨3, 4, 1, start, requests, rfl, rfl⟩ deletes order
  refine ⟨start, rfl, deletes, order, contents, ?_, by decide +kernel, by decide +kernel⟩
  rw [← queries (.getNode (node 1 1)) rfl]
  decide +kernel

end VectorGraph.Graph
