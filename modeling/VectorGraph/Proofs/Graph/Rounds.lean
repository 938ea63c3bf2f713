import Mathlib.Data.List.Chain
import VectorGraph.Proofs.Graph.Outcomes

/-! How many rounds the loops of a graph take. A walk and the two loops of a deletion follow links that stand in the
records and have no bound of their own. What lets them end is the invariant: a list is threaded through live edges, each
of them once, and a deletion removes one of them in every round. -/
namespace VectorGraph

/-- A loop that goes on for as long as its step leads to another state: the states that its rounds start from, and the
state that it stops in. -/
inductive Trail {σ : Type} (step : σ → Option σ) : σ → List σ → σ → Prop where
  | stop {s : σ} : step s = none → Trail step s [] s
  | round {s t last : σ} {states : List σ} : step s = some t → Trail step t states last →
      Trail step s (s :: states) last

namespace Trail

variable {σ : Type} {step : σ → Option σ} {s last : σ} {states : List σ}

theorem head?_eq (trail : Trail step s states last) : (states ++ [last]).head? = some s := by
  cases trail <;> rfl

/-- What a step does from a proper state, a loop does from each state to the next. -/
theorem chain {Proper : σ → Prop} {R : σ → σ → Prop}
    (does : ∀ s t, Proper s → step s = some t → R s t ∧ Proper t) (trail : Trail step s states last)
    (proper : Proper s) : (states ++ [last]).IsChain R := by
  induction trail with
  | stop _ => exact .singleton _
  | round next rest ih =>
    obtain ⟨related, later⟩ := does _ _ proper next
    apply (ih later).cons
    intro t first
    rw [rest.head?_eq] at first
    exact Option.some.inj first ▸ related

end Trail

namespace Graph

variable {g h : Graph} {n : NodeId} {d : Direction} {e f : EdgeId} {r : Edge} {start : Option EdgeId}
  {l : List EdgeId}

/-- The step of a walk, from a live edge to what its link names. A walk stops where nothing is named, and it would stop
at an edge that is not live. -/
def toNext (g : Graph) (d : Direction) (place : Option EdgeId) : Option (Option EdgeId) :=
  place.bind fun e => (g.edges.get? e).map (·.next d)

/-- No link names an edge that is not live. -/
theorem Valid.next_live (valid : g.Valid) (stored : g.edges.get? e = some r) (names : r.next d = some f) :
    g.edges.contains f := by
  have threads := valid.threads _ (valid.owners e r stored d) d
  obtain ⟨placed, _⟩ := placed_of_within (fun f => threads.live) (valid.links_eq stored d)
  exact placed f (.inr names)

theorem Visits.trail (visits : g.Visits d start l) (valid : g.Valid)
    (live : ∀ e, start = some e → g.edges.contains e) : Trail (g.toNext d) start (l.map some) none := by
  induction visits with
  | done => exact .stop rfl
  | dead missing => simp [Table.contains_eq_isSome, missing] at live
  | step stored _ ih =>
    refine .round ?_ (ih fun f names => valid.next_live stored names)
    simp [toNext, stored]

/-- A walk takes one step for each edge of the list and comes to its end. -/
theorem Valid.walk_trail (valid : g.Valid) (n : NodeId) (d : Direction) :
    Trail (g.toNext d) ((g.nodes.get? n).bind (·.first d)) ((g.incident n d).map some) none := by
  by_cases live : g.nodes.contains n
  · have threads := valid.threads n live d
    rw [first_eq valid live]
    apply (threads.visits_suffix []).trail valid
    intro e first
    exact threads.live (List.mem_of_head? first)
  · rw [Bool.not_eq_true] at live
    have absent : g.nodes.get? n = none := by simpa [Table.contains_eq_isSome] using live
    rw [incident_of_dead valid live, absent]
    exact .stop rfl

/-- A round of a deletion, which removes the first edge of a list. There is none where the list is empty, and there would
be none where that edge cannot be removed. -/
def removeFirst (n : NodeId) (d : Direction) (g : Graph) : Option Graph :=
  ((g.nodes.get? n).bind (·.first d)).bind g.removeEdge?

theorem removeFirst_size (valid : g.Valid) (removed : removeFirst n d g = some h) :
    h.edges.size + 1 = g.edges.size ∧ h.Valid := by
  obtain ⟨e, _, gone⟩ := Option.bind_eq_some_iff.mp removed
  obtain ⟨live, drops⟩ := removeEdge?_cases valid gone
  exact ⟨drops.size valid live, drops.valid⟩

/-- A loop that stops because a list is empty, and that has taken one edge away in each of its rounds. -/
structure Exhausts (n : NodeId) (d : Direction) (g : Graph) (rounds : List Graph) (h : Graph) : Prop where
  trail : Trail (removeFirst n d) g rounds h
  empty : (h.nodes.get? n).bind (·.first d) = none
  fewer : (rounds ++ [h]).IsChain fun before after => after.edges.size + 1 = before.edges.size

theorem Drains.trail {count : Nat} (drains : Drains n d count g h) :
    (h.nodes.get? n).bind (·.first d) = none ∧
      ∃ rounds, rounds.length = count ∧ Trail (removeFirst n d) g rounds h := by
  induction drains with
  | done finished => exact ⟨finished, [], rfl, .stop (by rw [removeFirst, finished, Option.bind_none])⟩
  | round first removed _ ih =>
    obtain ⟨empty, rounds, length, trail⟩ := ih
    refine ⟨empty, _ :: rounds, congrArg (· + 1) length, .round ?_ trail⟩
    rw [removeFirst, first, Option.bind_some, removed]

/-- The bound on a loop is never met, and each of its rounds counts in the number of edges. -/
theorem detach_exhausts (valid : g.Valid) (live : g.nodes.contains n) (d : Direction) :
    ∃ rounds, Exhausts n d g rounds (g.detach n d) ∧
      (g.detach n d).edges.size + rounds.length = g.edges.size := by
  obtain ⟨drains, _⟩ := detach_drains valid live d
  obtain ⟨empty, rounds, length, trail⟩ := drains.trail
  have fewer := trail.chain (fun _ _ valid => removeFirst_size valid) valid
  refine ⟨rounds, ⟨trail, empty, fewer⟩, ?_⟩
  rw [length]
  exact (drains.deletes valid live).size valid

theorem countP_touches_values (g : Graph) (n : NodeId) :
    g.edges.values.countP (·.touches n) = g.rows.countP (·.touches n) := by
  rw [rows_eq_values, List.countP_map]
  rfl

/-- A walk ends after one step for each edge of its list, none of which is dead or comes twice. The loops of a deletion
end after one round for each edge on the node, a self-loop counted once, and not before their lists are empty. -/
theorem rounds_exact (reachable : g.Reachable) :
    (∀ n d, Trail (g.toNext d) ((g.nodes.get? n).bind (·.first d)) ((g.edgesOf n d).map some) none ∧
      (g.edgesOf n d).length ≤ g.edges.size ∧ (g.edgesOf n d).Nodup ∧
      ∀ e ∈ g.edgesOf n d, g.edges.contains e) ∧
      ∀ n, g.nodes.contains n →
        let halved := g.detach n .outgoing
        let emptied := halved.detach n .incoming
        ∃ first second nodes, Exhausts n .outgoing g first halved ∧ Exhausts n .incoming halved second emptied ∧
          first.length + second.length = g.edges.values.countP (·.touches n) ∧
          g.deleteNode n = (.ok (), { emptied with nodes }) := by
  have valid := reachable.valid
  refine ⟨?_, ?_⟩
  · intro n d
    rw [edgesOf_eq valid]
    refine ⟨valid.walk_trail n d, length_incident_le valid n d, valid.edges.nodup_refs.filter _, ?_⟩
    intro e member
    obtain ⟨r, stored, _⟩ := (mem_incident valid.edges).mp member
    exact Table.contains_iff.mpr ⟨r, stored⟩
  · intro n live halved emptied
    obtain ⟨_, outgoing⟩ := detach_drains valid live .outgoing
    have still : halved.nodes.contains n := outgoing.nodes.contains n ▸ live
    obtain ⟨first, leaving, fewer⟩ := detach_exhausts valid live .outgoing
    obtain ⟨second, arriving, least⟩ := detach_exhausts outgoing.valid still .incoming
    obtain ⟨_, drops⟩ := detach_deletes valid live
    have gone := size_of_rows valid drops.valid drops.rows
    refine ⟨first, second, _, leaving, arriving, ?_, by rw [deleteNode, if_pos live]⟩
    rw [countP_touches_values]
    omega

/-- A self-loop, an edge in a slot that was freed and an edge back: three rounds, though the lists have four places. -/
theorem rounds_exact_crossing :
    let a : NodeId := ⟨.ofParts 0 1⟩
    let b : NodeId := ⟨.ofParts 1 1⟩
    let e (slot generation : Nat) : EdgeId := ⟨.ofParts slot generation⟩
    let edge (source target : NodeId) : Request := .createEdge source target 0 ⟨0⟩ 0
    let requests := [.createNode, .createNode, edge a a, edge a b, edge b a, .deleteEdge (e 1 1), edge a b, edge b b]
    ∃ start, create 2 4 1 = .ok start ∧
      let g := Session.after answer start requests
      g.nodes.contains a ∧ g.edges.size = 4 ∧
        Trail (g.toNext .outgoing) (some (e 0 1)) [some (e 0 1), some (e 1 2)] none ∧
        Trail (g.toNext .incoming) (some (e 0 1)) [some (e 0 1), some (e 2 1)] none ∧
        ∃ first second halved emptied nodes, Exhausts a .outgoing g first halved ∧
          Exhausts a .incoming halved second emptied ∧ first.length + second.length = 3 ∧
          g.deleteNode a = (.ok (), { emptied with nodes }) := by
  intro a b e edge requests
  let start := fresh 2 4 1
  let g := Session.after answer start requests
  obtain ⟨walks, deletions⟩ := rounds_exact (g := g) ⟨2, 4, 1, start, requests, rfl, rfl⟩
  have live : g.nodes.contains a := by decide +kernel
  have outgoing : (g.nodes.get? a).bind (·.first .outgoing) = some (e 0 1) ∧
      g.edgesOf a .outgoing = [e 0 1, e 1 2] := by decide +kernel
  have incoming : (g.nodes.get? a).bind (·.first .incoming) = some (e 0 1) ∧
      g.edgesOf a .incoming = [e 0 1, e 2 1] := by decide +kernel
  have leaving := (walks a .outgoing).1
  have arriving := (walks a .incoming).1
  rw [outgoing.1, outgoing.2] at leaving
  rw [incoming.1, incoming.2] at arriving
  obtain ⟨first, second, nodes, halves, empties, rounds, deleted⟩ := deletions a live
  have three : g.edges.values.countP (·.touches a) = 3 := by decide +kernel
  exact ⟨start, rfl, live, by decide +kernel, leaving, arriving, first, second, _, _, nodes, halves, empties,
    rounds.trans three, deleted⟩

end Graph

end VectorGraph
