import VectorGraph.Proofs.Graph.Runs

/-! The lists of a graph, as they are read: from the first edge of a node by way of the links, each edge that
the node owns is met once, in the order in which the edges were made. -/
namespace VectorGraph

namespace Graph

variable {g : Graph} {n : NodeId} {d : Direction} {start : Option EdgeId} {l : List EdgeId}

/-- Following links from an edge meets a list of edges and comes to an end, at a dead edge at the latest. -/
inductive Visits (g : Graph) (d : Direction) : Option EdgeId → List EdgeId → Prop where
  | done : Visits g d none []
  | dead {e : EdgeId} : g.edges.get? e = none → Visits g d (some e) []
  | step {e : EdgeId} {r : Edge} {l : List EdgeId} : g.edges.get? e = some r → Visits g d (r.next d) l →
      Visits g d (some e) (e :: l)

/-- Walks along lists read records, and none of their slots. -/
theorem follow_congr {h : Graph} (same : ∀ e, h.edges.get? e = g.edges.get? e) (d : Direction) (count : Nat)
    (first : Option EdgeId) : h.follow d count first = g.follow d count first := by
  induction count generalizing first with
  | zero => rfl
  | succ count ih =>
    cases first with
    | none => rfl
    | some e => simp only [follow, same, ih]

theorem Visits.follow_eq {count : Nat} (visits : g.Visits d start l) (enough : l.length ≤ count) :
    g.follow d count start = l := by
  induction visits generalizing count with
  | done => cases count <;> rfl
  | dead missing => cases count <;> simp [follow, missing]
  | step stored _ ih =>
    cases count with
    | zero => simp at enough
    | succ count =>
      rw [follow, stored]
      simp only [List.length_cons, Nat.add_le_add_iff_right] at enough
      simp [ih enough]

theorem Threads.visits_suffix (xs : List EdgeId) {ys : List EdgeId} (threads : g.Threads n d (xs ++ ys)) :
    g.Visits d ys.head? ys := by
  induction ys generalizing xs with
  | nil => exact .done
  | cons e ys ih =>
    have links := threads.links e (by simp)
    rw [Links.within_split (Links.apart_of_nodup threads.nodup).1] at links
    obtain ⟨r, stored, own⟩ := Option.map_eq_some_iff.mp links
    have next : r.next d = ys.head? := congrArg Links.next own
    refine .step stored ?_
    rw [next]
    exact ih (xs ++ [e]) (by simpa using threads)

theorem incident_of_dead (valid : g.Valid) (dead : g.nodes.contains n = false) (d : Direction) :
    g.incident n d = [] := by
  apply List.eq_nil_iff_forall_not_mem.mpr
  intro e member
  obtain ⟨r, stored, owner⟩ := (mem_incident valid.edges).mp member
  have live := valid.owners e r stored d
  simp [owner, dead] at live

/-- No list is cut short, since none has more edges than the graph. -/
theorem edgesOf_eq (valid : g.Valid) (n : NodeId) (d : Direction) : g.edgesOf n d = g.incident n d := by
  by_cases live : g.nodes.contains n
  · have visits := (valid.threads n live d).visits_suffix []
    rw [edgesOf, first_eq valid live]
    exact visits.follow_eq (length_incident_le valid n d)
  · rw [Bool.not_eq_true] at live
    rw [Table.contains_eq_isSome, Option.isSome_eq_false_iff, Option.isNone_iff_eq_none] at live
    rw [incident_of_dead valid (by simp [Table.contains_eq_isSome, live]), edgesOf, live]
    exact Visits.done.follow_eq (Nat.zero_le _)

/-- A list is read from its first edge to its last by way of the links, and back. -/
structure Lists (g : Graph) (node : Node) (d : Direction) (l : List EdgeId) : Prop where
  visits : g.Visits d (node.first d) l
  first : node.first d = l.head?
  last : node.last d = l.getLast?
  links : ∀ i e, l[i]? = some e → ∃ r, g.edges.get? e = some r ∧ r.next d = l[i + 1]? ∧
    r.previous d = if i = 0 then none else l[i - 1]?

theorem Threads.lists {node : Node} (threads : g.Threads n d l) (stored : g.nodes.get? n = some node) :
    g.Lists node d l := by
  refine ⟨?_, threads.first_eq stored, threads.last_eq stored, ?_⟩
  · rw [threads.first_eq stored]
    exact threads.visits_suffix []
  · intro i e place
    have links := threads.links e (List.mem_of_getElem? place)
    rw [Links.within_getElem threads.nodup place] at links
    obtain ⟨r, found, own⟩ := Option.map_eq_some_iff.mp links
    exact ⟨r, found, congrArg Links.next own, congrArg Links.previous own⟩

/-- Edges run between live nodes, and each list of a live node is made of exactly the edges that the node
owns, oldest first. -/
theorem adjacency_exact (reachable : g.Reachable) :
    (∀ e r, g.edges.get? e = some r → g.nodes.contains r.source ∧ g.nodes.contains r.target) ∧
      ∀ n node, g.nodes.get? n = some node → ∀ d,
        g.Lists node d (g.incident n d) ∧ g.edgesOf n d = g.incident n d := by
  have valid := reachable.valid
  refine ⟨?_, ?_⟩
  · intro e r stored
    exact ⟨valid.owners e r stored .outgoing, valid.owners e r stored .incoming⟩
  · intro n node stored d
    have live : g.nodes.contains n := by simp [Table.contains_eq_isSome, stored]
    exact ⟨(valid.threads n live d).lists stored, edgesOf_eq valid n d⟩

/-- A loop, a pair of parallel edges of which one is deleted, and a loop in its place, which the stale handle
does not delete. -/
theorem adjacency_exact_loops :
    let a : NodeId := ⟨.ofParts 0 1⟩
    let b : NodeId := ⟨.ofParts 1 1⟩
    let e (slot generation : Nat) : EdgeId := ⟨.ofParts slot generation⟩
    let edge (source target : NodeId) : Request := .createEdge source target 0 ⟨0⟩ 0
    let requests := [.createNode, .createNode, edge a a, edge a b, edge a b, .deleteEdge (e 1 1), edge a a,
      .deleteEdge (e 1 1), .deleteNode ⟨.ofParts 0 2⟩]
    ∃ start, create 2 4 1 = .ok start ∧
      let g := Session.after answer start requests
      g.nodes.contains a ∧ g.edgesOf a .outgoing = [e 0 1, e 2 1, e 1 2] ∧
        g.edgesOf a .incoming = [e 0 1, e 1 2] ∧ g.edgesOf b .incoming = [e 2 1] ∧
        g.Visits .incoming (some (e 0 1)) [e 0 1, e 1 2] := by
  intro a b e edge requests
  let start := fresh 2 4 1
  let g := Session.after answer start requests
  obtain ⟨_, lists⟩ := adjacency_exact (g := g) ⟨2, 4, 1, start, requests, rfl, rfl⟩
  have live : g.nodes.contains a ∧ g.nodes.contains b := by decide +kernel
  obtain ⟨from_a, stored⟩ := Option.isSome_iff_exists.mp (Table.contains_eq_isSome .. ▸ live.1)
  obtain ⟨from_b, other⟩ := Option.isSome_iff_exists.mp (Table.contains_eq_isSome .. ▸ live.2)
  have outgoing : g.incident a .outgoing = [e 0 1, e 2 1, e 1 2] := by decide +kernel
  have incoming : g.incident a .incoming = [e 0 1, e 1 2] := by decide +kernel
  have far : g.incident b .incoming = [e 2 1] := by decide +kernel
  obtain ⟨back, read⟩ := lists a from_a stored .incoming
  have visits := back.visits
  rw [back.first, incoming] at visits
  exact ⟨start, rfl, live.1, (lists a from_a stored .outgoing).2.trans outgoing, read.trans incoming,
    (lists b from_b other .incoming).2.trans far, visits⟩

end Graph

end VectorGraph
