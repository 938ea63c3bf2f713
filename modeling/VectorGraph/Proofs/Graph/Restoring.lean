import VectorGraph.Proofs.Graph.Deletions
import VectorGraph.Proofs.Graph.Payloads

/-! Deletions undo creations. An edge is put at the end of both its lists and may be cut out of their middle, once
others have followed it there, and still the records around it come to be what they were. The rows of a graph tell
why: new ones are added at the end, and taken away again they leave the rows, and with them the lists, as they
were. -/
namespace VectorGraph.Graph

variable {g h k : Graph} {n : NodeId} {q : Request} {new : List Edge} {es : List EdgeId}

/-- The graph with more edges, at the end of the creation order. -/
structure Extends (g : Graph) (new : List Edge) (h : Graph) : Prop where
  valid : h.Valid
  nodes : g.nodes.Similar Node.id h.nodes
  rows : h.rows = g.rows ++ new
  capacity : h.edges.capacity = g.edges.capacity
  properties : h.properties = g.properties

theorem Extends.refl (valid : g.Valid) : g.Extends [] g :=
  ⟨valid, .refl _, (List.append_nil _).symm, rfl, rfl⟩

theorem Adds.extends {r : Edge} (adds : g.Adds r h) : g.Extends [r] h :=
  ⟨adds.valid, adds.nodes, adds.rows, adds.capacity, adds.properties⟩

theorem Extends.trans {more : List Edge} (first : g.Extends new h) (second : h.Extends more k) :
    g.Extends (new ++ more) k where
  valid := second.valid
  nodes := first.nodes.trans second.nodes
  rows := by rw [second.rows, first.rows, List.append_assoc]
  capacity := second.capacity.trans first.capacity
  properties := second.properties.trans first.properties

/-- The handles of the edges that a run has created, in the order of their creation. -/
def createdEdges (transcript : List (Request × Except GraphError Reply)) : List EdgeId :=
  transcript.filterMap fun
    | (.createEdge .., .ok (.created e)) => some ⟨e⟩
    | _ => none

theorem Effect.extends {r : Edge} {reply : Except GraphError Reply} (effect : g.Effect q reply h) (valid : g.Valid)
    (asked : q = r.creation) :
    ∃ new, g.Extends new h ∧ new.map Edge.id = createdEdges [(q, reply)] ∧ ∀ s ∈ new, s.creation = q := by
  cases effect with
  | @addsEdge s _ adds => exact ⟨[s], adds.extends, rfl, by simp [Edge.creation]⟩
  | refuses e => exact ⟨[], .refl valid, by simp [createdEdges], by simp⟩
  | tells _ query =>
    subst asked
    cases query
  | _ => cases asked

theorem createdEdges_append (first second : List (Request × Except GraphError Reply)) :
    createdEdges (first ++ second) = createdEdges first ++ createdEdges second := List.filterMap_append

theorem after_creations (valid : g.Valid) (wanted : List Edge) :
    ∃ new, g.Extends new (Session.after answer g (wanted.map Edge.creation)) ∧
      new.map Edge.id = createdEdges (Session.transcript answer g (wanted.map Edge.creation)) ∧
        ∀ s ∈ new, ∃ r ∈ wanted, s.creation = r.creation := by
  induction wanted generalizing g with
  | nil => exact ⟨[], .refl valid, rfl, by simp⟩
  | cons r wanted ih =>
    obtain ⟨first, one, made, asked⟩ := (answer_effect valid r.creation).extends valid rfl
    obtain ⟨rest, all, later, wished⟩ := ih one.valid
    refine ⟨first ++ rest, one.trans all, ?_, ?_⟩
    · rw [List.map_append, made, later, ← createdEdges_append]
      rfl
    · intro s member
      rcases List.mem_append.mp member with old | late
      · exact ⟨r, by simp, asked s old⟩
      · obtain ⟨t, listed, same⟩ := wished s late
        exact ⟨t, by simp [listed], same⟩

theorem deletes_of_live (valid : g.Valid) (nodup : es.Nodup) (live : ∀ e ∈ es, g.edges.contains e) :
    ∃ h, Deletes es g h ∧ g.Drops (fun r => es.contains r.id) h := by
  induction es generalizing g with
  | nil => exact ⟨g, .nil, .refl valid fun _ _ => rfl⟩
  | cons e es ih =>
    obtain ⟨apart, distinct⟩ := List.nodup_cons.mp nodup
    have first : g.edges.contains e := live e (by simp)
    obtain ⟨r, stored⟩ := Table.contains_iff.mp first
    obtain ⟨h, removed, drops⟩ := removeEdge?_drops valid stored
    have still : ∀ f ∈ es, h.edges.contains f := by
      intro f member
      obtain ⟨s, there⟩ := Table.contains_iff.mp (live f (by simp [member]))
      obtain rfl := valid.edgeIds f s there
      rw [contains_of_rows valid drops.valid drops.rows there]
      simp only [Edge.id_bare, Bool.not_eq_true', beq_eq_false_iff_ne]
      exact fun same => apart (same ▸ member)
    obtain ⟨k, deletes, rest⟩ := ih drops.valid distinct still
    exact ⟨k, .cons removed deletes, (drops.trans rest).congr fun s _ => by rw [List.contains_cons]⟩

theorem Valid.alike (valid : g.Valid) (final : k.Valid) (nodes : k.nodes.refs = g.nodes.refs)
    (rows : k.rows = g.rows) (properties : k.properties = g.properties)
    (capacity : ∀ kind, k.capacity kind = g.capacity kind) : g.Alike k :=
  valid.keeps.alike ⟨final, nodes, rows, by rw [properties]⟩ capacity

theorem capacity_of_similar (nodes : g.nodes.Similar Node.id h.nodes) (edges : h.edges.capacity = g.edges.capacity)
    (properties : h.properties = g.properties) (kind : Kind) : h.capacity kind = g.capacity kind := by
  cases kind with
  | node => exact nodes.capacity
  | edge => exact edges
  | property => exact congrArg Table.capacity properties

theorem Extends.refs (grown : g.Extends new h) (valid : g.Valid) :
    h.edges.refs = g.edges.refs ++ new.map Edge.id := by
  rw [← map_id_rows grown.valid, grown.rows, List.map_append, map_id_rows valid]

theorem Extends.fresh (grown : g.Extends new h) (valid : g.Valid) {r : Edge} (old : r ∈ g.rows) :
    r.id ∉ new.map Edge.id := by
  have listed : r.id ∈ g.edges.refs := map_id_rows valid ▸ List.mem_map_of_mem old
  have apart := (List.nodup_append.mp (grown.refs valid ▸ grown.valid.edges.nodup_refs)).2.2
  exact fun added => apart _ listed _ added rfl

/-- Taking away just the edges that were added leaves the old ones in their order. -/
theorem Extends.rows_undone {gone : Edge → Bool} (grown : g.Extends new h) (old : ∀ r ∈ g.rows, gone r = false)
    (added : ∀ r ∈ new, gone r) : (h.rows.filter fun r => !gone r) = g.rows := by
  have stays : (g.rows.filter fun r => !gone r) = g.rows :=
    List.filter_eq_self.mpr fun r member => by simp [old r member]
  have goes : (new.filter fun r => !gone r) = [] :=
    List.filter_eq_nil_iff.mpr fun r member => by simp [added r member]
  rw [grown.rows, List.filter_append, stays, goes, List.append_nil]

/-- A graph that has lost the edges it has gained differs in nothing that a query can tell. -/
theorem Extends.undone {gone : Edge → Bool} (grown : g.Extends new h) (valid : g.Valid) (drops : h.Drops gone k)
    (old : ∀ r ∈ g.rows, gone r = false) (added : ∀ r ∈ new, gone r) : g.Alike k := by
  have nodes := grown.nodes.trans drops.nodes
  have properties : k.properties = g.properties := drops.properties.trans grown.properties
  exact valid.alike drops.valid nodes.refs (drops.rows.trans (grown.rows_undone old added)) properties
    (capacity_of_similar nodes (drops.capacity.trans grown.capacity) properties)

theorem Adds.undone {r : Edge} (adds : g.Adds r h) (valid : g.Valid) :
    ∃ k, h.deleteEdge r.id = (.ok (), k) ∧ g.Alike k := by
  have grown := adds.extends
  have live : h.edges.contains r.id := by
    rw [← grown.valid.edges.mem_refs, grown.refs valid]
    simp
  rcases deleteEdge_cases grown.valid r.id with ⟨dead, _⟩ | ⟨_, k, deleted, drops⟩
  · simp [live] at dead
  · refine ⟨k, deleted, grown.undone valid drops (fun s old => ?_) (by simp)⟩
    simpa using grown.fresh valid old

theorem Extends.deleted (grown : g.Extends new h) (valid : g.Valid) (order : es.Perm (new.map Edge.id)) :
    ∃ k, Deletes es h k ∧ g.Alike k := by
  have refs := grown.refs valid
  have distinct : (new.map Edge.id).Nodup := (List.nodup_append.mp (refs ▸ grown.valid.edges.nodup_refs)).2.1
  have live : ∀ e ∈ es, h.edges.contains e := by
    intro e member
    rw [← grown.valid.edges.mem_refs, refs]
    exact List.mem_append_right _ (order.mem_iff.mp member)
  obtain ⟨k, deletes, drops⟩ := deletes_of_live grown.valid (order.nodup_iff.mpr distinct) live
  refine ⟨k, deletes, grown.undone valid drops ?_ ?_⟩
  · intro r old
    simpa [order.mem_iff] using grown.fresh valid old
  · intro r added
    simpa [order.mem_iff] using ⟨r, added, rfl⟩

/-- A new node takes all edges along that were added at it, and none that were there before it. -/
theorem AddsNode.undone {u : Graph} (adds : g.AddsNode n u) (valid : g.Valid) (grown : u.Extends new h)
    (touching : ∀ r ∈ new, r.touches n) : ∃ k, h.deleteNode n = (.ok (), k) ∧ g.Alike k := by
  have rows : u.rows = g.rows := by rw [Graph.rows, adds.edges, Graph.rows]
  have live : h.nodes.contains n := grown.nodes.contains n ▸ (adds.nodes.contains n).mpr (.inl rfl)
  have others : g.nodes.refs.filter (· != n) = g.nodes.refs :=
    List.filter_eq_self.mpr fun m listed => bne_iff_ne.mpr (Table.ne_of_fresh valid.nodes adds.nodes.fresh listed)
  rcases deleteNode_cases grown.valid n with ⟨gone, _⟩ | ⟨_, k, deleted, drops⟩
  · simp [live] at gone
  · refine ⟨k, deleted, valid.alike drops.valid ?_ ?_ ?_ ?_⟩
    · rw [drops.nodes, grown.nodes.refs, adds.nodes.refs, List.filter_append, others]
      simp
    · rw [drops.rows, grown.rows_undone (rows ▸ untouched_of_dead valid adds.nodes.absent) touching, rows]
    · rw [drops.properties, grown.properties, adds.properties]
    · intro kind
      rw [(Effect.dropsNode live drops).capacity grown.valid,
        capacity_of_similar grown.nodes grown.capacity grown.properties, (Effect.addsNode adds).capacity valid]

/-- Deletions undo creations. An edge that was just created can be deleted again, and so can any number of edges
created in a row, in whatever order they are deleted, and a node with all edges that were created at it. Then every
record is what it was before, with its ends or links, and so are the orders and the counts. Some of the creations may
be refused. -/
theorem deletions_undo_creations (reachable : g.Reachable) :
    (∀ source target label weight timestamp e h, g.createEdge source target label weight timestamp = (.ok e, h) →
      ∃ k, h.deleteEdge e = (.ok (), k) ∧ g.Alike k) ∧
    (∀ (wanted : List Edge) (order : List EdgeId),
      let creations := wanted.map Edge.creation
      let h := Session.after answer g creations
      let removals := order.map Request.deleteEdge
      order.Perm (createdEdges (Session.transcript answer g creations)) →
        Session.transcript answer h removals = removals.map (·, .ok .done) ∧
          g.Alike (Session.after answer h removals)) ∧
    ∀ n u, g.createNode = (.ok n, u) → ∀ wanted : List Edge, (∀ r ∈ wanted, r.touches n) →
      ∃ k, (Session.after answer u (wanted.map Edge.creation)).deleteNode n = (.ok (), k) ∧ g.Alike k := by
  have valid := reachable.valid
  refine ⟨?_, ?_, ?_⟩
  · intro source target label weight timestamp e h made
    exact (adds_of_createEdge valid made).undone valid
  · intro wanted order creations h removals permuted
    obtain ⟨new, grown, made, _⟩ := after_creations valid wanted
    obtain ⟨k, deletes, alike⟩ := grown.deleted valid (made ▸ permuted)
    exact ⟨deletes.transcript_eq, deletes.after_eq.symm ▸ alike⟩
  · intro n u made wanted touching
    have adds := addsNode_of_createNode valid made
    obtain ⟨new, grown, _, asked⟩ := after_creations adds.valid wanted
    refine adds.undone valid grown fun r added => ?_
    obtain ⟨s, listed, same⟩ := asked r added
    simp only [Edge.creation, Request.createEdge.injEq] at same
    simpa [Edge.touches, same.1, same.2.1] using touching s listed

/-- A parallel edge, a loop and an edge back, with a request among them that is refused, are deleted from the middle of
their lists on. So is a single loop, and a node with a loop of its own and edges both ways. -/
theorem deletions_undo_creations_scrambled :
    let node (slot : Nat) : NodeId := ⟨.ofParts slot 1⟩
    let e (slot : Nat) : EdgeId := ⟨.ofParts slot 1⟩
    let edge (source target : Nat) : Edge := ⟨default, node source, node target, 0, ⟨0⟩, 0, {}, {}⟩
    let requests := [.createNode, .createNode, (edge 0 0).creation, (edge 0 1).creation]
    let creations := [edge 0 1, edge 0 0, edge 2 0, edge 1 0].map Edge.creation
    let removals := [e 3, e 4, e 2].map Request.deleteEdge
    ∃ start, create 3 6 1 = .ok start ∧
      let g := Session.after answer start requests
      let h := Session.after answer g creations
      h.edgesOf (node 0) .outgoing = [e 0, e 1, e 2, e 3] ∧ h.edgesOf (node 0) .incoming = [e 0, e 3, e 4] ∧
        Session.transcript answer h removals = removals.map (·, .ok .done) ∧
        (Session.after answer h removals).contents = g.contents ∧
        (∃ u k, g.createEdge (node 1) (node 1) 0 ⟨0⟩ 0 = (.ok (e 2), u) ∧ u.deleteEdge (e 2) = (.ok (), k) ∧
          k.contents = g.contents) ∧
        ∃ u k, g.createNode = (.ok (node 2), u) ∧
          (Session.after answer u ([edge 2 2, edge 0 2, edge 2 1].map Edge.creation)).deleteNode (node 2) =
            (.ok (), k) ∧ k.contents = g.contents := by
  intro node e edge requests creations removals
  let start := fresh 3 6 1
  let g := Session.after answer start requests
  let h := Session.after answer g creations
  obtain ⟨single, batch, withNode⟩ := deletions_undo_creations (g := g) ⟨3, 6, 1, start, requests, rfl, rfl⟩
  have created : createdEdges (Session.transcript answer g creations) = [e 2, e 3, e 4] := by decide +kernel
  obtain ⟨granted, alike⟩ := batch [edge 0 1, edge 0 0, edge 2 0, edge 1 0] [e 3, e 4, e 2] (by
    show [e 3, e 4, e 2].Perm (createdEdges (Session.transcript answer g creations))
    rw [created]
    decide)
  have looped : (g.createEdge (node 1) (node 1) 0 ⟨0⟩ 0).1 = .ok (e 2) := by decide +kernel
  obtain ⟨k, deleted, back⟩ := single _ _ _ _ _ _ _ (Prod.ext looped rfl)
  have made : g.createNode.1 = .ok (node 2) := by decide +kernel
  obtain ⟨l, emptied, again⟩ := withNode _ _ (Prod.ext made rfl) [edge 2 2, edge 0 2, edge 2 1] (by decide)
  exact ⟨start, rfl, by decide +kernel, by decide +kernel, granted, alike.contents,
    ⟨_, k, Prod.ext looped rfl, deleted, back.contents⟩, _, l, Prod.ext made rfl, emptied, again.contents⟩

end VectorGraph.Graph
