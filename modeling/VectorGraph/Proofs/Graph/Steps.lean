import VectorGraph.Proofs.Graph.Invariant

/-! What each change does to a valid graph, told by its rows, and that the graph stays valid. -/
namespace VectorGraph.Graph

variable {g h : Graph} {n : NodeId} {d : Direction} {e : EdgeId} {r : Edge}

theorem any_owner_congr (same : (h.edges.get? e).map (·.owner d) = (g.edges.get? e).map (·.owner d)) :
    (h.edges.get? e).any (·.owner d == n) = (g.edges.get? e).any (·.owner d == n) := by
  have := congrArg (Option.any (· == n)) same
  simpa [Option.any_map, Function.comp_def] using this

theorem incident_filter {keep : EdgeId → Bool} (refs : h.edges.refs = g.edges.refs.filter keep)
    (same : ∀ f ∈ h.edges.refs, (h.edges.get? f).map (·.owner d) = (g.edges.get? f).map (·.owner d)) :
    h.incident n d = (g.incident n d).filter keep := by
  have owners : h.incident n d = h.edges.refs.filter fun f => (g.edges.get? f).any (·.owner d == n) :=
    List.filter_congr fun f listed => any_owner_congr (same f listed)
  rw [owners, refs, incident, List.filter_filter, List.filter_filter]
  simp only [Bool.and_comm]

theorem incident_append (refs : h.edges.refs = g.edges.refs ++ [e])
    (same : ∀ f ∈ g.edges.refs, (h.edges.get? f).map (·.owner d) = (g.edges.get? f).map (·.owner d))
    (new : (h.edges.get? e).map (·.owner d) = some (r.owner d)) :
    h.incident n d = g.incident n d ++ if r.owner d = n then [e] else [] := by
  have old : g.edges.refs.filter (fun f => (h.edges.get? f).any (·.owner d == n)) = g.incident n d :=
    List.filter_congr fun f listed => any_owner_congr (same f listed)
  obtain ⟨s, stored, owner⟩ := Option.map_eq_some_iff.mp new
  rw [incident, refs, List.filter_append, old]
  by_cases here : r.owner d = n <;> simp [stored, owner, here]

/-- The graph that is left when the edges go that `gone` accepts. -/
structure Drops (g : Graph) (gone : Edge → Bool) (h : Graph) : Prop where
  valid : h.Valid
  nodes : g.nodes.Similar Node.id h.nodes
  rows : h.rows = g.rows.filter fun r => !gone r
  capacity : h.edges.capacity = g.edges.capacity
  properties : h.properties = g.properties

theorem Drops.refl (valid : g.Valid) {gone : Edge → Bool} (none_gone : ∀ r ∈ g.rows, gone r = false) :
    g.Drops gone g := by
  refine ⟨valid, .refl _, (List.filter_eq_self.mpr ?_).symm, rfl, rfl⟩
  intro r member
  simp [none_gone r member]

theorem Drops.trans {k : Graph} {first second : Edge → Bool} (left : g.Drops first h)
    (right : h.Drops second k) : g.Drops (fun r => first r || second r) k := by
  refine ⟨right.valid, left.nodes.trans right.nodes, ?_, right.capacity.trans left.capacity,
    right.properties.trans left.properties⟩
  rw [right.rows, left.rows, List.filter_filter]
  simp [Bool.and_comm]

theorem Valid.of_similar (valid : g.Valid) (nodes : g.nodes.Similar Node.id h.nodes) (edges : h.edges.Valid)
    (edgeIds : h.edges.Labelled Edge.id) (properties : h.properties = g.properties)
    (owners : ∀ e r, h.edges.get? e = some r → ∀ d, g.nodes.contains (r.owner d))
    (threads : ∀ n, g.nodes.contains n → ∀ d, h.Threads n d (h.incident n d)) : h.Valid where
  nodes := nodes.ordered _ valid.nodes
  edges := edges
  properties := properties ▸ valid.properties
  nodeIds := by
    intro n r stored
    obtain ⟨s, before, same⟩ := nodes.find stored
    exact same.symm.trans (valid.nodeIds n s before)
  edgeIds := edgeIds
  propertyIds := properties ▸ valid.propertyIds
  owners := by
    intro e r stored d
    rw [nodes.contains]
    exact owners e r stored d
  threads := by
    intro n live
    rw [nodes.contains] at live
    exact threads n live

/-- Both lists of an edge are cut, the incoming one as the edge had it before the first cut. -/
theorem Valid.unlink (valid : g.Valid) (stored : g.edges.get? e = some r) :
    ((g.unlink r .outgoing).unlink r .incoming).Threaded fun m d => (g.incident m d).filter (· != e) := by
  have owner := valid.owners e r stored
  have member (d : Direction) : e ∈ g.incident (r.owner d) d := (mem_incident valid.edges).mpr ⟨r, stored, rfl⟩
  have links := valid.links_eq stored
  have same := unlink_relinks g r .outgoing
  have first := valid.threaded.unlink (owner .outgoing) (member .outgoing) (links .outgoing)
  have second := first.unlink (d := .incoming) (same.nodes.contains _ ▸ owner .incoming)
    (by simpa using member .incoming) (by simpa using links .incoming)
  have lists : (fun m d => (g.incident m d).filter (· != e)) = fun m d => if d = .incoming then
      (if .incoming = Direction.outgoing then (g.incident m .outgoing).filter (· != e)
        else g.incident m .incoming).filter (· != e) else
      if d = .outgoing then (g.incident m .outgoing).filter (· != e) else g.incident m d := by
    funext m d
    cases d <;> simp
  exact lists ▸ second

theorem Valid.release_edge {u : Graph} {edges : Table .edge Edge} (valid : g.Valid) (same : g.Relinks u)
    (threaded : u.Threaded fun m d => (g.incident m d).filter (· != e)) (step : u.edges.Erases e edges) :
    g.Drops (·.id == e) { u with edges } := by
  have refs : edges.refs = g.edges.refs.filter (· != e) := by rw [step.refs, same.edges.refs]
  have found (f : EdgeId) (s : Edge) (there : edges.get? f = some s) :
      ∃ before, g.edges.get? f = some before ∧ before.bare = s.bare := by
    rw [step.get?] at there
    split at there
    · simp at there
    · exact same.edges.find there
  have incident (m : NodeId) (d : Direction) :
      ({ u with edges } : Graph).incident m d = (g.incident m d).filter (· != e) := by
    refine incident_filter (h := { u with edges }) refs ?_
    intro f listed
    rw [← same.owner]
    exact congrArg _ (step.get?_of_mem listed)
  refine ⟨?_, same.nodes, ?_, step.capacity.trans same.edges.capacity, same.properties⟩
  · refine valid.of_similar (h := { u with edges }) same.nodes step.valid ?_ same.properties ?_ ?_
    · intro f s there
      obtain ⟨before, stored, bare⟩ := found f s there
      exact (congrArg Edge.id bare).symm.trans (valid.edgeIds f before stored)
    · intro f s there d
      obtain ⟨before, stored, bare⟩ := found f s there
      rw [Edge.owner_of_bare bare.symm]
      exact valid.owners f before stored d
    · intro m listed d
      rw [incident]
      refine (threaded.threads m (same.nodes.contains m ▸ listed) d).congr rfl ?_
      intro f member
      have other : f ≠ e := by simpa using (List.mem_filter.mp member).2
      exact (step.get? f).trans (if_neg other)
  · have labelled : g.edges.Labelled fun r => r.bare.id := valid.edgeIds
    refine Table.rows_filter labelled refs ?_
    intro f listed
    rw [step.get?_of_mem listed, same.edges.view]

theorem removeEdge?_drops (valid : g.Valid) (stored : g.edges.get? e = some r) :
    ∃ h, g.removeEdge? e = some h ∧ g.Drops (·.id == e) h := by
  have threaded := valid.unlink stored
  have same := (unlink_relinks g r .outgoing).trans (unlink_relinks (g.unlink r .outgoing) r .incoming)
  generalize cut : (g.unlink r .outgoing).unlink r .incoming = u at threaded same
  have live : u.edges.contains e := by
    rw [same.edges.contains]
    exact Table.contains_iff.mpr ⟨r, stored⟩
  cases released : u.edges.release? e with
  | none => simp [Table.release?_eq_none_iff.mp released] at live
  | some edges =>
    have step := Table.release?_erases (same.edges.ordered _ valid.edges) released
    exact ⟨{ u with edges := edges.forget e }, by simp [removeEdge?, releaseEdge?, stored, cut, released],
      valid.release_edge same threaded step⟩

/-- The graph with one more edge, at the end of the creation order. -/
structure Adds (g : Graph) (row : Edge) (h : Graph) : Prop where
  valid : h.Valid
  nodes : g.nodes.Similar Node.id h.nodes
  fresh : g.edges.get? row.id = none
  rows : h.rows = g.rows ++ [row]
  capacity : h.edges.capacity = g.edges.capacity
  properties : h.properties = g.properties

theorem Valid.link {stored : Table .edge Edge} (valid : g.Valid) (step : g.edges.Stores e r stored)
    (owner : ∀ d, g.nodes.contains (r.owner d))
    (links : ∀ d, r.links d = ⟨(g.incident (r.owner d) d).getLast?, none⟩) :
    ((({ g with edges := stored } : Graph).link e r.source .outgoing (r.previous .outgoing)).link
      e r.target .incoming (r.previous .incoming)).Threaded fun m d =>
        g.incident m d ++ if r.owner d = m then [e] else [] := by
  have absent (m : NodeId) (d : Direction) : e ∉ g.incident m d := by
    intro member
    obtain ⟨s, there, _⟩ := (mem_incident valid.edges).mp member
    simp [step.fresh] at there
  have kept (f : EdgeId) (m : NodeId) (d : Direction) (member : f ∈ g.incident m d) :
      stored.get? f = g.edges.get? f := by
    rw [step.get?, if_neg]
    rintro rfl
    exact absent m d member
  have start : ({ g with edges := stored } : Graph).Threaded g.incident := by
    refine ⟨?_, ?_⟩
    · intro m live d
      exact (valid.threads m live d).congr rfl fun f member => kept f m d member
    · intro m d f member
      exact (congrArg _ (kept f m d member)).trans (valid.threaded.owned m d f member)
  have here : stored.get? e = some r := by rw [step.get?, if_pos rfl]
  have previous (d : Direction) : r.previous d = (g.incident (r.owner d) d).getLast? :=
    congrArg Links.previous (links d)
  have first := start.link (n := r.source) (d := .outgoing) (e := e) (owner .outgoing) (absent _ _)
    (congrArg _ here) (by simp [here, links .outgoing, Edge.owner])
  have same := link_relinks ({ g with edges := stored } : Graph) e r.source .outgoing
    (g.incident r.source .outgoing).getLast?
  -- The first link leaves the place of the edge in its other list alone.
  have untouched : (((({ g with edges := stored } : Graph).link e r.source .outgoing
      (g.incident r.source .outgoing).getLast?).edges.get? e).map (·.links .incoming)) =
      some ⟨(g.incident r.target .incoming).getLast?, none⟩ := by
    have own := start.threads r.source (owner .outgoing) .outgoing
    rw [link_links fun f last => own.live (List.mem_of_getLast? last)]
    simp [here, links .incoming, Edge.owner]
  have second := first.link (n := r.target) (d := .incoming) (e := e)
    (same.nodes.contains _ ▸ owner .incoming) (by simpa using absent _ _)
    ((same.owner e .incoming).trans (congrArg _ here)) (by simpa using untouched)
  have lists : (fun m d => g.incident m d ++ if r.owner d = m then [e] else []) = fun m d =>
      if d = .incoming ∧ m = r.target then
        (if Direction.incoming = .outgoing ∧ r.target = r.source then g.incident r.source .outgoing ++ [e]
          else g.incident r.target .incoming) ++ [e]
      else if d = .outgoing ∧ m = r.source then g.incident r.source .outgoing ++ [e] else g.incident m d := by
    funext m d
    cases d <;> simp only [Edge.owner, reduceCtorEq, false_and, true_and, if_false, eq_comm (a := m)] <;>
      split <;> simp_all
  rw [lists, previous, previous]
  simpa [Edge.owner] using second

theorem Valid.record_edge {u : Graph} {stored edges : Table .edge Edge} (valid : g.Valid)
    (step : g.edges.Stores e r stored) (id : r.id = e) (owner : ∀ d, g.nodes.contains (r.owner d))
    (same : ({ g with edges := stored } : Graph).Relinks u)
    (threaded : u.Threaded fun m d => g.incident m d ++ if r.owner d = m then [e] else [])
    (final : edges.Valid) (records : edges.records = u.edges.records)
    (order : edges.order.refs = u.edges.order.refs.push e) : g.Adds r.bare { u with edges } := by
  have here : stored.get? e = some r := by rw [step.get?, if_pos rfl]
  have kept (f : EdgeId) : edges.get? f = u.edges.get? f := congrArg (·.get? f.id) records
  have refs : edges.refs = g.edges.refs ++ [e] := by
    rw [final.refs_eq, order, same.edges.order, step.order, Array.toList_push, valid.edges.refs_eq]
  have old (f : EdgeId) (listed : f ∈ g.edges.refs) : stored.get? f = g.edges.get? f := by
    rw [step.get?, if_neg (Table.ne_of_fresh valid.edges step.fresh listed)]
  have found (f : EdgeId) (s : Edge) (there : edges.get? f = some s) :
      s.bare = r.bare ∧ f = e ∨ ∃ before, g.edges.get? f = some before ∧ before.bare = s.bare := by
    obtain ⟨before, there, bare⟩ := same.edges.find (kept f ▸ there)
    rw [step.get?] at there
    split at there
    · rename_i new
      exact .inl ⟨Option.some.inj there ▸ bare.symm, new⟩
    · exact .inr ⟨before, there, bare⟩
  have incident (m : NodeId) (d : Direction) :
      ({ u with edges } : Graph).incident m d = g.incident m d ++ if r.owner d = m then [e] else [] := by
    refine incident_append (h := { u with edges }) refs ?_ ?_
    · intro f listed
      rw [kept, same.owner, old f listed]
    · rw [kept, same.owner, here]
      rfl
  refine ⟨?_, same.nodes, id ▸ step.fresh, ?_, ?_, same.properties⟩
  · refine valid.of_similar (h := { u with edges }) same.nodes final ?_ same.properties ?_ ?_
    · intro f s there
      rcases found f s there with ⟨bare, rfl⟩ | ⟨before, there, bare⟩
      · exact (congrArg Edge.id bare).trans id
      · exact (congrArg Edge.id bare).symm.trans (valid.edgeIds f before there)
    · intro f s there d
      rcases found f s there with ⟨bare, rfl⟩ | ⟨before, there, bare⟩
      · exact Edge.owner_of_bare bare d ▸ owner d
      · exact Edge.owner_of_bare bare d ▸ valid.owners f before there d
    · intro m listed d
      rw [incident]
      exact (threaded.threads m (same.nodes.contains m ▸ listed) d).congr rfl fun f _ => kept f
  · refine Table.rows_append refs ?_ ?_
    · intro f listed
      rw [kept, same.edges.view, old f listed]
    · rw [kept, same.edges.view, here]
      rfl
  · have capacity : edges.capacity = u.edges.capacity := congrArg Arena.capacity records
    rw [capacity, same.edges.capacity]
    exact step.capacity

theorem Valid.link_adds {stored : Table .edge Edge} (valid : g.Valid) (step : g.edges.Stores e r stored)
    (id : r.id = e) (owner : ∀ d, g.nodes.contains (r.owner d))
    (links : ∀ d, r.links d = ⟨(g.incident (r.owner d) d).getLast?, none⟩) {u : Graph}
    (linked : u = (({ g with edges := stored } : Graph).link e r.source .outgoing (r.previous .outgoing)).link
      e r.target .incoming (r.previous .incoming)) :
    ∃ edges, u.edges.record? e = some edges ∧ g.Adds r.bare { u with edges } := by
  have threaded := linked ▸ valid.link step owner links
  have same : ({ g with edges := stored } : Graph).Relinks u :=
    linked ▸ (link_relinks ..).trans (link_relinks ..)
  obtain ⟨edges, recorded, final, records, order⟩ := step.record? same.edges
  exact ⟨edges, recorded, valid.record_edge step id owner same threaded final records order⟩

theorem createEdge_cases (valid : g.Valid) (source target : NodeId) (label : UInt64) (weight : Binary64)
    (timestamp : UInt64) :
    (g.nodes.contains source = false ∧
      g.createEdge source target label weight timestamp = (.error (.invalidSource source), g)) ∨
    (g.nodes.contains source ∧ g.nodes.contains target = false ∧
      g.createEdge source target label weight timestamp = (.error (.invalidTarget target), g)) ∨
    (g.nodes.contains source ∧ g.nodes.contains target ∧ g.edges.size = g.edges.capacity ∧
      g.createEdge source target label weight timestamp = (.error (.capacityExhausted .edge), g)) ∨
    g.nodes.contains source ∧ g.nodes.contains target ∧ ∃ id h,
      g.createEdge source target label weight timestamp = (.ok id, h) ∧
        g.Adds { id, source, target, label, weight, timestamp } h := by
  unfold createEdge
  simp only [Table.contains_eq_isSome]
  cases from_source : g.nodes.get? source with
  | none => exact .inl ⟨rfl, rfl⟩
  | some s =>
    cases to_target : g.nodes.get? target with
    | none => exact .inr (.inl ⟨rfl, rfl, rfl⟩)
    | some t =>
      dsimp only
      split
      · rename_i full
        exact .inr (.inr (.inl ⟨rfl, rfl, (Table.allocate?_eq_none_iff valid.edges _).mp full, rfl⟩))
      · rename_i id stored allocated
        have step := Table.allocate?_stores valid.edges allocated
        have sources : g.nodes.contains source := Table.contains_iff.mpr ⟨s, from_source⟩
        have targets : g.nodes.contains target := Table.contains_iff.mpr ⟨t, to_target⟩
        obtain ⟨edges, recorded, adds⟩ := valid.link_adds step rfl
          (by
            intro d
            cases d
            · exact sources
            · exact targets)
          (by
            intro d
            cases d
            · simp [Edge.links, Edge.owner, (valid.threads _ sources .outgoing).last_eq from_source]
            · simp [Edge.links, Edge.owner, (valid.threads _ targets .incoming).last_eq to_target])
          rfl
        simp only [Edge.previous, Edge.links] at recorded adds
        simp only [recorded]
        exact .inr (.inr (.inr ⟨rfl, rfl, id, _, rfl, adds⟩))

theorem adds_of_createEdge (valid : g.Valid) {source target : NodeId} {label : UInt64} {weight : Binary64}
    {timestamp : UInt64} (made : g.createEdge source target label weight timestamp = (.ok e, h)) :
    g.Adds { id := e, source, target, label, weight, timestamp } h := by
  rcases createEdge_cases valid source target label weight timestamp with
    ⟨_, refused⟩ | ⟨_, _, refused⟩ | ⟨_, _, _, refused⟩ | ⟨_, _, id, u, same, adds⟩
  · simp [refused] at made
  · simp [refused] at made
  · simp [refused] at made
  · obtain ⟨rfl, rfl⟩ : id = e ∧ u = h := by simpa [same] using made
    exact adds

theorem deleteEdge_cases (valid : g.Valid) (e : EdgeId) :
    (g.edges.contains e = false ∧ g.deleteEdge e = (.error (.edgeNotFound e), g)) ∨
      g.edges.contains e ∧ ∃ h, g.deleteEdge e = (.ok (), h) ∧ g.Drops (·.id == e) h := by
  rw [Table.contains_eq_isSome]
  cases stored : g.edges.get? e with
  | none => exact .inl ⟨rfl, by simp [deleteEdge, removeEdge?, releaseEdge?, stored]⟩
  | some r =>
    obtain ⟨h, removed, drops⟩ := removeEdge?_drops valid stored
    exact .inr ⟨rfl, h, by simp [deleteEdge, removed], drops⟩

/-- The graph with one more node, which has no edges. -/
structure AddsNode (g : Graph) (n : NodeId) (h : Graph) : Prop where
  valid : h.Valid
  nodes : g.nodes.Inserts n { id := n } h.nodes
  edges : h.edges = g.edges
  properties : h.properties = g.properties

theorem createNode_cases (valid : g.Valid) :
    (g.nodes.size = g.nodes.capacity ∧ g.createNode = (.error (.capacityExhausted .node), g)) ∨
      ∃ n h, g.createNode = (.ok n, h) ∧ g.AddsNode n h := by
  unfold createNode
  rcases Table.insert_cases valid.nodes (fun n => { id := n }) with ⟨full, size⟩ | ⟨n, nodes, added, step⟩
  · exact .inl ⟨size, by rw [full]⟩
  · refine .inr ⟨n, { g with nodes }, by rw [added], ?_, step, rfl, rfl⟩
    have before (m : NodeId) (live : g.nodes.contains m) : m ≠ n := by
      rintro rfl
      simp [Table.contains_eq_isSome, step.fresh] at live
    have old (m : NodeId) (live : g.nodes.contains m) : nodes.get? m = g.nodes.get? m := by
      rw [step.get?, if_neg (before m live)]
    refine ⟨step.valid, valid.edges, valid.properties, step.labelled valid.nodeIds rfl, valid.edgeIds,
      valid.propertyIds, ?_, ?_⟩
    · intro e r stored d
      have live := valid.owners e r stored d
      rw [Table.contains_eq_isSome, old _ live, ← Table.contains_eq_isSome]
      exact live
    · intro m live d
      by_cases new : m = n
      · subst new
        have none_owned : g.incident m d = [] := by
          apply List.eq_nil_iff_forall_not_mem.mpr
          intro e member
          obtain ⟨r, stored, owner⟩ := (mem_incident valid.edges).mp member
          exact before _ (valid.owners e r stored d) owner
        show Threads _ m d (g.incident m d)
        rw [none_owned]
        refine ⟨.nil, ?_, by simp⟩
        rw [step.get?, if_pos rfl]
        cases d <;> rfl
      · rw [Table.contains_eq_isSome, step.get?, if_neg new, ← Table.contains_eq_isSome] at live
        exact (valid.threads m live d).congr (old m live) fun _ _ => rfl

theorem addsNode_of_createNode (valid : g.Valid) (made : g.createNode = (.ok n, h)) : g.AddsNode n h := by
  rcases createNode_cases valid with ⟨_, refused⟩ | ⟨m, u, same, adds⟩
  · simp [refused] at made
  · obtain ⟨rfl, rfl⟩ : m = n ∧ u = h := by simpa [same] using made
    exact adds

theorem Valid.with_properties {properties : Table .property Property} (valid : g.Valid)
    (table : properties.Valid) (labelled : properties.Labelled Property.id) :
    ({ g with properties } : Graph).Valid where
  nodes := valid.nodes
  edges := valid.edges
  properties := table
  nodeIds := valid.nodeIds
  edgeIds := valid.edgeIds
  propertyIds := labelled
  owners := valid.owners
  threads := fun n live d => (valid.threads n live d).congr rfl fun _ _ => rfl

theorem createProperty_cases (valid : g.Valid) (owner : Id) (key : UInt64) (value : Binary64) :
    (g.properties.size = g.properties.capacity ∧
      g.createProperty owner key value = (.error (.capacityExhausted .property), g)) ∨
    ∃ p properties, g.createProperty owner key value = (.ok p, { g with properties }) ∧
      g.properties.Inserts p { id := p, owner, key, value } properties ∧
      ({ g with properties } : Graph).Valid := by
  unfold createProperty
  rcases Table.insert_cases valid.properties (fun id => { id, owner, key, value }) with
    ⟨full, size⟩ | ⟨p, properties, added, step⟩
  · exact .inl ⟨size, by rw [full]⟩
  · exact .inr ⟨p, properties, by rw [added], step,
      valid.with_properties step.valid (step.labelled valid.propertyIds rfl)⟩

theorem deleteProperty_cases (valid : g.Valid) (p : PropertyId) :
    (g.properties.contains p = false ∧ g.deleteProperty p = (.error (.propertyNotFound p), g)) ∨
    g.properties.contains p ∧ ∃ properties, g.deleteProperty p = (.ok (), { g with properties }) ∧
      g.properties.Erases p properties ∧ ({ g with properties } : Graph).Valid := by
  unfold deleteProperty
  rcases Table.erase?_cases valid.properties p with ⟨missing, absent⟩ | ⟨properties, erased, live, step⟩
  · exact .inl ⟨absent, by rw [missing]⟩
  · exact .inr ⟨live, properties, by rw [erased], step,
      valid.with_properties step.valid (step.labelled valid.propertyIds)⟩

end VectorGraph.Graph
