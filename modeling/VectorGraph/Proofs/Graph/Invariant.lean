import VectorGraph.Proofs.Graph.Threads

/-! The invariant of a graph: its edges run between live nodes, and the list of a node in a direction is
threaded through exactly the edges that it owns there, in the order of their creation. -/
namespace VectorGraph

@[simp] theorem Edge.id_bare (r : Edge) : r.bare.id = r.id := rfl

@[simp] theorem Edge.owner_bare (r : Edge) (d : Direction) : r.bare.owner d = r.owner d := by
  cases d <;> rfl

theorem Edge.owner_of_bare {r s : Edge} (same : r.bare = s.bare) (d : Direction) : r.owner d = s.owner d := by
  rw [← r.owner_bare, same, s.owner_bare]

namespace Graph

/-- The live edges that a node owns in a direction, in creation order. -/
def incident (g : Graph) (n : NodeId) (d : Direction) : List EdgeId :=
  g.edges.refs.filter fun e => (g.edges.get? e).any (·.owner d == n)

/-- The edges in creation order, without their places in lists. -/
def rows (g : Graph) : List Edge := g.edges.rows Edge.bare

structure Valid (g : Graph) : Prop where
  nodes : g.nodes.Valid
  edges : g.edges.Valid
  properties : g.properties.Valid
  nodeIds : g.nodes.Labelled Node.id
  edgeIds : g.edges.Labelled Edge.id
  propertyIds : g.properties.Labelled Property.id
  owners : ∀ e r, g.edges.get? e = some r → ∀ d, g.nodes.contains (r.owner d)
  threads : ∀ n, g.nodes.contains n → ∀ d, g.Threads n d (g.incident n d)

variable {g h : Graph} {n : NodeId} {d : Direction} {e : EdgeId} {r : Edge}

theorem mem_incident (valid : g.edges.Valid) :
    e ∈ g.incident n d ↔ ∃ r, g.edges.get? e = some r ∧ r.owner d = n := by
  simp only [incident, List.mem_filter, valid.mem_refs, Option.any_eq_true, beq_iff_eq]
  constructor
  · exact And.right
  · rintro ⟨r, stored, owner⟩
    exact ⟨Table.contains_iff.mpr ⟨r, stored⟩, r, stored, owner⟩

theorem mem_rows (valid : g.Valid) : r ∈ g.rows ↔ ∃ s, g.edges.get? r.id = some s ∧ s.bare = r := by
  rw [rows, Table.mem_rows valid.edges]
  constructor
  · rintro ⟨e, s, stored, rfl⟩
    obtain rfl := valid.edgeIds e s stored
    exact ⟨s, stored, rfl⟩
  · rintro ⟨s, stored, bare⟩
    exact ⟨r.id, s, stored, bare⟩

theorem map_id_rows (valid : g.Valid) : g.rows.map Edge.id = g.edges.refs :=
  Table.map_rows valid.edges valid.edgeIds

theorem incident_eq_rows (valid : g.Valid) :
    g.incident n d = (g.rows.filter (·.owner d == n)).map Edge.id := by
  have labelled : g.edges.Labelled fun r => r.bare.id := valid.edgeIds
  simpa [incident, rows] using Table.filter_refs labelled (·.owner d == n)

theorem length_incident_le (valid : g.Valid) (n : NodeId) (d : Direction) :
    (g.incident n d).length ≤ g.edges.size := by
  rw [← valid.edges.length_refs, incident]
  exact List.length_filter_le ..

theorem length_rows (valid : g.Valid) : g.rows.length = g.edges.size := by
  rw [← valid.edges.length_refs, ← map_id_rows valid, List.length_map]

theorem rows_eq_values (g : Graph) : g.rows = g.edges.values.map Edge.bare := (List.map_filterMap ..).symm

section

variable {keep : Edge → Bool} (valid : g.Valid) (final : h.Valid) (rows : h.rows = g.rows.filter keep)
include valid final rows

theorem find_of_rows (stored : h.edges.get? e = some r) :
    ∃ s, g.edges.get? e = some s ∧ s.bare = r.bare ∧ keep r.bare := by
  obtain rfl := final.edgeIds e r stored
  have member : r.bare ∈ h.rows := (mem_rows final).mpr ⟨r, stored, rfl⟩
  rw [rows, List.mem_filter] at member
  obtain ⟨s, before, same⟩ := (mem_rows valid).mp member.1
  exact ⟨s, before, same, member.2⟩

theorem contains_of_rows (stored : g.edges.get? e = some r) : h.edges.contains e = keep r.bare := by
  rw [Bool.eq_iff_iff, Table.contains_iff]
  constructor
  · rintro ⟨s, there⟩
    obtain ⟨t, before, same, kept⟩ := find_of_rows valid final rows there
    obtain rfl : t = r := Option.some.inj (before.symm.trans stored)
    rw [same]
    exact kept
  · intro kept
    obtain rfl := valid.edgeIds e r stored
    have member : r.bare ∈ h.rows := by
      rw [rows, List.mem_filter]
      exact ⟨(mem_rows valid).mpr ⟨r, stored, rfl⟩, kept⟩
    obtain ⟨s, there, _⟩ := (mem_rows final).mp member
    exact ⟨s, there⟩

/-- Rows that are left out leave out their handles, wherever the handles stand. -/
theorem handles_of_rows (p : Edge → Bool) :
    (h.rows.filter p).map Edge.id = ((g.rows.filter p).map Edge.id).filter h.edges.contains := by
  rw [rows, List.filter_map, List.filter_filter, List.filter_filter]
  congr 1
  apply List.filter_congr
  intro r member
  obtain ⟨s, stored, rfl⟩ := (mem_rows valid).mp member
  rw [Function.comp_apply, contains_of_rows valid final rows stored, Bool.and_comm]

theorem refs_of_rows : h.edges.refs = g.edges.refs.filter h.edges.contains := by
  rw [← map_id_rows final, ← map_id_rows valid]
  simpa using handles_of_rows valid final rows fun _ => true

theorem incident_of_rows (n : NodeId) (d : Direction) :
    h.incident n d = (g.incident n d).filter h.edges.contains := by
  rw [incident_eq_rows final, incident_eq_rows valid]
  exact handles_of_rows valid final rows _

end

theorem size_of_rows (valid : g.Valid) (final : h.Valid) {gone : Edge → Bool}
    (rows : h.rows = g.rows.filter fun r => !gone r) : h.edges.size + g.rows.countP gone = g.edges.size := by
  rw [← length_rows final, ← length_rows valid, rows, List.countP_eq_length_filter, Nat.add_comm]
  exact (List.length_eq_length_filter_add gone).symm

theorem Valid.get?_node (valid : g.Valid) (live : g.nodes.contains n) : g.nodes.get? n =
    some ⟨n, .of (g.incident n .outgoing), .of (g.incident n .incoming)⟩ := by
  obtain ⟨⟨id, outgoing, incoming⟩, stored⟩ := Table.contains_iff.mp live
  obtain rfl : id = n := valid.nodeIds n _ stored
  obtain rfl : outgoing = _ := (valid.threads id live .outgoing).ends_eq stored
  obtain rfl : incoming = _ := (valid.threads id live .incoming).ends_eq stored
  exact stored

theorem Valid.links_eq (valid : g.Valid) (stored : g.edges.get? e = some r) (d : Direction) :
    r.links d = .within (g.incident (r.owner d) d) e := by
  have member : e ∈ g.incident (r.owner d) d := (mem_incident valid.edges).mpr ⟨r, stored, rfl⟩
  have links := (valid.threads _ (valid.owners e r stored d) d).links e member
  rw [stored] at links
  exact Option.some.inj links

/-- Lists of edges, one for each node and direction, that the records spell out. -/
structure Threaded (g : Graph) (lists : NodeId → Direction → List EdgeId) : Prop where
  threads : ∀ n, g.nodes.contains n → ∀ d, g.Threads n d (lists n d)
  owned : ∀ n d, ∀ e ∈ lists n d, (g.edges.get? e).map (·.owner d) = some n

theorem Valid.threaded (valid : g.Valid) : g.Threaded g.incident := by
  refine ⟨valid.threads, ?_⟩
  intro n d e member
  obtain ⟨r, stored, owner⟩ := (mem_incident valid.edges).mp member
  simp [stored, owner]

theorem Relinks.owner (same : g.Relinks h) (e : EdgeId) (d : Direction) :
    (h.edges.get? e).map (·.owner d) = (g.edges.get? e).map (·.owner d) := by
  have := congrArg (Option.map fun r : Edge => r.owner d) (same.edges.view e)
  simpa [Option.map_map, Function.comp_def] using this

/-- An edge stands on one list of each direction. -/
theorem Threaded.apart {lists : NodeId → Direction → List EdgeId} (threaded : g.Threaded lists) {m n : NodeId}
    (left : e ∈ lists m d) (right : e ∈ lists n d) : m = n :=
  Option.some.inj ((threaded.owned m d e left).symm.trans (threaded.owned n d e right))

theorem placed_of_within {l : List EdgeId} (live : ∀ f ∈ l, g.edges.contains f)
    (links : r.links d = .within l e) : g.Placed r d ∧ ∀ f, r.previous d = some f ∨ r.next d = some f → f ∈ l := by
  have inside : ∀ f, r.previous d = some f ∨ r.next d = some f → f ∈ l := by
    rintro f (before | after)
    · rw [Edge.previous, links] at before
      exact (List.takeWhile_sublist _).subset (List.mem_of_getLast? before)
    · rw [Edge.next, links] at after
      exact (List.dropWhile_sublist _).subset (List.mem_of_mem_tail (List.mem_of_head? after))
  exact ⟨fun f near => live f (inside f near), inside⟩

/-- Cutting an edge out of the list of its owner cuts it out of all lists of the direction. -/
theorem Threaded.unlink {lists : NodeId → Direction → List EdgeId} (threaded : g.Threaded lists)
    (owner : g.nodes.contains (r.owner d)) (member : e ∈ lists (r.owner d) d)
    (links : r.links d = .within (lists (r.owner d) d) e) :
    (g.unlink r d).Threaded fun m other =>
      if other = d then (lists m d).filter (· != e) else lists m other := by
  have same := unlink_relinks g r d
  have own := threaded.threads _ owner d
  obtain ⟨placed, inside⟩ := placed_of_within (fun f => own.live) links
  refine ⟨?_, ?_⟩
  · intro m live other
    rw [same.nodes.contains] at live
    have before := threaded.threads m live other
    by_cases here : other = d ∧ m = r.owner d
    · obtain ⟨rfl, rfl⟩ := here
      obtain ⟨xs, ys, split⟩ := List.append_of_mem member
      rw [split] at own links
      rw [if_pos rfl, split, Links.filter_split own.nodup]
      exact own.unlink rfl (links.trans (Links.within_split (Links.apart_of_nodup own.nodup).1))
    · have elsewhere : (if other = d then (lists m d).filter (· != e) else lists m other) = lists m other := by
        split
        · rename_i direction
          subst direction
          apply List.filter_eq_self.mpr
          intro f listed
          simp only [bne_iff_ne]
          rintro rfl
          exact here ⟨rfl, threaded.apart listed member⟩
        · rfl
      rw [elsewhere]
      apply before.unlink_other placed
      rintro rfl
      have different : m ≠ r.owner other := fun equal => here ⟨rfl, equal⟩
      refine ⟨different, ?_⟩
      intro f listed
      constructor <;> intro near
      · exact different (threaded.apart listed (inside f (.inl near)))
      · exact different (threaded.apart listed (inside f (.inr near)))
  · intro m other f listed
    rw [same.owner]
    split at listed
    · rename_i direction
      subst direction
      exact threaded.owned m other f (List.mem_filter.mp listed).1
    · exact threaded.owned m other f listed

/-- An edge that names the last of its owner's list as its predecessor goes on that list only. -/
theorem Threaded.link {lists : NodeId → Direction → List EdgeId} (threaded : g.Threaded lists)
    (owner : g.nodes.contains n) (fresh : e ∉ lists n d)
    (owned : (g.edges.get? e).map (·.owner d) = some n)
    (links : (g.edges.get? e).map (·.links d) = some ⟨(lists n d).getLast?, none⟩) :
    (g.link e n d (lists n d).getLast?).Threaded fun m other =>
      if other = d ∧ m = n then lists n d ++ [e] else lists m other := by
  have same := link_relinks g e n d (lists n d).getLast?
  have own := threaded.threads n owner d
  have live : ∀ f, (lists n d).getLast? = some f → g.edges.contains f :=
    fun f last => own.live (List.mem_of_getLast? last)
  refine ⟨?_, ?_⟩
  · intro m listed other
    rw [same.nodes.contains] at listed
    by_cases here : other = d ∧ m = n
    · obtain ⟨rfl, rfl⟩ := here
      simpa using own.link fresh links
    · rw [if_neg here]
      apply (threaded.threads m listed other).link_other live
      rintro rfl
      have different : m ≠ n := fun equal => here ⟨rfl, equal⟩
      refine ⟨different, ?_⟩
      intro f listed last
      exact different (threaded.apart listed (List.mem_of_getLast? last))
  · intro m other f listed
    rw [same.owner]
    split at listed
    · rename_i here
      obtain ⟨rfl, rfl⟩ := here
      rcases List.mem_append.mp listed with old | new
      · exact threaded.owned _ _ f old
      · obtain rfl := List.mem_singleton.mp new
        exact owned
    · exact threaded.owned m other f listed

end Graph

end VectorGraph
