import VectorGraph.Proofs.Graph.Ledger
import VectorGraph.Proofs.Graph.Outcomes

/-! A ledger tells all answers to queries. The ends of a node and the links of an edge are spelled out by the order
in which the edges were made, so graphs that keep one ledger differ in nothing but the slots of their records. -/
namespace VectorGraph

namespace Table

variable {kind : Kind} {α β : Type} {view : α → β} {t u : Table kind α}

theorem find?_rows (valid : t.Valid) {label : β → Ref kind} (labelled : t.Labelled fun r => label (view r))
    (ref : Ref kind) : (t.rows view).find? (label · == ref) = (t.get? ref).map view := by
  cases found : (t.rows view).find? (label · == ref) with
  | none =>
    cases stored : t.get? ref with
    | none => rfl
    | some r =>
      have listed : view r ∈ t.rows view := (mem_rows valid).mpr ⟨ref, r, stored, rfl⟩
      have other := List.find?_eq_none.mp found _ listed
      simp [labelled ref r stored] at other
  | some b =>
    have own : label b = ref := by simpa using List.find?_some found
    obtain ⟨other, r, stored, rfl⟩ := (mem_rows valid).mp (List.mem_of_find?_eq_some found)
    obtain rfl : other = ref := (labelled other r stored).symm.trans own
    rw [stored, Option.map_some]

/-- The records are the same, and so is their order. Their slots may differ. -/
structure Alike (t u : Table kind α) : Prop where
  get? : u.get? = t.get?
  refs : u.refs = t.refs
  size : u.size = t.size
  capacity : u.capacity = t.capacity
  walk : ∀ count, u.walk 0 count = t.walk 0 count

theorem Alike.contains (alike : t.Alike u) : u.contains = t.contains := by
  funext ref
  rw [contains_eq_isSome, contains_eq_isSome, alike.get?]

theorem Alike.values (alike : t.Alike u) : u.values = t.values := by
  rw [Table.values, Table.values, alike.refs, alike.get?]

theorem Ordered.alike (left : t.Valid) (right : u.Valid) (get? : ∀ ref, u.get? ref = t.get? ref)
    (refs : u.refs = t.refs) (capacity : u.capacity = t.capacity) : t.Alike u where
  get? := funext get?
  refs := refs
  size := by rw [← right.length_refs, ← left.length_refs, refs]
  capacity := capacity
  walk := by
    intro count
    rw [walk_eq right, walk_eq left, refs]

end Table

namespace Graph

variable {g h : Graph} {l : Ledger} {n : NodeId} {d : Direction} {e : EdgeId} {r : Edge}

namespace Ledger

def incident (l : Ledger) (n : NodeId) (d : Direction) : List EdgeId :=
  (l.edges.filter (·.owner d == n)).map Edge.id

def node? (l : Ledger) (n : NodeId) : Option Node :=
  if n ∈ l.nodes then some ⟨n, .of (l.incident n .outgoing), .of (l.incident n .incoming)⟩ else none

/-- An edge with its places in the lists of its two ends. -/
def edge? (l : Ledger) (e : EdgeId) : Option Edge :=
  (l.edges.find? (·.id == e)).map fun r => { r with
    outgoing := .within (l.incident r.source .outgoing) e
    incoming := .within (l.incident r.target .incoming) e }

def property? (l : Ledger) (p : PropertyId) : Option Property := l.properties.find? (·.id == p)

end Ledger

namespace Keeps

theorem incident (keeps : g.Keeps l) (n : NodeId) (d : Direction) : g.incident n d = l.incident n d := by
  rw [incident_eq_rows keeps.valid, keeps.edges, Ledger.incident]

theorem edgeRefs (keeps : g.Keeps l) : g.edges.refs = l.edges.map Edge.id := by
  rw [← map_id_rows keeps.valid, keeps.edges]

theorem propertyRefs (keeps : g.Keeps l) : g.properties.refs = l.properties.map Property.id := by
  have labelled : g.properties.Labelled fun r => (id r).id := keeps.valid.propertyIds
  rw [← Table.map_rows keeps.valid.properties labelled, ← Table.values_eq_rows, keeps.properties]

theorem node? (keeps : g.Keeps l) (n : NodeId) : g.nodes.get? n = l.node? n := by
  have live : n ∈ l.nodes ↔ g.nodes.contains n := by rw [← keeps.nodes, keeps.valid.nodes.mem_refs]
  rw [Ledger.node?]
  split
  · rename_i listed
    rw [keeps.valid.get?_node (live.mp listed), keeps.incident, keeps.incident]
  · rename_i absent
    simpa [Table.contains_eq_isSome, live] using absent

theorem edge? (keeps : g.Keeps l) (e : EdgeId) : g.edges.get? e = l.edge? e := by
  have labelled : g.edges.Labelled fun r => r.bare.id := keeps.valid.edgeIds
  rw [Ledger.edge?, ← keeps.edges, rows, Table.find?_rows keeps.valid.edges labelled, Option.map_map]
  cases stored : g.edges.get? e with
  | none => rfl
  | some r =>
    have outgoing : r.outgoing = _ := keeps.valid.links_eq stored .outgoing
    have incoming : r.incoming = _ := keeps.valid.links_eq stored .incoming
    rw [keeps.incident] at outgoing incoming
    exact congrArg some (congrArg₂ (fun first second => { r with outgoing := first, incoming := second })
      outgoing incoming)

theorem property? (keeps : g.Keeps l) (p : PropertyId) : g.properties.get? p = l.property? p := by
  have labelled : g.properties.Labelled fun r => (id r).id := keeps.valid.propertyIds
  have found := Table.find?_rows keeps.valid.properties labelled p
  rw [← Table.values_eq_rows, keeps.properties, Option.map_id] at found
  exact found.symm

end Keeps

/-- Nothing but the slots of records and their generations differs. -/
structure Alike (g h : Graph) : Prop where
  nodes : g.nodes.Alike h.nodes
  edges : g.edges.Alike h.edges
  properties : g.properties.Alike h.properties

theorem Keeps.alike (left : g.Keeps l) (right : h.Keeps l)
    (capacity : ∀ kind, h.capacity kind = g.capacity kind) : g.Alike h where
  nodes := left.valid.nodes.alike right.valid.nodes (fun n => (right.node? n).trans (left.node? n).symm)
    (right.nodes.trans left.nodes.symm) (capacity .node)
  edges := left.valid.edges.alike right.valid.edges (fun e => (right.edge? e).trans (left.edge? e).symm)
    (right.edgeRefs.trans left.edgeRefs.symm) (capacity .edge)
  properties := left.valid.properties.alike right.valid.properties
    (fun p => (right.property? p).trans (left.property? p).symm) (right.propertyRefs.trans left.propertyRefs.symm)
    (capacity .property)

theorem Alike.edgesOf (alike : g.Alike h) : h.edgesOf = g.edgesOf := by
  funext n d
  rw [Graph.edgesOf, Graph.edgesOf, follow_congr (congrFun alike.edges.get?), alike.edges.size, alike.nodes.get?]

theorem Alike.statistics (alike : g.Alike h) : h.statistics = g.statistics := by
  simp only [Graph.statistics, alike.nodes.size, alike.edges.size, alike.properties.size, alike.nodes.capacity,
    alike.edges.capacity, alike.properties.capacity]

theorem Alike.contents (alike : g.Alike h) : h.contents = g.contents := by
  rw [Graph.contents, Graph.contents, alike.statistics, alike.nodes.values, alike.edgesOf, alike.edges.values,
    alike.properties.values]

theorem Alike.answer (alike : g.Alike h) {q : Request} (query : q.changes = false) :
    (h.answer q).1 = (g.answer q).1 := by
  have edgesOf := alike.edgesOf
  cases q with
  | walk kind count =>
    cases kind <;> simp only [Graph.answer, alike.nodes.walk, alike.edges.walk, alike.properties.walk]
  | createNode | deleteNode | createEdge | deleteEdge | createProperty | deleteProperty => cases query
  | _ =>
    simp only [Graph.answer, alike.nodes.contains, alike.nodes.get?, alike.nodes.refs, alike.nodes.size,
      alike.edges.contains, alike.edges.get?, alike.edges.refs, alike.edges.size, alike.properties.contains,
      alike.properties.get?, alike.properties.refs, alike.properties.size, edgesOf, neighbors, edgesBetween, degree,
      propertiesOf, alike.statistics, alike.contents]

end Graph

end VectorGraph
