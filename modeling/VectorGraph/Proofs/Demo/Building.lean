import VectorGraph.Demo
import VectorGraph.Proofs.Graph.Restoring
import VectorGraph.Proofs.Hybrid.Creation
import VectorGraph.Proofs.Hybrid.InStep
import VectorGraph.Proofs.Hybrid.Resize
import VectorGraph.Proofs.Output

/-! The store of the demonstration is built where there is room for its items and links. With more room than the least
it is built in the same steps, with the same log but for the events that tell the capacities. -/
namespace VectorGraph

namespace HybridStore

variable {s t u : HybridStore} {c : Config} {allocator : Allocator} {n : NodeId} {ns ms : List NodeId} {v : Vec}

theorem ofConfig_eq_ok_iff :
    ofConfig c allocator = .ok s ↔
      Graph.ofConfig c.graph = .ok s.graph ∧ VectorIndex.ofConfig c.vector allocator = .ok s.vectors := by
  constructor
  · exact ofConfig_parts
  · rintro ⟨graph, vectors⟩
    simp [ofConfig, graph, vectors, bind, Except.bind, Except.mapError, pure, Except.pure]

/-- The store with more nodes, each with a vector. -/
structure Stocks (s : HybridStore) (ns : List NodeId) (t : HybridStore) : Prop where
  inStep : t.InStep
  stored : ∀ n ∈ ns, t.vectors.contains n.id
  keeps : ∀ id, s.vectors.contains id → t.vectors.contains id
  nodes : t.graph.nodes.size = s.graph.nodes.size + ns.length
  nodeCapacity : t.graph.nodes.capacity = s.graph.nodes.capacity
  edges : t.graph.edges = s.graph.edges
  properties : t.graph.properties = s.graph.properties
  vectors : t.vectors.size = s.vectors.size + ns.length
  dimension : t.vectors.dimension = s.vectors.dimension
  capacity : t.vectors.capacity = s.vectors.capacity

theorem Stocks.refl (inStep : s.InStep) : s.Stocks [] s :=
  ⟨inStep, by simp, fun _ => id, rfl, rfl, rfl, rfl, rfl, rfl, rfl⟩

theorem Stocks.trans (first : s.Stocks ns t) (second : t.Stocks ms u) : s.Stocks (ns ++ ms) u where
  inStep := second.inStep
  stored := by
    intro n member
    rcases List.mem_append.mp member with early | late
    · exact second.keeps _ (first.stored n early)
    · exact second.stored n late
  keeps id held := second.keeps id (first.keeps id held)
  nodes := by rw [second.nodes, first.nodes, List.length_append, Nat.add_assoc]
  nodeCapacity := second.nodeCapacity.trans first.nodeCapacity
  edges := second.edges.trans first.edges
  properties := second.properties.trans first.properties
  vectors := by rw [second.vectors, first.vectors, List.length_append, Nat.add_assoc]
  dimension := second.dimension.trans first.dimension
  capacity := second.capacity.trans first.capacity

/-- A handle that is new to the graph has no vector, as all vectors have live nodes. -/
theorem InStep.stocks (inStep : s.InStep) (made : s.createNode v = (.ok n, t)) : s.Stocks [n] t := by
  rcases createNode_cases inStep.valid v with ⟨_, _, refused⟩ | ⟨_, _, refused⟩ | ⟨m, h, slot, y, same, _, adds, stores⟩
  · simp [refused] at made
  · simp [refused] at made
  · obtain ⟨rfl, rfl⟩ : m = n ∧ ⟨h, y⟩ = t := by simpa [same] using made
    have vectors := inStep.valid.vectors
    have bare : s.vectors.contains m.id = false := by
      refine Bool.eq_false_iff.mpr fun held => ?_
      have live : s.graph.nodes.contains m := inStep.live m.id held
      simp [adds.nodes.absent] at live
    exact {
      inStep := (Effect.addsNode adds stores).inStep trivial inStep
      stored := by simpa using (stores.contains vectors m.id).mpr (.inl rfl)
      keeps := fun id held => (stores.contains vectors id).mpr (.inr held)
      nodes := adds.nodes.size
      nodeCapacity := adds.nodes.capacity
      edges := adds.edges
      properties := adds.properties
      vectors := by simpa [bare] using stores.size
      dimension := stores.dimension
      capacity := stores.capacity }

theorem createNode_of_room (valid : s.Valid) (fits : v.size = s.vectors.dimension)
    (slots : s.vectors.size < s.vectors.capacity) (nodes : s.graph.nodes.size < s.graph.nodes.capacity) :
    ∃ n t, s.createNode v = (.ok n, t) := by
  have granted : s.creationRefusal? v = none := by
    rw [creationRefusal?, if_neg (not_not_intro fits), if_neg slots.ne, if_neg nodes.ne]
  rcases createNode_decided valid v with ⟨e, refused, _⟩ | ⟨_, n, t, made, _⟩
  · simp [granted] at refused
  · exact ⟨n, t, made⟩

end HybridStore

theorem Graph.Extends.size {g h : Graph} {new : List Edge} (grown : g.Extends new h) (valid : g.Valid) :
    h.edges.size = g.edges.size + new.length := by
  rw [← length_rows grown.valid, grown.rows, List.length_append, length_rows valid]

namespace Demo

variable {s t : HybridStore} {g h : Graph} {c : Config} {allocator : Allocator} {d : Directory} {entries : List Entry}

theorem addItems_cons_iff {item : Item} {items : List Item} : addItems s (item :: items) = ⟨entries, .ok (d, t)⟩ ↔
    ∃ n u rest later, s.createNode item.vector = (.ok n, u) ∧ addItems u items = ⟨later, .ok (rest, t)⟩ ∧
      d = (item.name, n) :: rest ∧ entries = (s.createNodeLog (.ok n, u)).map .event ++ later := by
  simp only [addItems, Run.bind_eq_ok_iff, Run.call_eq_ok_iff, Run.pure_eq_ok_iff, Prod.mk.injEq]
  constructor
  · rintro ⟨_, n, _, ⟨rfl, made⟩, ⟨later, ⟨rest, t'⟩, _, next, ⟨rfl, rfl, rfl⟩, rfl⟩, rfl⟩
    have whole : s.createNode item.vector = (.ok n, (s.createNode item.vector).2) := by rw [← made]
    exact ⟨n, _, rest, later, whole, next, rfl, by rw [← whole, List.append_nil]⟩
  · rintro ⟨n, u, rest, later, made, next, rfl, rfl⟩
    rw [made]
    exact ⟨_, n, later, ⟨rfl, rfl⟩, ⟨later, (rest, t), [], next, ⟨rfl, rfl, rfl⟩, by simp⟩, rfl⟩

theorem addItems_stocks {items : List Item} (inStep : s.InStep) (added : addItems s items = ⟨entries, .ok (d, t)⟩) :
    s.Stocks (d.map (·.2)) t ∧ d.map (·.1) = items.map (·.name) := by
  induction items generalizing s d entries with
  | nil =>
    obtain ⟨_, rfl, rfl⟩ : entries = [] ∧ [] = d ∧ s = t := by simpa [addItems, Run.pure_eq_ok_iff] using added
    exact ⟨.refl inStep, rfl⟩
  | cons item items ih =>
    obtain ⟨n, u, rest, later, made, next, rfl, _⟩ := addItems_cons_iff.mp added
    have first := inStep.stocks made
    obtain ⟨stocks, names⟩ := ih first.inStep next
    exact ⟨first.trans stocks, by simp [names]⟩

theorem addItems_of_room (items : List Item) (inStep : s.InStep)
    (fits : ∀ item ∈ items, item.vector.size = s.vectors.dimension)
    (slots : s.vectors.size + items.length ≤ s.vectors.capacity)
    (nodes : s.graph.nodes.size + items.length ≤ s.graph.nodes.capacity) :
    ∃ entries d t, addItems s items = ⟨entries, .ok (d, t)⟩ := by
  induction items generalizing s with
  | nil => exact ⟨[], [], s, rfl⟩
  | cons item items ih =>
    rw [List.length_cons] at slots nodes
    obtain ⟨n, u, made⟩ :=
      HybridStore.createNode_of_room inStep.valid (fits item List.mem_cons_self) (by omega) (by omega)
    have first := inStep.stocks made
    obtain ⟨later, d, t, next⟩ := ih first.inStep
      (fun other member => (fits other (List.mem_cons_of_mem _ member)).trans first.dimension.symm)
      (by rw [first.vectors, first.capacity, List.length_singleton]; omega)
      (by rw [first.nodes, first.nodeCapacity, List.length_singleton]; omega)
    exact ⟨_, _, t, addItems_cons_iff.mpr ⟨n, u, d, later, made, next, rfl, rfl⟩⟩

theorem addLinks_cons_iff {l : Link} {links : List Link} : addLinks d g (l :: links) = ⟨entries, .ok h⟩ ↔
    ∃ e k later, g.createEdge (d.node l.source) (d.node l.target) linkLabel (.ofFloat l.weight) 0 = (.ok e, k) ∧
      addLinks d k links = ⟨later, .ok h⟩ ∧
        entries = (g.createEdgeLog (d.node l.source) (d.node l.target) (.ok e)).map .event ++ later := by
  simp only [addLinks, Run.bind_eq_ok_iff, Run.call_eq_ok_iff]
  constructor
  · rintro ⟨_, e, later, ⟨rfl, made⟩, next, rfl⟩
    rw [made]
    exact ⟨e, _, later, by rw [← made], next, rfl⟩
  · rintro ⟨e, k, later, made, next, rfl⟩
    rw [made]
    exact ⟨_, e, later, ⟨rfl, rfl⟩, next, rfl⟩

theorem addLinks_extends {links : List Link} (valid : g.Valid) (added : addLinks d g links = ⟨entries, .ok h⟩) :
    ∃ new, g.Extends new h ∧ new.length = links.length := by
  induction links generalizing g entries with
  | nil =>
    obtain ⟨_, rfl⟩ : entries = [] ∧ g = h := by simpa [addLinks, Run.pure_eq_ok_iff] using added
    exact ⟨[], .refl valid, rfl⟩
  | cons l links ih =>
    obtain ⟨e, k, later, made, next, _⟩ := addLinks_cons_iff.mp added
    have first := (Graph.adds_of_createEdge valid made).extends
    obtain ⟨rest, grown, length⟩ := ih first.valid next
    exact ⟨_ :: rest, first.trans grown, by rw [List.length_cons, length, List.length_cons]⟩

theorem addLinks_of_room (links : List Link) (valid : g.Valid)
    (ends : ∀ l ∈ links, g.nodes.contains (d.node l.source) ∧ g.nodes.contains (d.node l.target))
    (room : g.edges.size + links.length ≤ g.edges.capacity) : ∃ entries h, addLinks d g links = ⟨entries, .ok h⟩ := by
  induction links generalizing g with
  | nil => exact ⟨[], g, rfl⟩
  | cons l links ih =>
    rw [List.length_cons] at room
    obtain ⟨source, target⟩ := ends l List.mem_cons_self
    rcases Graph.createEdge_cases valid (d.node l.source) (d.node l.target) linkLabel (.ofFloat l.weight) 0 with
      ⟨dead, _⟩ | ⟨_, dead, _⟩ | ⟨_, _, full, _⟩ | ⟨_, _, e, k, made, adds⟩
    · simp [source] at dead
    · simp [target] at dead
    · omega
    · obtain ⟨later, h, next⟩ := ih adds.valid
        (by
          intro other member
          rw [adds.nodes.contains, adds.nodes.contains]
          exact ends other (List.mem_cons_of_mem _ member))
        (by rw [adds.size valid, adds.capacity]; omega)
      exact ⟨_, h, addLinks_cons_iff.mpr ⟨e, k, later, made, next, rfl⟩⟩

theorem addItems_resize {items : List Item} (inStep : s.InStep) (within : s.Within c)
    (added : addItems s items = ⟨entries, .ok (d, t)⟩) :
    addItems (s.resize c) items = ⟨entries, .ok (d, t.resize c)⟩ ∧ t.Within c := by
  induction items generalizing s d entries with
  | nil =>
    obtain ⟨rfl, rfl, rfl⟩ : entries = [] ∧ [] = d ∧ s = t := by simpa [addItems, Run.pure_eq_ok_iff] using added
    exact ⟨rfl, within⟩
  | cons item items ih =>
    obtain ⟨n, u, rest, later, made, next, rfl, rfl⟩ := addItems_cons_iff.mp added
    have same := HybridStore.createNode_resize (v := item.vector) inStep.valid within (by simp [made])
    have first := inStep.stocks made
    have wide : u.Within c := by
      simpa [HybridStore.answer, made] using HybridStore.answer_within inStep.valid within (.createNode item.vector)
    obtain ⟨again, final⟩ := ih first.inStep wide next
    rw [made] at same
    exact ⟨addItems_cons_iff.mpr ⟨n, u.resize c, rest, later, same, again, rfl, rfl⟩, final⟩

theorem addLinks_resize {links : List Link} {room : Kind → Nat} (valid : g.Valid)
    (more : ∀ kind, g.capacity kind ≤ room kind) (added : addLinks d g links = ⟨entries, .ok h⟩) :
    addLinks d (g.resize room) links = ⟨entries, .ok (h.resize room)⟩ := by
  induction links generalizing g entries with
  | nil =>
    obtain ⟨rfl, rfl⟩ : entries = [] ∧ g = h := by simpa [addLinks, Run.pure_eq_ok_iff] using added
    rfl
  | cons l links ih =>
    obtain ⟨e, k, later, made, next, rfl⟩ := addLinks_cons_iff.mp added
    have same := Graph.createEdge_resize valid more (d.node l.source) (d.node l.target) linkLabel (.ofFloat l.weight) 0
      (by simp [made])
    have adds := Graph.adds_of_createEdge valid made
    have again := ih adds.valid
      (fun kind => (Graph.capacity_of_similar adds.nodes adds.capacity adds.properties kind).trans_le (more kind)) next
    rw [made] at same
    exact addLinks_cons_iff.mpr ⟨e, k.resize room, later, same, again, rfl⟩

/-- There is room for six nodes with their vectors and for four edges, and the tables and the index can be made. -/
structure Suffices (c : Config) (allocator : Allocator) : Prop where
  nodes : 6 ≤ c.graph.nodeCapacity.toNat ∧ c.graph.nodeCapacity.toNat ≤ 2 ^ 32 - 1
  edges : 4 ≤ c.graph.edgeCapacity.toNat ∧ c.graph.edgeCapacity.toNat ≤ 2 ^ 32 - 1
  properties : 1 ≤ c.graph.propertyCapacity.toNat ∧ c.graph.propertyCapacity.toNat ≤ 2 ^ 32 - 1
  slots : 6 ≤ c.vector.capacity.toNat
  vectors : ∃ x, VectorIndex.create 3 c.vector.capacity.toNat allocator = .ok x

def start (c : Config) : HybridStore where
  graph := .fresh c.graph.nodeCapacity.toNat c.graph.edgeCapacity.toNat c.graph.propertyCapacity.toNat
  vectors := .fresh 3 c.vector.capacity.toNat

theorem size_start (c : Config) : (start c).vectors.size = 0 := Std.HashMap.size_empty

theorem capacity_start (c : Config) : (start c).vectors.capacity = c.vector.capacity.toNat := Array.size_replicate

theorem ofConfig_start (enough : Suffices c allocator) : HybridStore.ofConfig (adopted c) allocator = .ok (start c) := by
  obtain ⟨nodes, edges, properties, _, x, made⟩ := enough
  rw [HybridStore.ofConfig_eq_ok_iff]
  constructor
  · exact Graph.create_eq_ok_iff.mpr ⟨by simp only [adopted, UInt32.size]; omega, rfl⟩
  · obtain ⟨_, rfl⟩ := VectorIndex.create_eq_ok_iff.mp made
    exact made

theorem eq_start (created : HybridStore.ofConfig (adopted c) allocator = .ok s) : s = start c := by
  obtain ⟨graph, vectors⟩ := HybridStore.ofConfig_parts created
  obtain ⟨_, graph⟩ := Graph.create_eq_ok_iff.mp graph
  obtain ⟨_, vectors⟩ := VectorIndex.create_eq_ok_iff.mp vectors
  obtain ⟨_, _⟩ := s
  obtain rfl := graph
  obtain rfl := vectors
  rfl

def creation (c : Config) : List Event :=
  [Graph.creationEvent c.graph, VectorIndex.creationEvent (adopted c).vector]

theorem ofConfigLog_of_created (created : HybridStore.ofConfig (adopted c) allocator = .ok s) :
    HybridStore.ofConfigLog (adopted c) allocator = creation c := by
  obtain ⟨graph, vectors⟩ := HybridStore.ofConfig_parts created
  rw [HybridStore.ofConfigLog, graph, vectors]
  rfl

theorem build_eq_ok_iff : build (adopted c) allocator = ⟨entries, .ok (d, s)⟩ ↔ ∃ stock g stored linked,
    HybridStore.ofConfig (adopted c) allocator = .ok (start c) ∧
      addItems (start c) items = ⟨stored, .ok (d, stock)⟩ ∧ addLinks d stock.graph links = ⟨linked, .ok g⟩ ∧
      s = { stock with graph := g } ∧
      entries = (creation c).map .event ++ (stored ++ (linked ++ [.event (readyEvent g)])) := by
  simp only [build, Run.bind_eq_ok_iff, Run.call_eq_ok_iff]
  constructor
  · rintro ⟨_, first, _, ⟨rfl, created⟩, ⟨stored, ⟨d', stock⟩, _, added, ⟨linked, g, _, linking, last, rfl⟩, rfl⟩, rfl⟩
    obtain rfl := eq_start created
    obtain ⟨rfl, rfl, rfl⟩ : [Entry.event (readyEvent g)] = _ ∧ d' = d ∧ { stock with graph := g } = s := by
      simpa [Run.call] using last
    exact ⟨stock, g, stored, linked, created, added, linking, rfl, by rw [ofConfigLog_of_created created]⟩
  · rintro ⟨stock, g, stored, linked, created, added, linking, rfl, rfl⟩
    exact ⟨_, start c, _, ⟨(congrArg _ (ofConfigLog_of_created created)).symm, created⟩,
      ⟨stored, (d, stock), _, added, ⟨linked, g, _, linking, rfl, rfl⟩, rfl⟩, rfl⟩

theorem node_mem {name : String} (named : name ∈ d.map (·.1)) : d.node name ∈ d.map (·.2) := by
  obtain ⟨entry, member, rfl⟩ := List.mem_map.mp named
  obtain ⟨n, found⟩ := Option.isSome_iff_exists.mp (List.lookup_isSome_iff.mpr ⟨entry, member, beq_self_eq_true _⟩)
  obtain ⟨before, after, same, _⟩ := List.lookup_eq_some_iff.mp found
  rw [Directory.node, found, same]
  simp

theorem start_inStep (created : HybridStore.ofConfig (adopted c) allocator = .ok (start c)) : (start c).InStep :=
  HybridStore.ofConfig_inStep created

theorem items_vectors : ∀ item ∈ items, item.vector.size = 3 := by decide

theorem links_names : ∀ l ∈ links, l.source ∈ items.map (·.name) ∧ l.target ∈ items.map (·.name) := by decide

theorem build_of_suffices (enough : Suffices c allocator) :
    ∃ entries d s, build (adopted c) allocator = ⟨entries, .ok (d, s)⟩ := by
  have created := ofConfig_start enough
  have empty := start_inStep created
  obtain ⟨stored, d, stock, added⟩ := addItems_of_room items empty items_vectors
    (by rw [size_start, capacity_start]; exact enough.slots) enough.nodes.1
  obtain ⟨stocks, names⟩ := addItems_stocks empty added
  have live (name : String) (named : name ∈ items.map (·.name)) : stock.graph.nodes.contains (d.node name) :=
    stocks.inStep.live _ (stocks.stored _ (node_mem (names ▸ named)))
  obtain ⟨linked, g, linking⟩ := addLinks_of_room (d := d) links stocks.inStep.valid.graph
    (fun l member => ⟨live _ (links_names l member).1, live _ (links_names l member).2⟩)
    (by rw [stocks.edges]; exact enough.edges.1)
  exact ⟨_, d, _, build_eq_ok_iff.mpr ⟨stock, g, stored, linked, created, added, linking, rfl, rfl⟩⟩

def filled : Kind → Nat
  | .node => 6
  | .edge => 4
  | .property => 0

/-- The store that was built for a configuration, with everything in it. -/
structure Stands (c : Config) (d : Directory) (s : HybridStore) : Prop where
  valid : s.Valid
  stored : ∀ entry ∈ d, s.vectors.contains entry.2.id
  size : ∀ kind, s.graph.size kind = filled kind
  capacity : ∀ kind, s.graph.capacity kind = c.graph.room kind
  vectors : s.vectors.size = 6
  slots : s.vectors.capacity = c.vector.capacity.toNat

theorem stands_of_build (built : build (adopted c) allocator = ⟨entries, .ok (d, s)⟩) : Stands c d s := by
  obtain ⟨stock, g, _, _, created, added, linking, rfl, _⟩ := build_eq_ok_iff.mp built
  obtain ⟨stocks, names⟩ := addItems_stocks (start_inStep created) added
  have before := stocks.inStep.valid.graph
  obtain ⟨new, grown, four⟩ := addLinks_extends before linking
  have length : (d.map (·.2)).length = 6 := by
    rw [List.length_map, ← List.length_map (·.1), names]
    rfl
  exact {
    valid := ⟨grown.valid, stocks.inStep.valid.vectors⟩
    stored := fun entry member => stocks.stored _ (List.mem_map_of_mem member)
    size := by
      intro kind
      cases kind with
      | node => exact grown.nodes.size.trans (stocks.nodes.trans (congrArg (0 + ·) length))
      | edge =>
        refine (grown.size before).trans ?_
        rw [stocks.edges, four]
        rfl
      | property => exact congrArg Table.size (grown.properties.trans stocks.properties)
    capacity := by
      intro kind
      cases kind with
      | node => exact grown.nodes.capacity.trans stocks.nodeCapacity
      | edge => exact grown.capacity.trans (congrArg Table.capacity stocks.edges)
      | property => exact congrArg Table.capacity (grown.properties.trans stocks.properties)
    vectors := by rw [stocks.vectors, length, size_start]
    slots := stocks.capacity.trans (capacity_start c) }

theorem Stands.statistics (stands : Stands c d s) : s.graph.statistics =
    ⟨6, 4, 0, c.graph.nodeCapacity, c.graph.edgeCapacity, c.graph.propertyCapacity⟩ := by
  obtain ⟨_, _, size, capacity, _, _⟩ := stands
  have nodes : s.graph.nodes.size = 6 := size .node
  have edges : s.graph.edges.size = 4 := size .edge
  have properties : s.graph.properties.size = 0 := size .property
  have nodeCapacity : s.graph.nodes.capacity = c.graph.nodeCapacity.toNat := capacity .node
  have edgeCapacity : s.graph.edges.capacity = c.graph.edgeCapacity.toNat := capacity .edge
  have propertyCapacity : s.graph.properties.capacity = c.graph.propertyCapacity.toNat := capacity .property
  simp [Graph.statistics, nodes, edges, properties, nodeCapacity, edgeCapacity, propertyCapacity]

theorem suffices_of_build (built : build (adopted c) allocator = ⟨entries, .ok (d, s)⟩) : Suffices c allocator := by
  obtain ⟨valid, _, size, capacity, vectors, slots⟩ := stands_of_build built
  obtain ⟨_, _, _, _, created, _⟩ := build_eq_ok_iff.mp built
  obtain ⟨graph, index⟩ := HybridStore.ofConfig_parts created
  obtain ⟨⟨⟨_, nodes⟩, ⟨_, edges⟩, one, properties⟩, _⟩ := Graph.create_eq_ok_iff.mp graph
  have room (kind : Kind) : filled kind ≤ c.graph.room kind := by
    rw [← size, ← capacity]
    exact valid.graph.size_le kind
  exact {
    nodes := ⟨room .node, Nat.le_pred_of_lt nodes⟩
    edges := ⟨room .edge, Nat.le_pred_of_lt edges⟩
    properties := ⟨one, Nat.le_pred_of_lt properties⟩
    slots := by
      rw [← vectors, ← slots]
      exact valid.vectors.size_le
    vectors := ⟨_, index⟩ }

/-- The least room that suffices. -/
def least : Config := ⟨⟨6, 4, 1⟩, ⟨3, 6⟩⟩

theorem least_suffices : Suffices least .addressSpace := ⟨by decide, by decide, by decide, by decide, _, rfl⟩

/-- What a store of the least room was built with, whatever else there is room for. -/
theorem build_resize {stock : HybridStore} {stored linked : List Entry} (enough : Suffices c allocator)
    (created : HybridStore.ofConfig (adopted least) .addressSpace = .ok (start least))
    (added : addItems (start least) items = ⟨stored, .ok (d, stock)⟩)
    (linking : addLinks d stock.graph links = ⟨linked, .ok g⟩) :
    build (adopted c) allocator =
      ⟨(creation c).map .event ++ (stored ++ (linked ++ [.event (readyEvent g)])),
        .ok (d, HybridStore.resize { stock with graph := g } c)⟩ := by
  have inStep := start_inStep created
  have within : (start least).Within c := by
    refine ⟨fun kind => ?_, ?_⟩
    · cases kind with
      | node => exact enough.nodes.1
      | edge => exact enough.edges.1
      | property => exact enough.properties.1
    · rw [capacity_start]
      exact enough.slots
  have first : (start least).resize c = start c := by
    have vectors : (start least).vectors.resize c.vector.capacity.toNat = (start c).vectors :=
      VectorIndex.fresh_resize enough.slots
    rw [HybridStore.resize, vectors]
    rfl
  obtain ⟨stocked, wide⟩ := addItems_resize inStep within added
  have relinked := addLinks_resize (addItems_stocks inStep added).1.inStep.valid.graph wide.graph linking
  rw [first] at stocked
  exact build_eq_ok_iff.mpr ⟨stock.resize c, g.resize c.graph.room, stored, linked, ofConfig_start enough, stocked,
    relinked, rfl, rfl⟩

theorem printed_addItems {items : List Item} (added : addItems s items = ⟨entries, .ok (d, t)⟩) :
    printed entries = [] := by
  induction items generalizing s d entries with
  | nil =>
    obtain ⟨rfl, _⟩ : entries = [] ∧ [] = d ∧ s = t := by simpa [addItems, Run.pure_eq_ok_iff] using added
    rfl
  | cons item items ih =>
    obtain ⟨_, _, _, _, _, next, _, rfl⟩ := addItems_cons_iff.mp added
    rw [printed_append, printed_events, ih next, List.nil_append]

theorem printed_addLinks {links : List Link} (added : addLinks d g links = ⟨entries, .ok h⟩) :
    printed entries = [] := by
  induction links generalizing g entries with
  | nil =>
    obtain ⟨rfl, _⟩ : entries = [] ∧ g = h := by simpa [addLinks, Run.pure_eq_ok_iff] using added
    rfl
  | cons l links ih =>
    obtain ⟨_, _, _, _, next, rfl⟩ := addLinks_cons_iff.mp added
    rw [printed_append, printed_events, ih next, List.nil_append]

end Demo

end VectorGraph
