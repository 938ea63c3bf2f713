import VectorGraph.Graph
import VectorGraph.Proofs.Graph.Links
import VectorGraph.Proofs.Table

/-! Lists of edges threaded through the records of a graph. Cutting an edge out of one list, or putting one
at its end, leaves every list of another node or of the other direction as it was. -/
namespace VectorGraph

theorem Node.ends_setFirst (n : Node) (d other : Direction) (e : Option EdgeId) :
    (n.setFirst d e).ends other = if other = d then { n.ends other with first := e } else n.ends other := by
  cases d <;> cases other <;> rfl

theorem Node.ends_setLast (n : Node) (d other : Direction) (e : Option EdgeId) :
    (n.setLast d e).ends other = if other = d then { n.ends other with last := e } else n.ends other := by
  cases d <;> cases other <;> rfl

theorem Edge.links_setPrevious (e : Edge) (d other : Direction) (f : Option EdgeId) :
    (e.setPrevious d f).links other = if other = d then { e.links other with previous := f } else e.links other := by
  cases d <;> cases other <;> rfl

theorem Edge.links_setNext (e : Edge) (d other : Direction) (f : Option EdgeId) :
    (e.setNext d f).links other = if other = d then { e.links other with next := f } else e.links other := by
  cases d <;> cases other <;> rfl

@[simp] theorem Node.id_setFirst (n : Node) (d : Direction) (e : Option EdgeId) : (n.setFirst d e).id = n.id := by
  cases d <;> rfl

@[simp] theorem Node.id_setLast (n : Node) (d : Direction) (e : Option EdgeId) : (n.setLast d e).id = n.id := by
  cases d <;> rfl

/-- An edge without its places in lists. -/
def Edge.bare (e : Edge) : Edge := { e with outgoing := {}, incoming := {} }

@[simp] theorem Edge.bare_setPrevious (e : Edge) (d : Direction) (f : Option EdgeId) :
    (e.setPrevious d f).bare = e.bare := by
  cases d <;> rfl

@[simp] theorem Edge.bare_setNext (e : Edge) (d : Direction) (f : Option EdgeId) :
    (e.setNext d f).bare = e.bare := by
  cases d <;> rfl

namespace Graph

/-- A list of edges that the records spell out as the list of a node. -/
structure Threads (g : Graph) (n : NodeId) (d : Direction) (l : List EdgeId) : Prop where
  nodup : l.Nodup
  ends : (g.nodes.get? n).map (·.ends d) = some (.of l)
  links : ∀ e ∈ l, (g.edges.get? e).map (·.links d) = some (.within l e)

theorem Threads.live {g : Graph} {n : NodeId} {d : Direction} {l : List EdgeId} (threads : g.Threads n d l)
    {e : EdgeId} (member : e ∈ l) : g.edges.contains e := by
  have := congrArg Option.isSome (threads.links e member)
  simpa [Table.contains_eq_isSome] using this

theorem Threads.ends_eq {g : Graph} {n : NodeId} {d : Direction} {l : List EdgeId} {node : Node}
    (threads : g.Threads n d l) (stored : g.nodes.get? n = some node) : node.ends d = .of l := by
  have ends := threads.ends
  rw [stored] at ends
  exact Option.some.inj ends

theorem Threads.first_eq {g : Graph} {n : NodeId} {d : Direction} {l : List EdgeId} {node : Node}
    (threads : g.Threads n d l) (stored : g.nodes.get? n = some node) : node.first d = l.head? :=
  congrArg Ends.first (threads.ends_eq stored)

theorem Threads.last_eq {g : Graph} {n : NodeId} {d : Direction} {l : List EdgeId} {node : Node}
    (threads : g.Threads n d l) (stored : g.nodes.get? n = some node) : node.last d = l.getLast? :=
  congrArg Ends.last (threads.ends_eq stored)

/-- Lists are told by the records of their node and their edges. -/
theorem Threads.congr {g h : Graph} {n : NodeId} {d : Direction} {l : List EdgeId} (threads : g.Threads n d l)
    (nodes : h.nodes.get? n = g.nodes.get? n) (edges : ∀ e ∈ l, h.edges.get? e = g.edges.get? e) :
    h.Threads n d l where
  nodup := threads.nodup
  ends := nodes ▸ threads.ends
  links := fun e member => edges e member ▸ threads.links e member

/-- Nothing but ends and links differs. -/
structure Relinks (g h : Graph) : Prop where
  nodes : g.nodes.Similar Node.id h.nodes
  edges : g.edges.Similar Edge.bare h.edges
  properties : h.properties = g.properties

theorem Relinks.trans {g h k : Graph} (first : g.Relinks h) (second : h.Relinks k) : g.Relinks k :=
  ⟨first.nodes.trans second.nodes, first.edges.trans second.edges, second.properties.trans first.properties⟩

variable {g : Graph} {n : NodeId} {d : Direction} {previous next : Option EdgeId}

theorem setNext_relinks (g : Graph) (n : NodeId) (d : Direction) (previous next : Option EdgeId) :
    g.Relinks (g.setNext n d previous next) := by
  unfold setNext
  split
  · exact ⟨.refl _, Table.similar_modify _ _ (by simp), rfl⟩
  · exact ⟨Table.similar_modify _ _ (by simp), .refl _, rfl⟩

theorem setPrevious_relinks (g : Graph) (n : NodeId) (d : Direction) (previous next : Option EdgeId) :
    g.Relinks (g.setPrevious n d previous next) := by
  unfold setPrevious
  split
  · exact ⟨.refl _, Table.similar_modify _ _ (by simp), rfl⟩
  · exact ⟨Table.similar_modify _ _ (by simp), .refl _, rfl⟩

theorem filter_live (live : ∀ e, previous = some e → g.edges.contains e) :
    previous.filter g.edges.contains = previous := by
  cases previous with
  | none => rfl
  | some e => simp [Option.filter, live e rfl]

theorem setLast_ends (nodes : Table .node Node) (last : Option EdgeId) (m : NodeId) (other : Direction) :
    ((nodes.modify n (·.setLast d last)).get? m).map (·.ends other) =
      ((nodes.get? m).map (·.ends other)).map fun k => if other = d ∧ m = n then { k with last } else k := by
  rw [Table.get?_modify]
  by_cases same : m = n <;> simp [same, Node.ends_setLast, Function.comp_def]

theorem setNext_links (live : ∀ e, previous = some e → g.edges.contains e) (f : EdgeId) (other : Direction) :
    ((g.setNext n d previous next).edges.get? f).map (·.links other) =
      ((g.edges.get? f).map (·.links other)).map fun k =>
        if other = d ∧ previous = some f then { k with next } else k := by
  unfold setNext
  rw [filter_live live]
  cases previous with
  | none => simp [Function.comp_def]
  | some e =>
    simp only [Table.get?_modify, Option.some.injEq]
    by_cases same : f = e
    · simp [same, Edge.links_setNext, Function.comp_def]
    · simp [same, Ne.symm same, Function.comp_def]

theorem setNext_ends (live : ∀ e, previous = some e → g.edges.contains e) (m : NodeId) (other : Direction) :
    ((g.setNext n d previous next).nodes.get? m).map (·.ends other) =
      ((g.nodes.get? m).map (·.ends other)).map fun k =>
        if other = d ∧ m = n ∧ previous = none then { k with first := next } else k := by
  unfold setNext
  rw [filter_live live]
  cases previous with
  | none =>
    simp only [Table.get?_modify, and_true]
    by_cases same : m = n
    · simp [same, Node.ends_setFirst, Function.comp_def]
    · simp [same, Function.comp_def]
  | some e => simp [Function.comp_def]

theorem setPrevious_links (live : ∀ e, next = some e → g.edges.contains e) (f : EdgeId) (other : Direction) :
    ((g.setPrevious n d previous next).edges.get? f).map (·.links other) =
      ((g.edges.get? f).map (·.links other)).map fun k =>
        if other = d ∧ next = some f then { k with previous } else k := by
  unfold setPrevious
  rw [filter_live live]
  cases next with
  | none => simp [Function.comp_def]
  | some e =>
    simp only [Table.get?_modify, Option.some.injEq]
    by_cases same : f = e
    · simp [same, Edge.links_setPrevious, Function.comp_def]
    · simp [same, Ne.symm same, Function.comp_def]

theorem setPrevious_ends (live : ∀ e, next = some e → g.edges.contains e) (m : NodeId) (other : Direction) :
    ((g.setPrevious n d previous next).nodes.get? m).map (·.ends other) =
      ((g.nodes.get? m).map (·.ends other)).map fun k =>
        if other = d ∧ m = n ∧ next = none then { k with last := previous } else k := by
  unfold setPrevious
  rw [filter_live live]
  cases next with
  | none => simpa only [and_true] using setLast_ends g.nodes previous m other
  | some e => simp [Function.comp_def]

variable {r : Edge}

theorem unlink_relinks (g : Graph) (r : Edge) (d : Direction) : g.Relinks (g.unlink r d) :=
  (setNext_relinks ..).trans (setPrevious_relinks ..)

/-- The neighbours of an edge in one list are live. -/
def Placed (g : Graph) (r : Edge) (d : Direction) : Prop :=
  ∀ e, r.previous d = some e ∨ r.next d = some e → g.edges.contains e

theorem Placed.next_live (placed : g.Placed r d) (n : NodeId) (previous next : Option EdgeId) (e : EdgeId)
    (follows : r.next d = some e) : (g.setNext n d previous next).edges.contains e := by
  rw [(setNext_relinks g n d previous next).edges.contains]
  exact placed e (.inr follows)

theorem unlink_links (placed : g.Placed r d) (f : EdgeId) (other : Direction) :
    ((g.unlink r d).edges.get? f).map (·.links other) =
      ((g.edges.get? f).map (·.links other)).map fun k => if other = d then
        ⟨if r.next d = some f then r.previous d else k.previous,
          if r.previous d = some f then r.next d else k.next⟩ else k := by
  unfold unlink
  rw [setPrevious_links (placed.next_live _ _ _), setNext_links fun e same => placed e (.inl same), Option.map_map]
  congr 1
  funext k
  by_cases same : other = d
  · simp only [Function.comp_apply, same, true_and, if_true]
    split <;> split <;> rfl
  · simp [same]

theorem unlink_ends (placed : g.Placed r d) (m : NodeId) (other : Direction) :
    ((g.unlink r d).nodes.get? m).map (·.ends other) =
      ((g.nodes.get? m).map (·.ends other)).map fun k => if other = d ∧ m = r.owner d then
        ⟨if r.previous d = none then r.next d else k.first,
          if r.next d = none then r.previous d else k.last⟩ else k := by
  unfold unlink
  rw [setPrevious_ends (placed.next_live _ _ _), setNext_ends fun e same => placed e (.inl same), Option.map_map]
  congr 1
  funext k
  by_cases same : other = d ∧ m = r.owner d
  · simp only [Function.comp_apply, same, true_and, and_self, if_true]
    split <;> split <;> rfl
  · simp [← and_assoc, same]

theorem Threads.unlink {xs ys : List EdgeId} {e : EdgeId} (threads : g.Threads n d (xs ++ e :: ys))
    (owner : r.owner d = n) (links : r.links d = ⟨xs.getLast?, ys.head?⟩) :
    (g.unlink r d).Threads n d (xs ++ ys) := by
  have previous : r.previous d = xs.getLast? := congrArg Links.previous links
  have next : r.next d = ys.head? := congrArg Links.next links
  have placed : g.Placed r d := by
    rintro f (before | after)
    · exact threads.live (List.mem_append_left _ (List.mem_of_getLast? (previous ▸ before)))
    · have := List.mem_of_head? (next ▸ after)
      exact threads.live (by simp [this])
  have nodup : (xs ++ ys).Nodup := by
    have := threads.nodup
    simp only [List.nodup_append, List.nodup_cons, List.mem_cons] at this ⊢
    grind
  refine ⟨nodup, ?_, ?_⟩
  · rw [unlink_ends placed, threads.ends, previous, next]
    subst owner
    simp only [Ends.of, true_and, if_true, Option.map_some]
    rcases List.eq_nil_or_concat xs with rfl | ⟨zs, z, rfl⟩ <;> cases ys <;> simp
  · intro f member
    have stays : f ∈ xs ++ e :: ys := by
      simp only [List.mem_append, List.mem_cons] at member ⊢
      grind
    rw [unlink_links placed, threads.links f stays, previous, next, Links.within_cut threads.nodup member]
    simp

theorem Threads.unlink_other {m : NodeId} {other : Direction} {l : List EdgeId}
    (threads : g.Threads m other l) (placed : g.Placed r d)
    (apart : other = d → m ≠ r.owner d ∧ ∀ e ∈ l, r.previous d ≠ some e ∧ r.next d ≠ some e) :
    (g.unlink r d).Threads m other l := by
  refine ⟨threads.nodup, ?_, ?_⟩
  · rw [unlink_ends placed, threads.ends]
    by_cases same : other = d
    · simp [(apart same).1]
    · simp [same]
  · intro e member
    rw [unlink_links placed, threads.links e member]
    by_cases same : other = d
    · simp [(apart same).2 e member]
    · simp [same]

variable {e : EdgeId} {last : Option EdgeId}

theorem link_relinks (g : Graph) (e : EdgeId) (n : NodeId) (d : Direction) (last : Option EdgeId) :
    g.Relinks (g.link e n d last) :=
  (setNext_relinks g n d last (some e)).trans ⟨Table.similar_modify _ _ (by simp), .refl _, rfl⟩

theorem link_links (live : ∀ f, last = some f → g.edges.contains f) (f : EdgeId) (other : Direction) :
    ((g.link e n d last).edges.get? f).map (·.links other) =
      ((g.edges.get? f).map (·.links other)).map fun k => if other = d ∧ last = some f then
        { k with next := some e } else k :=
  setNext_links live f other

theorem link_ends (live : ∀ f, last = some f → g.edges.contains f) (m : NodeId) (other : Direction) :
    ((g.link e n d last).nodes.get? m).map (·.ends other) =
      ((g.nodes.get? m).map (·.ends other)).map fun k => if other = d ∧ m = n then
        ⟨if last = none then some e else k.first, some e⟩ else k := by
  rw [link, setLast_ends, setNext_ends live, Option.map_map]
  congr 1
  funext k
  by_cases same : other = d ∧ m = n
  · simp only [Function.comp_apply, same, true_and, and_self, if_true]
    split <;> rfl
  · simp [← and_assoc, same]

theorem Threads.link {l : List EdgeId} (threads : g.Threads n d l) (fresh : e ∉ l)
    (links : (g.edges.get? e).map (·.links d) = some ⟨l.getLast?, none⟩) :
    (g.link e n d l.getLast?).Threads n d (l ++ [e]) := by
  have live : ∀ f, l.getLast? = some f → g.edges.contains f :=
    fun f last => threads.live (List.mem_of_getLast? last)
  have nodup : (l ++ [e]).Nodup := by
    rw [List.nodup_append]
    refine ⟨threads.nodup, by simp, ?_⟩
    rintro f member x last rfl
    exact fresh (by simpa using List.mem_singleton.mp last ▸ member)
  refine ⟨nodup, ?_, ?_⟩
  · have final : (l ++ [e]).getLast? = some e := List.getLast?_concat
    rw [link_ends live, threads.ends]
    simp only [Ends.of, final]
    cases l <;> simp
  · intro f member
    rw [link_links live]
    rcases List.mem_append.mp member with old | new
    · rw [threads.links f old, Links.within_append nodup old]
      split <;> simp_all
    · obtain rfl := List.mem_singleton.mp new
      rw [links, Links.within_split fresh]
      simp [getLast?_ne_of_not_mem fresh]

theorem Threads.link_other {m : NodeId} {other : Direction} {l : List EdgeId}
    (threads : g.Threads m other l) (live : ∀ f, last = some f → g.edges.contains f)
    (apart : other = d → m ≠ n ∧ ∀ f ∈ l, last ≠ some f) : (g.link e n d last).Threads m other l := by
  refine ⟨threads.nodup, ?_, ?_⟩
  · rw [link_ends live, threads.ends]
    by_cases same : other = d
    · simp [(apart same).1]
    · simp [same]
  · intro f member
    rw [link_links live, threads.links f member]
    by_cases same : other = d
    · simp [(apart same).2 f member]
    · simp [same]

end Graph

end VectorGraph
