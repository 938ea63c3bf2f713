import VectorGraph.Proofs.Graph.Cascade
import VectorGraph.Proofs.Hybrid.Resize
import VectorGraph.Proofs.Vector.Nearest

/-! Similar nodes. A search asks for one neighbour more than is wanted and leaves the node itself out, wherever
among its neighbours it stands. What is left are the nearest of all other vectors, and an edge joins one of them
with the node where it is said to. -/
namespace VectorGraph

/-- One element more is taken than is wanted, of which at most one is left out. -/
theorem take_filter_take {α : Type} {keep : α → Bool} {l : List α}
    (few : l.Pairwise fun a b => keep a ∨ keep b) (k : Nat) :
    ((l.take (k + 1)).filter keep).take k = (l.filter keep).take k := by
  induction l generalizing k with
  | nil => simp
  | cons a l ih =>
    obtain ⟨others, few⟩ := List.pairwise_cons.mp few
    rw [List.take_succ_cons]
    by_cases kept : keep a
    · cases k with
      | zero => simp
      | succ k => simp [kept, ih few]
    · have all : ∀ b ∈ l, keep b := fun b member => (others b member).resolve_left kept
      have front : (l.take k).filter keep = l.take k :=
        List.filter_eq_self.mpr fun b member => all b (List.mem_of_mem_take member)
      simp [kept, front, List.filter_eq_self.mpr all]

namespace Graph

variable {g : Graph} {a b : NodeId}

/-- A live edge runs between two nodes, in either direction. -/
def Joins (g : Graph) (a b : NodeId) : Prop :=
  ∃ e r, g.edges.get? e = some r ∧ (r.source = a ∧ r.target = b ∨ r.source = b ∧ r.target = a)

theorem mem_edgesBetween (valid : g.Valid) {e : EdgeId} :
    e ∈ g.edgesBetween a b ↔ ∃ r, g.edges.get? e = some r ∧ r.source = a ∧ r.target = b := by
  rw [edgesBetween, edgesOf_eq valid, List.mem_filter, mem_incident valid.edges, Option.any_eq_true]
  constructor
  · rintro ⟨⟨r, stored, owner⟩, s, same, target⟩
    obtain rfl : r = s := Option.some.inj (stored.symm.trans same)
    exact ⟨r, stored, owner, by simpa using target⟩
  · rintro ⟨r, stored, source, target⟩
    exact ⟨⟨r, stored, source⟩, r, stored, by simpa using target⟩

end Graph

namespace HybridStore

variable {s : HybridStore} {n : NodeId} {query : Vec}

theorem connected_iff (valid : s.Valid) (a b : NodeId) : s.connected a b ↔ s.graph.Joins a b := by
  have some_edge (a b : NodeId) : (s.graph.edgesBetween a b).isEmpty = false ↔
      ∃ e r, s.graph.edges.get? e = some r ∧ r.source = a ∧ r.target = b := by
    rw [List.isEmpty_eq_false_iff_exists_mem]
    exact exists_congr fun e => Graph.mem_edgesBetween valid.graph
  rw [connected, Bool.or_eq_true, Bool.not_eq_true', Bool.not_eq_true', some_edge, some_edge]
  constructor
  · rintro (⟨e, r, stored, ends⟩ | ⟨e, r, stored, ends⟩)
    · exact ⟨e, r, stored, .inl ends⟩
    · exact ⟨e, r, stored, .inr ends⟩
  · rintro ⟨e, r, stored, ends | ends⟩
    · exact .inl ⟨e, r, stored, ends⟩
    · exact .inr ⟨e, r, stored, ends⟩

/-- All nodes with a vector but one, with their distances from that node's vector, each once and in strict order. -/
structure RanksOthers (s : HybridStore) (n : NodeId) (query : Vec) (others : List SimilarNode) : Prop where
  sorted : others.Pairwise fun a b => Neighbor.Before ⟨a.id.id, a.distance⟩ ⟨b.id.id, b.distance⟩
  distinct : (others.map SimilarNode.id).Nodup
  length : others.length + 1 = s.vectors.size
  members : ∀ h, h ∈ others ↔ h.id ≠ n ∧
    (∃ v, s.vectors.get? h.id.id = some v ∧ h.distance = squaredL2 v query) ∧
      (h.connected ↔ s.graph.Joins n h.id)

/-- The neighbours of a node's own vector, told as nodes. -/
def others (s : HybridStore) (n : NodeId) (query : Vec) : List SimilarNode :=
  ((s.vectors.ranking query).filter (·.id != n.id)).map fun hit =>
    ⟨⟨hit.id⟩, hit.distance, s.connected n ⟨hit.id⟩⟩

theorem similarNodes_eq (valid : s.Valid) (stored : s.vectors.get? n.id = some query) (k : Nat) :
    s.similarNodes n k = .ok ((s.others n query).take k) := by
  have apart := List.pairwise_map.mp (valid.vectors.ranks query).distinct
  have few : (s.vectors.ranking query).Pairwise fun a b => a.id != n.id ∨ b.id != n.id := by
    refine apart.imp fun {a b} different => ?_
    by_contra both
    simp only [bne_iff_ne, not_or, not_not] at both
    exact different (both.1.trans both.2.symm)
  simp only [similarNodes, stored, VectorIndex.nearest_eq (valid.vectors.size_get? stored), take_filter_take few,
    others, List.map_take]

theorem others_ranks (valid : s.Valid) (stored : s.vectors.get? n.id = some query) :
    s.RanksOthers n query (s.others n query) := by
  have ranks := valid.vectors.ranks query
  have mem : ∀ hit, hit ∈ s.vectors.ranking query ∧ hit.id ≠ n.id ↔
      hit ∈ (s.vectors.ranking query).filter (·.id != n.id) := by simp
  refine ⟨?_, ?_, ?_, ?_⟩
  · rw [others, List.pairwise_map]
    exact ranks.sorted.filter _
  · rw [others, List.map_map]
    refine List.Nodup.of_map Ref.id ?_
    rw [List.map_map]
    exact ranks.distinct.sublist ((List.filter_sublist ..).map _)
  · have own : n.id ∈ (s.vectors.ranking query).map Neighbor.id :=
      List.mem_map.mpr ⟨⟨n.id, squaredL2 query query⟩, (ranks.members _).mpr ⟨query, stored, rfl⟩, rfl⟩
    have kept : ((s.vectors.ranking query).filter (·.id != n.id)).map Neighbor.id =
        ((s.vectors.ranking query).map Neighbor.id).erase n.id := by
      rw [ranks.distinct.erase_eq_filter, List.filter_map]
      rfl
    have fewer := congrArg List.length kept
    rw [List.length_map, List.length_erase_of_mem own, List.length_map, ranks.length] at fewer
    have some_vector := List.length_pos_of_mem own
    rw [List.length_map, ranks.length] at some_vector
    rw [others, List.length_map, fewer]
    omega
  · obtain ⟨own⟩ := n
    rintro ⟨⟨id⟩, distance, flag⟩
    simp only [others, List.mem_map, ← mem, ranks.members, SimilarNode.mk.injEq, Ref.mk.injEq, ne_eq]
    constructor
    · rintro ⟨⟨_, _⟩, ⟨⟨v, here, rfl⟩, other⟩, rfl, rfl, rfl⟩
      exact ⟨other, ⟨v, here, rfl⟩, connected_iff valid ..⟩
    · rintro ⟨other, ⟨v, here, rfl⟩, flag⟩
      exact ⟨⟨id, squaredL2 v query⟩, ⟨⟨v, here, rfl⟩, other⟩, rfl, rfl,
        Bool.eq_iff_iff.mpr ((connected_iff valid ..).trans flag.symm)⟩

theorem RanksOthers.unique {left right : List SimilarNode} (first : s.RanksOthers n query left)
    (second : s.RanksOthers n query right) : left = right := by
  refine List.Perm.eq_of_pairwise (fun a b _ _ before after => absurd after before.asymm)
    first.sorted second.sorted ?_
  refine (List.perm_ext_iff_of_nodup (.of_map _ first.distinct) (.of_map _ second.distinct)).mpr fun h => ?_
  rw [first.members, second.members]

theorem Reachable.size_lt (reachable : s.Reachable) : s.vectors.size < 2 ^ 64 := by
  have valid := reachable.valid
  obtain ⟨graph, vectors, requests, g, ⟨dimension, capacity, _, start, earlier, created, rfl⟩, rfl⟩ := reachable
  obtain ⟨⟨wide, _, product, _⟩, _⟩ := VectorIndex.create_eq_ok_iff.mp created
  obtain ⟨x, _, room⟩ := VectorIndex.after_shape created earlier
  have step (t : HybridStore) (q : Request) (fits : t.Valid ∧ t.vectors.capacity = capacity) :
      (t.answer q).2.Valid ∧ (t.answer q).2.vectors.capacity = capacity :=
    ⟨answer_valid t q fits.1, ((answer_effect fits.1 q).capacity fits.1).2.trans fits.2⟩
  have kept := Session.after_preserves _ step (s := ⟨graph, _⟩) ⟨⟨g.valid, x⟩, room⟩ requests
  calc
    _ ≤ capacity := kept.2 ▸ valid.vectors.size_le
    _ ≤ capacity * dimension := Nat.le_mul_of_pos_right capacity wide
    _ < 2 ^ 64 := product

/-- No index holds as many vectors as the largest word, so it makes no difference that no more can be asked for. -/
theorem nearest_saturated (reachable : s.Reachable) (query : Vec) (k : Nat) :
    s.vectors.nearest query (min (k + 1) (2 ^ 64 - 1)) = s.vectors.nearest query (k + 1) := by
  by_cases fits : query.size = s.vectors.dimension
  · have small := reachable.size_lt
    have all := (reachable.valid.vectors.ranks query).length
    rw [VectorIndex.nearest_eq fits, VectorIndex.nearest_eq fits, Except.ok.injEq, List.take_eq_take_iff]
    omega
  · rw [VectorIndex.nearest_of_size_ne fits, VectorIndex.nearest_of_size_ne fits]

/-- A search for nodes like one that has a vector finds the front of all others, in the order of their distance.
One neighbour more is asked for than is wanted, as far as a word can hold that number. -/
theorem similarNodes_exact (reachable : s.Reachable) (n : NodeId) :
    (s.vectors.get? n.id = none → ∀ k, s.similarNodes n k = .error (.missingVector n)) ∧
    ∀ query, s.vectors.get? n.id = some query → ∃ others, s.RanksOthers n query others ∧ ∀ k,
      s.similarNodes n k = .ok (others.take (min k (s.vectors.size - 1))) ∧
        s.vectors.nearest query (min (k + 1) (2 ^ 64 - 1)) = s.vectors.nearest query (k + 1) := by
  have valid := reachable.valid
  constructor
  · intro missing k
    simp only [similarNodes, missing]
  · intro query stored
    have ranks := others_ranks valid stored
    refine ⟨_, ranks, fun k => ⟨?_, nearest_saturated reachable query k⟩⟩
    rw [similarNodes_eq valid stored, ← ranks.length, Nat.add_sub_cancel, ← List.take_eq_take_min]

/-- Three nodes at the same infinite distance from each other and from themselves, since their vector is not a
number. The last one is not even among the two nearest of its own vector. An edge leads from it to the first. -/
theorem similarNodes_exact_nan :
    let a : NodeId := ⟨.ofParts 0 1⟩
    let b : NodeId := ⟨.ofParts 1 1⟩
    let c : NodeId := ⟨.ofParts 2 1⟩
    let stale : NodeId := ⟨.ofParts 0 2⟩
    let v : Vec := #[⟨0x7fc00000⟩]
    let requests := [.graph .createNode, .graph .createNode, .graph .createNode,
      .graph (.createEdge c a 0 ⟨0⟩ 0), .vectors (.set a.id v), .vectors (.set b.id v), .vectors (.set c.id v)]
    ∃ start, ofConfig ⟨⟨3, 1, 1⟩, ⟨1, 3⟩⟩ = .ok start ∧
      let s := Session.after answer start requests
      s.Reachable ∧ s.similarNodes c 1 = .ok [⟨a, .infinity, true⟩] ∧
        s.similarNodes c 18446744073709551615 = .ok [⟨a, .infinity, true⟩, ⟨b, .infinity, false⟩] ∧
        s.similarNodes stale 1 = .error (.missingVector stale) := by
  intro a b c stale v requests
  let index : VectorIndex := .fresh 1 3
  let start : HybridStore := ⟨.fresh 3 1 1, index⟩
  let s := Session.after answer start requests
  have created : ofConfig ⟨⟨3, 1, 1⟩, ⟨1, 3⟩⟩ = .ok start := rfl
  have reachable : s.Reachable :=
    ⟨_, _, requests, ⟨3, 1, 1, _, [], rfl, rfl⟩, ⟨1, 3, .addressSpace, index, [], rfl, rfl⟩, rfl⟩
  have holds : s.vectors.Holds (((Finmap.insert a.id v ∅).insert b.id v).insert c.id v) := by
    have made : VectorIndex.create 1 3 = .ok index := rfl
    obtain ⟨one, wide, large⟩ := (VectorIndex.create_holds made).set a.id v (by decide) rfl (.inr (by decide))
    obtain ⟨two, same, large'⟩ := one.set b.id v (by decide) wide.symm (.inr (large.symm ▸ by decide))
    exact (two.set c.id v (by decide) (same.trans wide).symm (.inr ((large'.trans large).symm ▸ by decide))).1
  have stored (id : Id) : s.vectors.get? id = if id ∈ [a.id, b.id, c.id] then some v else none := by
    simp only [holds.lookup, VectorIndex.VectorMap.lookup_insert_eq, Finmap.lookup_empty]
    grind
  have far : squaredL2 v v = .infinity := by decide +kernel
  have edges : s.connected c a = true ∧ s.connected c b = false := by decide +kernel
  obtain ⟨-, found⟩ := similarNodes_exact reachable c
  obtain ⟨others, ranks, similar⟩ := found v (by rw [stored]; decide)
  have listed : s.RanksOthers c v [⟨a, .infinity, true⟩, ⟨b, .infinity, false⟩] := by
    refine ⟨List.pairwise_pair.mpr (.inr ⟨rfl, by decide⟩), by decide, holds.refines.size.symm, ?_⟩
    rintro ⟨id, distance, flag⟩
    simp only [stored, ← connected_iff reachable.valid, Option.ite_none_right_eq_some, Option.some.injEq]
    constructor
    · simp only [List.mem_cons, List.not_mem_nil, or_false]
      rintro (⟨rfl, rfl, rfl⟩ | ⟨rfl, rfl, rfl⟩)
      · exact ⟨by decide, ⟨v, ⟨by decide, rfl⟩, far.symm⟩, by simp [edges]⟩
      · exact ⟨by decide, ⟨v, ⟨by decide, rfl⟩, far.symm⟩, by simp [edges]⟩
    · rintro ⟨other, ⟨_, ⟨held, rfl⟩, rfl⟩, joined⟩
      simp only [List.mem_cons, List.not_mem_nil, or_false, Ref.id_inj] at held
      rcases held with rfl | rfl | rfl
      · obtain rfl : flag = true := by simpa [edges] using joined
        simp [far]
      · obtain rfl : flag = false := by simpa [edges] using joined
        simp [far]
      · exact absurd rfl other
  have size : s.vectors.size = 3 := holds.refines.size
  rw [ranks.unique listed, size] at similar
  exact ⟨start, created, reachable, (similar 1).1, (similar 18446744073709551615).1,
    (similarNodes_exact reachable stale).1 (by rw [stored]; decide) 1⟩

end HybridStore

end VectorGraph
