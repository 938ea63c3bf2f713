import VectorGraph.Json.Forms
import VectorGraph.Proofs.Hybrid.Similar
import VectorGraph.Proofs.Json.Single
import VectorGraph.Proofs.Vector.Distance

/-!
Search hits as JSON. The distance of a hit is finite or infinity, whatever is stored. A hit at a finite distance is
read back from its own text. Infinity has no numeral and is written as `null`, which is refused as a distance.
-/
namespace VectorGraph

open Json (Form Stops Reader Fault)

theorem VectorIndex.distance_of_hit {x : VectorIndex} {query : Vec} {k : Nat} {hits : List Neighbor} {hit : Neighbor}
    (found : x.nearest query k = .ok hits) (mem : hit ∈ hits) : ∃ v, hit.distance = squaredL2 v query := by
  by_cases fits : query.size = x.dimension
  · rw [nearest_eq fits, Except.ok.injEq] at found
    have ranked : hit ∈ x.ranking query := List.mem_of_mem_take (found ▸ mem)
    obtain ⟨⟨id, v⟩, -, rfl⟩ := List.mem_map.mp ((List.mergeSort_perm ..).mem_iff.mp ranked)
    exact ⟨v, rfl⟩
  · rw [nearest_of_size_ne fits] at found
    cases found

theorem HybridStore.distance_of_hit {s : HybridStore} {n : NodeId} {k : Nat} {hits : List SimilarNode}
    {hit : SimilarNode} (found : s.similarNodes n k = .ok hits) (mem : hit ∈ hits) :
    ∃ v query, hit.distance = squaredL2 v query := by
  unfold similarNodes at found
  split at found
  · cases found
  · rename_i query _
    split at found
    · cases found
    · rename_i near search
      obtain rfl := Except.ok.inj found
      obtain ⟨neighbor, kept, rfl⟩ := List.mem_map.mp mem
      obtain ⟨v, distance⟩ := VectorIndex.distance_of_hit search (List.mem_of_mem_filter (List.mem_of_mem_take kept))
      exact ⟨v, query, distance⟩

namespace Json

theorem writeBinary32_infinity : writeBinary32 .infinity = "null".toList := by decide +kernel

theorem Reader.float32_null (rest : List Char) :
    Reader.float32 ("null".toList ++ rest) = .error (.mismatch (.wrongType .unit "f32")) := rfl

theorem Field.Refuses.float32 {α : Type} {name : String} {v : α} {get : α → Binary32} {set : Binary32 → α → α}
    (infinite : get v = .infinity) :
    (float32 name get set).Refuses v (.mismatch (.wrongType .unit "f32")) := by
  intro rest
  simp only [Field.float32, Json.compact, infinite, writeBinary32_infinity]
  exact Reader.bind_error (Reader.float32_null rest)

/-- What is read from the text of a record with a distance. -/
structure Form.Rereads {α : Type} (form : Form α) (v : α) (distance : Binary32) : Prop where
  range : distance.IsFinite ∨ distance = .infinity
  finite : distance.IsFinite → form.read.run (.ofList (form.toJson v).compact) = .ok v
  infinite : distance = .infinity →
    form.read.run (.ofList (form.toJson v).compact) = .error (.mismatch (.wrongType .unit "f32"))

end Json

theorem Neighbor.rereads (hit : Neighbor) (range : hit.distance.IsFinite ∨ hit.distance = .infinity) :
    Neighbor.form.Rereads hit hit.distance := by
  have distinct : (Neighbor.form.fields.map (·.name)).Nodup := by decide
  refine ⟨range, fun finite => ?_, fun infinite => ?_⟩
  · have returns : List.Forall₂ (Json.Field.Returns · hit ·) Neighbor.form.fields _ :=
      .cons .id <| .cons (.float32 fun _ ends => Binary32.float32_writeBinary32 finite ends) .nil
    exact Form.run_compact distinct returns
  · have before : List.Forall₂ (Json.Field.Returns · hit ·) (Neighbor.form.fields.take 1) _ := .cons .id .nil
    exact Form.run_compact_refused rfl distinct before (.float32 infinite)

theorem SimilarNode.rereads (hit : SimilarNode) (range : hit.distance.IsFinite ∨ hit.distance = .infinity) :
    SimilarNode.form.Rereads hit hit.distance := by
  have distinct : (SimilarNode.form.fields.map (·.name)).Nodup := by decide
  refine ⟨range, fun finite => ?_, fun infinite => ?_⟩
  · have returns : List.Forall₂ (Json.Field.Returns · hit ·) SimilarNode.form.fields _ :=
      .cons .ref <| .cons (.float32 fun _ ends => Binary32.float32_writeBinary32 finite ends) <| .cons .flag .nil
    exact Form.run_compact distinct returns
  · have before : List.Forall₂ (Json.Field.Returns · hit ·) (SimilarNode.form.fields.take 1) _ := .cons .ref .nil
    exact Form.run_compact_refused rfl distinct before (.float32 infinite)

instance (a b : Neighbor) : Decidable (a.Before b) := inferInstanceAs (Decidable (_ ∨ _))

/-- Three nodes at a distance of zero, at a quarter and at infinity, since the last vector is not a number. -/
theorem exists_hits :
    let a : NodeId := ⟨.ofParts 0 1⟩
    let b : NodeId := ⟨.ofParts 1 1⟩
    let c : NodeId := ⟨.ofParts 2 1⟩
    ∃ (x : VectorIndex) (s : HybridStore), x.Reachable ∧ s.Reachable ∧
      x.nearest #[.zero] 3 = .ok [⟨a.id, .zero⟩, ⟨b.id, ⟨0x3e800000⟩⟩, ⟨c.id, .infinity⟩] ∧
        s.similarNodes a 2 = .ok [⟨b, ⟨0x3e800000⟩, false⟩, ⟨c, .infinity, false⟩] := by
  intro a b c
  let zero : Vec := #[.zero]
  let half : Vec := #[⟨0x3f000000⟩]
  let wrong : Vec := #[⟨0x7fc00000⟩]
  let x := Session.after VectorIndex.answer (.fresh 1 3) [.set a.id zero, .set b.id half, .set c.id wrong]
  let g := Session.after Graph.answer (.fresh 3 1 1) [.createNode, .createNode, .createNode]
  have indexed : x.Reachable := ⟨1, 3, .addressSpace, .fresh 1 3, _, rfl, rfl⟩
  have reachable : HybridStore.Reachable ⟨g, x⟩ := ⟨g, x, [], ⟨3, 1, 1, _, _, rfl, rfl⟩, indexed, rfl⟩
  have made : VectorIndex.create 1 3 = .ok (.fresh 1 3) := rfl
  have fits : zero.size = x.dimension := (VectorIndex.after_shape made _).2.1.symm
  have holds : x.Holds (((Finmap.insert a.id zero ∅).insert b.id half).insert c.id wrong) := by
    obtain ⟨one, wide, large⟩ := (VectorIndex.create_holds made).set a.id zero (by decide) rfl (.inr (by decide))
    obtain ⟨two, same, large'⟩ := one.set b.id half (by decide) wide.symm (.inr (large.symm ▸ by decide))
    exact (two.set c.id wrong (by decide) (same.trans wide).symm (.inr ((large'.trans large).symm ▸ by decide))).1
  have stored (id : Id) : x.get? id =
      if id = c.id then some wrong else if id = b.id then some half else if id = a.id then some zero else none := by
    simp only [holds.lookup, VectorIndex.VectorMap.lookup_insert_eq, Finmap.lookup_empty]
  have distances : squaredL2 zero zero = .zero ∧ squaredL2 half zero = ⟨0x3e800000⟩ ∧
      squaredL2 wrong zero = .infinity := by decide +kernel
  have ranking : x.ranking zero = [⟨a.id, .zero⟩, ⟨b.id, ⟨0x3e800000⟩⟩, ⟨c.id, .infinity⟩] := by
    refine (holds.valid.ranks zero).unique ⟨by decide, by decide, holds.refines.size.symm, ?_⟩ fun _ => rfl
    rintro ⟨id, distance⟩
    simp only [stored, ← distances, List.mem_cons, List.not_mem_nil, or_false, Neighbor.mk.injEq]
    constructor
    · rintro (⟨rfl, rfl⟩ | ⟨rfl, rfl⟩ | ⟨rfl, rfl⟩) <;> exact ⟨_, rfl, rfl⟩
    · rintro ⟨v, held, rfl⟩
      split at held
      · exact .inr (.inr ⟨‹_›, by rw [← Option.some.inj held]⟩)
      split at held
      · exact .inr (.inl ⟨‹_›, by rw [← Option.some.inj held]⟩)
      split at held
      · exact .inl ⟨‹_›, by rw [← Option.some.inj held]⟩
      · cases held
  refine ⟨x, ⟨g, x⟩, indexed, reachable, ?_, ?_⟩
  · show x.nearest zero 3 = _
    rw [VectorIndex.nearest_eq fits, ranking]
    rfl
  · have own : x.get? a.id = some zero := by
      rw [stored]
      rfl
    have apart : HybridStore.connected ⟨g, x⟩ a b = false ∧ HybridStore.connected ⟨g, x⟩ a c = false := by
      decide +kernel
    have kept : ([⟨a.id, .zero⟩, ⟨b.id, ⟨0x3e800000⟩⟩, ⟨c.id, .infinity⟩] : List Neighbor).filter (·.id != a.id)
        = [⟨b.id, ⟨0x3e800000⟩⟩, ⟨c.id, .infinity⟩] := by decide
    rw [HybridStore.similarNodes_eq reachable.valid own, HybridStore.others, ranking, kept]
    simp [apart]

/-- Every hit of every search is read back from its own text at a finite distance, and refused at infinity. -/
theorem hits_reread :
    (∀ (x : VectorIndex) query k hits, x.nearest query k = .ok hits →
      ∀ hit ∈ hits, Neighbor.form.Rereads hit hit.distance) ∧
    ∀ (s : HybridStore) n k hits, s.similarNodes n k = .ok hits →
      ∀ hit ∈ hits, SimilarNode.form.Rereads hit hit.distance := by
  constructor
  · intro x query k hits found hit mem
    obtain ⟨v, distance⟩ := VectorIndex.distance_of_hit found mem
    exact hit.rereads (distance ▸ squaredL2_finite_or_infinity v query)
  · intro s n k hits found hit mem
    obtain ⟨v, query, distance⟩ := HybridStore.distance_of_hit found mem
    exact hit.rereads (distance ▸ squaredL2_finite_or_infinity v query)

/-- Of two hits of each search, the near one is read back and the far one is refused. -/
theorem hits_reread_near_and_far :
    let b : NodeId := ⟨.ofParts 1 1⟩
    let c : NodeId := ⟨.ofParts 2 1⟩
    ∃ (x : VectorIndex) (s : HybridStore) (n : NodeId) (hits : List Neighbor) (similar : List SimilarNode),
      x.nearest #[.zero] 3 = .ok hits ∧ s.similarNodes n 2 = .ok similar ∧
      ⟨b.id, ⟨0x3e800000⟩⟩ ∈ hits ∧ ⟨c.id, .infinity⟩ ∈ hits ∧
      ⟨b, ⟨0x3e800000⟩, false⟩ ∈ similar ∧ ⟨c, .infinity, false⟩ ∈ similar ∧
      Neighbor.form.read.run (.ofList (Neighbor.form.toJson ⟨b.id, ⟨0x3e800000⟩⟩).compact)
        = .ok ⟨b.id, ⟨0x3e800000⟩⟩ ∧
      Neighbor.form.read.run (.ofList (Neighbor.form.toJson ⟨c.id, .infinity⟩).compact)
        = .error (.mismatch (.wrongType .unit "f32")) ∧
      SimilarNode.form.read.run (.ofList (SimilarNode.form.toJson ⟨b, ⟨0x3e800000⟩, false⟩).compact)
        = .ok ⟨b, ⟨0x3e800000⟩, false⟩ ∧
      SimilarNode.form.read.run (.ofList (SimilarNode.form.toJson ⟨c, .infinity, false⟩).compact)
        = .error (.mismatch (.wrongType .unit "f32")) := by
  intro b c
  obtain ⟨x, s, -, -, near, similar⟩ := exists_hits
  have finite : Binary32.IsFinite ⟨0x3e800000⟩ := ⟨_, _, _, rfl⟩
  have near_b := hits_reread.1 x _ _ _ near ⟨b.id, ⟨0x3e800000⟩⟩ (by simp [b])
  have near_c := hits_reread.1 x _ _ _ near ⟨c.id, .infinity⟩ (by simp [c])
  have similar_b := hits_reread.2 s _ _ _ similar ⟨b, ⟨0x3e800000⟩, false⟩ (by simp [b])
  have similar_c := hits_reread.2 s _ _ _ similar ⟨c, .infinity, false⟩ (by simp [c])
  exact ⟨x, s, _, _, _, near, similar, by simp [b], by simp [c], by simp [b], by simp [c], near_b.finite finite,
    near_c.infinite rfl, similar_b.finite finite, similar_c.infinite rfl⟩

/-- The hit at infinity does not survive. -/
theorem hits_reread_infinity :
    (¬∀ x : VectorIndex, x.Reachable → ∀ query k hits, x.nearest query k = .ok hits → ∀ hit ∈ hits,
      Neighbor.form.read.run (.ofList (Neighbor.form.toJson hit).compact) = .ok hit) ∧
    ¬∀ s : HybridStore, s.Reachable → ∀ n k hits, s.similarNodes n k = .ok hits → ∀ hit ∈ hits,
      SimilarNode.form.read.run (.ofList (SimilarNode.form.toJson hit).compact) = .ok hit := by
  obtain ⟨x, s, indexed, reachable, near, similar⟩ := exists_hits
  constructor
  · intro always
    have survives := always x indexed _ _ _ near ⟨.ofParts 2 1, .infinity⟩ (by simp)
    rw [(Neighbor.rereads _ (.inr rfl)).infinite rfl] at survives
    cases survives
  · intro always
    have survives := always s reachable _ _ _ similar ⟨⟨.ofParts 2 1⟩, .infinity, false⟩ (by simp)
    rw [(SimilarNode.rereads _ (.inr rfl)).infinite rfl] at survives
    cases survives

end VectorGraph
