import VectorGraph.Proofs.Vector.Map
import VectorGraph.Proofs.Vector.Selection

/-! Search is exact. It answers with the front of all stored vectors in the order of their distance, so its
answers depend on what is stored, and not on the slots or on how it came to be stored. -/
namespace VectorGraph

/-- Bit patterns are told apart by their places in the total order. -/
theorem Binary32.rank_injective {a b : Binary32} (same : a.rank = b.rank) : a = b := by
  have left := a.bits.toNat_lt
  have right := b.bits.toNat_lt
  have bits : a.bits.toNat = b.bits.toNat := by
    unfold rank at same
    split at same <;> split at same <;> omega
  cases a; cases b
  exact congrArg Binary32.mk (UInt32.toNat_inj.mp bits)

namespace Neighbor

variable {a b c : Neighbor}

/-- The strict order: at a smaller distance, or at the same distance under a smaller handle. -/
def Before (a b : Neighbor) : Prop :=
  a.distance.rank < b.distance.rank ∨ a.distance.rank = b.distance.rank ∧ a.id.raw < b.id.raw

theorem le_iff : a.le b ↔ a.distance.rank < b.distance.rank ∨
    a.distance.rank = b.distance.rank ∧ a.id.raw.toNat ≤ b.id.raw.toNat := decide_eq_true_iff

theorem le_trans (a b c : Neighbor) (first : a.le b) (second : b.le c) : a.le c := by
  rw [le_iff] at *
  omega

theorem le_total (a b : Neighbor) : a.le b || b.le a := by
  rw [Bool.or_eq_true, le_iff, le_iff]
  omega

theorem le_antisymm (a b : Neighbor) (first : a.le b) (second : b.le a) : a = b := by
  rw [le_iff] at first second
  have distance : a.distance = b.distance := Binary32.rank_injective (by omega)
  have id : a.id = b.id := Id.eq_of_raw (by omega)
  cases a; cases b
  simp_all

theorem before_of_le (first : a.le b) (different : a.id ≠ b.id) : a.Before b := by
  rcases le_iff.mp first with nearer | ⟨same, below⟩
  · exact .inl nearer
  · have apart : a.id.raw.toNat ≠ b.id.raw.toNat := fun raw => different (Id.eq_of_raw raw)
    exact .inr ⟨same, UInt64.lt_iff_toNat_lt.mpr (Nat.lt_of_le_of_ne below apart)⟩

theorem Before.asymm (first : a.Before b) : ¬ b.Before a := by
  unfold Before at *
  rw [UInt64.lt_iff_toNat_lt] at *
  omega

end Neighbor

namespace VectorIndex

variable {x y : VectorIndex} {query : Vec}

/-- The stored vectors with their distances from a query, each once and in strict order. -/
structure Ranks (x : VectorIndex) (query : Vec) (ranking : List Neighbor) : Prop where
  sorted : ranking.Pairwise Neighbor.Before
  distinct : (ranking.map Neighbor.id).Nodup
  length : ranking.length = x.size
  members : ∀ n, n ∈ ranking ↔ ∃ v, x.get? n.id = some v ∧ n.distance = squaredL2 v query

def ranking (x : VectorIndex) (query : Vec) : List Neighbor := (x.candidates query).mergeSort Neighbor.le

theorem pairwise_ranking (x : VectorIndex) (query : Vec) : (x.ranking query).Pairwise fun a b => a.le b := by
  rw [ranking]
  exact List.pairwise_mergeSort Neighbor.le_trans Neighbor.le_total _

theorem map_id_candidates (x : VectorIndex) (query : Vec) :
    (x.candidates query).map Neighbor.id = x.entries.map Prod.fst := by
  simp [candidates, Function.comp_def]

theorem Valid.mem_candidates (valid : x.Valid) {n : Neighbor} :
    n ∈ x.candidates query ↔ ∃ v, x.get? n.id = some v ∧ n.distance = squaredL2 v query := by
  simp only [candidates, List.mem_map, Prod.exists, valid.mem_entries]
  constructor
  · rintro ⟨id, v, stored, rfl⟩
    exact ⟨v, stored, rfl⟩
  · rintro ⟨v, stored, distance⟩
    exact ⟨n.id, v, stored, by rw [← distance]⟩

theorem Valid.ranks (valid : x.Valid) (query : Vec) : x.Ranks query (x.ranking query) := by
  have same : (x.ranking query).Perm (x.candidates query) := List.mergeSort_perm ..
  have distinct : ((x.ranking query).map Neighbor.id).Nodup := by
    rw [(same.map _).nodup_iff, map_id_candidates]
    exact valid.nodup_entries
  refine ⟨?_, distinct, ?_, ?_⟩
  · have apart := List.pairwise_map.mp distinct
    exact ((pairwise_ranking x query).and apart).imp fun both => Neighbor.before_of_le both.1 both.2
  · rw [same.length_eq, candidates, List.length_map, valid.length_entries]
  · intro n
    rw [same.mem_iff, valid.mem_candidates]

/-- What is stored determines the order. -/
theorem Ranks.unique {left right : List Neighbor} (first : x.Ranks query left) (second : y.Ranks query right)
    (same : ∀ id, x.get? id = y.get? id) : left = right := by
  refine List.Perm.eq_of_pairwise (fun a b _ _ before after => absurd after before.asymm)
    first.sorted second.sorted ?_
  refine (List.perm_ext_iff_of_nodup (.of_map _ first.distinct) (.of_map _ second.distinct)).mpr fun n => ?_
  rw [first.members, second.members, same]

/-- Selecting before sorting makes no difference. -/
theorem nearest_eq (fits : query.size = x.dimension) (k : Nat) :
    x.nearest query k = .ok ((x.ranking query).take k) := by
  simp only [nearest, checkDimension, fits, if_true]
  by_cases none_wanted : k = 0
  · simp [none_wanted]
  · rw [if_neg none_wanted]
    by_cases few : k < (x.candidates query).length
    · obtain ⟨rest, split⟩ := selectLeast_selects Neighbor.le_trans Neighbor.le_total k (x.candidates query)
      rw [if_pos few, split.mergeSort_eq Neighbor.le_trans Neighbor.le_total Neighbor.le_antisymm, ranking]
    · rw [if_neg few, ranking, List.take_of_length_le]
      rw [List.length_mergeSort]
      omega

theorem nearest_of_size_ne (wrong : query.size ≠ x.dimension) (k : Nat) :
    x.nearest query k = .error (.dimensionMismatch x.dimension query.size) := by
  simp [nearest, checkDimension, wrong]

/-- Every search answers with the front of the stored vectors in order. Indexes that store the same answer
alike, and a search for more continues one for fewer. -/
theorem nearest_exact (reachable : x.Reachable) :
    (∀ query : Vec, query.size = x.dimension → ∃ ranking, x.Ranks query ranking ∧
      ∀ k, x.nearest query k = .ok (ranking.take (min k x.size))) ∧
    (∀ y : VectorIndex, y.Reachable → y.dimension = x.dimension → (∀ id, y.get? id = x.get? id) →
      ∀ query k, y.nearest query k = x.nearest query k) ∧
    ∀ query j k near far, j ≤ k → x.nearest query j = .ok near → x.nearest query k = .ok far → near <+: far := by
  have valid := reachable.valid
  refine ⟨?_, ?_, ?_⟩
  · intro query fits
    have ranks := valid.ranks query
    refine ⟨_, ranks, fun k => ?_⟩
    rw [nearest_eq fits, ← ranks.length, ← List.take_eq_take_min]
  · intro y other wide same query k
    by_cases fits : query.size = x.dimension
    · have ranking := (other.valid.ranks query).unique (valid.ranks query) same
      rw [nearest_eq fits, nearest_eq (fits.trans wide.symm), ranking]
    · rw [nearest_of_size_ne fits, nearest_of_size_ne (wide ▸ fits), wide]
  · intro query j k near far fewer first second
    have fits : query.size = x.dimension := by
      by_contra wrong
      simp [nearest_of_size_ne wrong] at first
    rw [nearest_eq fits, Except.ok.injEq] at first second
    rw [← first, ← second]
    exact List.take_prefix_take_left fewer

/-- Two handles at one distance, whatever it is: the smaller one comes first, also where the other was stored
first and in a larger index. -/
theorem nearest_exact_tie :
    let a : Id := ⟨1⟩
    let b : Id := ⟨2⟩
    let v : Vec := #[.infinity]
    let w : Vec := #[.negativeZero]
    let query : Vec := #[.zero]
    let near : Neighbor := ⟨a, squaredL2 v query⟩
    let far : Neighbor := ⟨b, squaredL2 v query⟩
    ∃ small large, create 1 2 = .ok small ∧ create 1 3 = .ok large ∧
      let x := Session.after answer small [.set a v, .set b v]
      let y := Session.after answer large [.set b w, .set a v, .set b v]
      x.nearest query 1 = .ok [near] ∧ x.nearest query 5 = .ok [near, far] ∧ [near] <+: [near, far] ∧
        ∀ k, y.nearest query k = x.nearest query k := by
  intro a b v w query near far
  let small : VectorIndex := .fresh 1 2
  let large : VectorIndex := .fresh 1 3
  let x := Session.after answer small [.set a v, .set b v]
  let y := Session.after answer large [.set b w, .set a v, .set b v]
  have narrow : create 1 2 = .ok small := rfl
  have wide : create 1 3 = .ok large := rfl
  have holds : x.Holds ((Finmap.insert a v ∅).insert b v) := by
    obtain ⟨first, fits, room⟩ := (create_holds narrow).set a v (by decide) rfl (.inr (by decide))
    exact (first.set b v (by decide) fits.symm (.inr (room.symm ▸ by decide))).1
  have other : y.Holds (((Finmap.insert b w ∅).insert a v).insert b v) := by
    obtain ⟨first, fits, room⟩ := (create_holds wide).set b w (by decide) rfl (.inr (by decide))
    obtain ⟨second, alike, _⟩ := first.set a v (by decide) fits.symm (.inr (room.symm ▸ by decide))
    exact (second.set b v (by decide) (alike.trans fits).symm (.inl (by decide))).1
  have stored (id : Id) : x.get? id = if id = b then some v else if id = a then some v else none := by
    simp only [holds.lookup, VectorMap.lookup_insert_eq, Finmap.lookup_empty]
  have same (id : Id) : y.get? id = x.get? id := by
    rw [stored, other.lookup]
    simp only [VectorMap.lookup_insert_eq, Finmap.lookup_empty]
    split <;> rfl
  obtain ⟨search, alike, longer⟩ := nearest_exact (x := x) ⟨1, 2, .addressSpace, small, _, narrow, rfl⟩
  obtain ⟨_, dimension, _⟩ := after_shape narrow [.set a v, .set b v]
  obtain ⟨ranking, ranks, found⟩ := search query dimension.symm
  have size : x.size = 2 := holds.refines.size
  have listed : x.Ranks query [near, far] := by
    refine ⟨List.pairwise_pair.mpr (.inr ⟨rfl, by decide⟩), by simp [near, far, a, b], size.symm, ?_⟩
    rintro ⟨id, distance⟩
    simp only [stored, List.mem_cons, List.not_mem_nil, or_false, near, far, Neighbor.mk.injEq]
    constructor
    · rintro (⟨rfl, rfl⟩ | ⟨rfl, rfl⟩) <;> exact ⟨v, rfl, rfl⟩
    · rintro ⟨u, here, rfl⟩
      split at here
      · rename_i same
        exact .inr ⟨same, by rw [Option.some.inj here]⟩
      · split at here
        · rename_i same
          exact .inl ⟨same, by rw [Option.some.inj here]⟩
        · cases here
  rw [ranks.unique listed fun _ => rfl, size] at found
  have one : x.nearest query 1 = .ok [near] := found 1
  have all : x.nearest query 5 = .ok [near, far] := found 5
  exact ⟨small, large, narrow, wide, one, all, longer query 1 5 _ _ (by decide) one all,
    alike y ⟨1, 3, .addressSpace, large, _, wide, rfl⟩ (by rw [(after_shape wide _).2.1, dimension]) same query⟩

end VectorIndex

end VectorGraph
