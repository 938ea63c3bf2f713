import VectorGraph.Proofs.Json.Single
import VectorGraph.Vector.Distance

/-!
The range of distances. Squares are not below zero and neither are their sums, in whatever way they are rounded,
so a distance is finite or infinity; a sum that is not a number counts as infinity.
-/
namespace VectorGraph

open Float.Model Float.Model.UnpackedFloat Pattern

/-- Without a sign, which a negative zero has. -/
def Unsigned : UnpackedFloat → Prop
  | .infinity .negative | .zero .negative | .finite .negative .. => False
  | _ => True

/-- Not below zero. A zero of either sign is not, nor is what is not a number. -/
def NonNegative : UnpackedFloat → Prop
  | .infinity .negative => False
  | .finite .negative .. => False
  | _ => True

variable {u v : UnpackedFloat}

namespace Unsigned

theorem nonNegative (unsigned : Unsigned u) : NonNegative u := by
  rcases u with (_ | _) | _ | (_ | _) | ⟨_ | _, m, e, positive⟩ <;> trivial

theorem pack_lt (unsigned : Unsigned u) : (UnpackedFloat.pack Format.binary32 u).toNat < 2 ^ 31 := by
  have below (e : BitVec 8) (m : BitVec 23) :
      (packComponents Format.binary32 .positive e m).toNat < 2 ^ 31 := by
    rw [packComponents_toNat]
    show 0 + e.toNat * 2 ^ 23 + m.toNat < 2 ^ 31
    have := e.isLt
    have := m.isLt
    omega
  rcases u with (_ | _) | _ | (_ | _) | ⟨_ | _, m, e, positive⟩
  case infinity.negative | zero.negative | finite.negative => exact unsigned.elim
  case finite.positive =>
    delta UnpackedFloat.pack
    dsimp only
    split
    · exact below _ _
    split <;> exact below _ _
  all_goals exact below _ _

protected theorem dite {p : Prop} [Decidable p] {f : p → UnpackedFloat} {g : ¬p → UnpackedFloat}
    (first : ∀ h, Unsigned (f h)) (second : ∀ h, Unsigned (g h)) : Unsigned (dite p f g) := by
  by_cases h : p
  · rw [dif_pos h]
    exact first h
  · rw [dif_neg h]
    exact second h

protected theorem ite {p : Prop} [Decidable p] (first : Unsigned u) (second : Unsigned v) :
    Unsigned (if p then u else v) := by
  by_cases h : p
  · rwa [if_pos h]
  · rwa [if_neg h]

theorem unpack {b : BitVec 32} (lt : b.toNat < 2 ^ 31) : Unsigned (UnpackedFloat.unpack Format.binary32 b) := by
  have sign : Sign.ofBitVec (@unpackSign Format.binary32 b) = .positive := by
    have bit : (@unpackSign Format.binary32 b).toNat = b.toNat / 2 ^ 31 % 2 := @unpackSign_toNat .binary32 b
    rw [Sign.ofBitVec, if_pos (BitVec.eq_of_toNat_eq (by rw [bit]; simp; omega))]
  unfold UnpackedFloat.unpack
  dsimp only
  rw [sign]
  exact .ite (.ite trivial trivial) (.ite (.dite (fun _ => trivial) fun _ => trivial) trivial)

theorem roundWithAccuracy (m : Nat) (e : Int) :
    Unsigned (roundWithAccuracy Format.binary32 .positive m e .exact) := by
  unfold UnpackedFloat.roundWithAccuracy
  exact .dite (fun _ => trivial) fun _ => trivial

theorem normalize (n : Nat) (e : Int) : Unsigned (UnpackedFloat.normalize Format.binary32 n e .positive) := by
  unfold UnpackedFloat.normalize
  split
  · rename_i below
    have := compare_lt_iff_lt.mp below
    omega
  · trivial
  · exact roundWithAccuracy _ _

theorem mul_self (u : UnpackedFloat) : Unsigned (u.mul Format.binary32 u) := by
  rcases u with (_ | _) | _ | (_ | _) | ⟨_ | _, m, e, positive⟩ <;> first | trivial | exact roundWithAccuracy _ _

end Unsigned

namespace NonNegative

theorem unsigned_or_zero (nonNegative : NonNegative u) : Unsigned u ∨ u = .zero .negative := by
  rcases u with (_ | _) | _ | (_ | _) | ⟨_ | _, m, e, positive⟩
  case zero.negative => exact .inr rfl
  all_goals first | exact .inl trivial | exact nonNegative.elim

/-- Its pattern has no sign, unless it is that of minus zero. -/
theorem pack_le (nonNegative : NonNegative u) : (UnpackedFloat.pack Format.binary32 u).toNat ≤ 2 ^ 31 := by
  rcases nonNegative.unsigned_or_zero with unsigned | rfl
  · exact unsigned.pack_lt.le
  · decide

theorem unpack {b : BitVec 32} (le : b.toNat ≤ 2 ^ 31) : NonNegative (UnpackedFloat.unpack Format.binary32 b) := by
  rcases Nat.lt_or_eq_of_le le with lt | eq
  · exact (Unsigned.unpack lt).nonNegative
  · obtain rfl : b = packedZero Format.binary32 .negative := BitVec.eq_of_toNat_eq eq
    have zero : UnpackedFloat.unpack Format.binary32 (packedZero Format.binary32 .negative) = .zero .negative := rfl
    rw [zero]
    trivial

/-- The sum of two zeros is negative only where both are. -/
theorem add (first : NonNegative u) (second : Unsigned v) : Unsigned (u.add Format.binary32 v) := by
  rcases u with (_ | _) | _ | (_ | _) | ⟨_ | _, m, e, positive⟩ <;>
    rcases v with (_ | _) | _ | (_ | _) | ⟨_ | _, m', e', positive'⟩ <;>
    first | trivial | exact first.elim | exact second.elim | exact Unsigned.normalize _ _

end NonNegative

namespace Binary32

variable {x y : Binary32}

def IsUnsigned (x : Binary32) : Prop := x.bits.toNat < 2 ^ 31

def IsNonNegative (x : Binary32) : Prop := x.bits.toNat ≤ 2 ^ 31

theorem IsUnsigned.isNonNegative (unsigned : x.IsUnsigned) : x.IsNonNegative := Nat.le_of_lt unsigned

theorem isNonNegative_negativeZero : negativeZero.IsNonNegative := Nat.le_refl (2 ^ 31)

theorem isUnsigned_squaredGap (x y : Binary32) : (x.squaredGap y).IsUnsigned :=
  Unsigned.pack_lt (Unsigned.mul_self _)

/-- The pattern is unpacked and packed on the way to a float. -/
theorem IsUnsigned.toFloat (unsigned : x.IsUnsigned) : Unsigned x.toFloat.toModel.unpack :=
  Unsigned.unpack (Unsigned.pack_lt (Unsigned.unpack unsigned))

theorem IsNonNegative.toFloat (nonNegative : x.IsNonNegative) : NonNegative x.toFloat.toModel.unpack :=
  NonNegative.unpack (NonNegative.pack_le (NonNegative.unpack nonNegative))

theorem IsNonNegative.add (first : x.IsNonNegative) (second : y.IsUnsigned) : (x.add y).IsUnsigned :=
  Unsigned.pack_lt (first.toFloat.add second.toFloat)

/-- One term is enough for the sign of a negative zero to be gone. -/
theorem isUnsigned_sum {terms : List Binary32} (unsigned : ∀ y ∈ terms, y.IsUnsigned) (nonempty : terms ≠ [])
    (start : x.IsNonNegative) : (terms.foldl add x).IsUnsigned := by
  induction terms generalizing x with
  | nil => exact absurd rfl nonempty
  | cons y ys ih =>
    have first := start.add (unsigned y (.head _))
    by_cases last : ys = []
    · rwa [last]
    · exact ih (fun z mem => unsigned z (.tail _ mem)) last first.isNonNegative

theorem isNonNegative_sum {terms : List Binary32} (unsigned : ∀ y ∈ terms, y.IsUnsigned)
    (start : x.IsNonNegative) : (terms.foldl add x).IsNonNegative := by
  by_cases empty : terms = []
  · rwa [empty]
  · exact (isUnsigned_sum unsigned empty start).isNonNegative

theorem IsNonNegative.finite_or_infinity (nonNegative : x.IsNonNegative) (number : x.isNaN = false) :
    x.IsFinite ∨ x = .infinity := by
  unfold IsNonNegative at nonNegative
  unfold isNaN at number
  rw [decide_eq_false_iff_not] at number
  by_cases finite : x.magnitude < 255 * 2 ^ 23
  · exact .inl (isFinite_of_lt finite)
  · right
    unfold magnitude at finite
    have bits : x.bits.toNat = infinity.bits.toNat := by
      have : infinity.bits.toNat = 0x7f800000 := rfl
      omega
    cases x
    exact congrArg _ (UInt32.toNat_inj.mp bits)

end Binary32

/-- What is summed up. -/
def squaredGaps (a b : Vec) : List Binary32 := (Array.zipWith Binary32.squaredGap a b).toList

theorem squaredL2_eq (a b : Vec) :
    squaredL2 a b = let sum := (squaredGaps a b).foldl Binary32.add .negativeZero
      if sum.isNaN then .infinity else sum := by
  rw [squaredGaps, Array.foldl_toList]
  rfl

theorem isUnsigned_squaredGaps (a b : Vec) : ∀ z ∈ squaredGaps a b, z.IsUnsigned := by
  intro z mem
  rw [squaredGaps, Array.toList_zipWith, ← List.map_uncurry_zip_eq_zipWith] at mem
  obtain ⟨⟨x, y⟩, -, rfl⟩ := List.mem_map.mp mem
  exact Binary32.isUnsigned_squaredGap x y

theorem squaredL2_finite_or_infinity (a b : Vec) : (squaredL2 a b).IsFinite ∨ squaredL2 a b = .infinity := by
  rw [squaredL2_eq]
  dsimp only
  split
  · exact .inr rfl
  · rename_i number
    have nonNegative := Binary32.isNonNegative_sum (isUnsigned_squaredGaps a b) Binary32.isNonNegative_negativeZero
    exact nonNegative.finite_or_infinity (by simpa using number)

end VectorGraph
