import VectorGraph.Proofs.Binary.Negation
import VectorGraph.Proofs.Vector.Distance
import Mathlib.Algebra.Order.Field.Power
import Mathlib.Data.EReal.Basic

/-!
The order of distances. A distance is the same from both ends. It is a number that has no sign unless there is nothing
to compare, and patterns without a sign stand in the order of their values.
-/
namespace VectorGraph

open Float.Model Float.Model.UnpackedFloat Pattern

theorem Binary32.squaredGap_comm (x y : Binary32) : x.squaredGap y = y.squaredGap x := by
  have opposite : Opposite (x.sub y).toFloat.toModel.unpack (y.sub x).toFloat.toModel.unpack :=
    (opposite_sub x.toFloat.toModel.unpack y.toFloat.toModel.unpack).unpack_pack.unpack_pack
  have squares := @Opposite.mul_self .binary32 _ _ opposite
  exact congrArg (fun product => ofFloat (.ofModel (.pack product))) squares

theorem squaredL2_comm (a b : Vec) : squaredL2 a b = squaredL2 b a := by
  have terms : squaredGaps a b = squaredGaps b a := by
    rw [squaredGaps, squaredGaps, Array.zipWith_comm]
    simp only [Binary32.squaredGap_comm]
  rw [squaredL2_eq, squaredL2_eq, terms]

theorem unpack_eq_notANumber {b : BitVec 32} (notNumber : 0x7f800000 < b.toNat % 2 ^ 31) :
    UnpackedFloat.unpack Format.binary32 b = .notANumber := by
  have fraction : (@unpackMantissa Format.binary32 b).toNat = b.toNat % 2 ^ 23 := @unpackMantissa_toNat .binary32 b
  have exponent : (@unpackExponent Format.binary32 b).toNat = b.toNat / 2 ^ 23 % 2 ^ 8 :=
    @unpackExponent_toNat .binary32 b
  have ones : @unpackExponent Format.binary32 b = -1#8 := BitVec.eq_of_toNat_eq (by rw [exponent]; simp; omega)
  have some_bit : @unpackMantissa Format.binary32 b ≠ 0#23 := by
    intro zero
    rw [zero] at fraction
    simp at fraction
    omega
  unfold UnpackedFloat.unpack
  rw [if_pos ones, if_neg some_bit]

namespace Binary32

variable {x y : Binary32}

theorem unpack_of_isNaN (notNumber : x.isNaN) : x.toFloat.toModel.unpack = .notANumber := by
  have unpacked : UnpackedFloat.unpack Format.binary32 x.bits.toBitVec = .notANumber :=
    unpack_eq_notANumber (of_decide_eq_true notNumber)
  have packed : x.toFloat.toModel.unpack = UnpackedFloat.unpack Format.binary32
      (UnpackedFloat.pack Format.binary32 (UnpackedFloat.unpack Format.binary32 x.bits.toBitVec)) := rfl
  rw [packed, unpacked]
  rfl

theorem isNaN_pack {u : UnpackedFloat} (eq : u = .notANumber) :
    (ofFloat (.ofModel (.pack u))).isNaN := by
  subst eq
  decide

theorem isNaN_add (notNumber : x.isNaN ∨ y.isNaN) : (x.add y).isNaN := by
  have sum : UnpackedFloat.add Format.binary32 x.toFloat.toModel.unpack y.toFloat.toModel.unpack = .notANumber := by
    rcases notNumber with left | right
    · rw [unpack_of_isNaN left]
      rfl
    · rw [unpack_of_isNaN right]
      cases x.toFloat.toModel.unpack <;> rfl
  exact isNaN_pack sum

theorem isNaN_squaredGap (notNumber : (x.sub y).isNaN) : (x.squaredGap y).isNaN := by
  have square : UnpackedFloat.mul Format.binary32 (x.sub y).toFloat.toModel.unpack (x.sub y).toFloat.toModel.unpack
      = .notANumber := by
    rw [unpack_of_isNaN notNumber]
    rfl
  exact isNaN_pack square

theorem isNaN_sum {terms : List Binary32} (notNumber : x.isNaN ∨ ∃ y ∈ terms, y.isNaN) :
    (terms.foldl add x).isNaN := by
  induction terms generalizing x with
  | nil => simpa using notNumber
  | cons y ys ih =>
    refine ih ?_
    rcases notNumber with start | ⟨z, mem, last⟩
    · exact .inl (isNaN_add (.inl start))
    · rcases List.mem_cons.mp mem with rfl | later
      · exact .inl (isNaN_add (.inr last))
      · exact .inr ⟨z, later, last⟩

end Binary32

theorem squaredL2_isNaN (a b : Vec) : (squaredL2 a b).isNaN = false := by
  rw [squaredL2_eq]
  dsimp only
  split
  · decide
  · rename_i number
    simpa using number

theorem squaredL2_infinity {a b : Vec} {i : Nat} {x y : Binary32} (first : a[i]? = some x) (second : b[i]? = some y)
    (notNumber : (x.sub y).isNaN) : squaredL2 a b = .infinity := by
  have mem : x.squaredGap y ∈ squaredGaps a b := by
    refine Array.mem_toList_iff.mpr (Array.mem_of_getElem? (i := i) ?_)
    rw [Array.getElem?_zipWith, first, second]
  rw [squaredL2_eq, if_pos (Binary32.isNaN_sum (.inr ⟨_, mem, Binary32.isNaN_squaredGap notNumber⟩))]

/-- The number that is read, among the extended reals. -/
noncomputable def Reading.value? : Reading → Option EReal
  | .finite negative significand exponent =>
    let size : ℝ := significand * ((2 : Nat) : ℝ) ^ exponent
    some (if negative then -size else size : ℝ)
  | .infinite negative => some (if negative then ⊥ else ⊤)
  | .nan => none

/-- The fields of a number that is not below zero stand in the order of the numbers. -/
theorem Pattern.Single.value_lt {p q i j m n : Nat} (first : Single p i m) (second : Single q j n) (lt : p < q) :
    (m * 2 ^ (i - 149 : ℤ) : ℝ) < n * 2 ^ (j - 149 : ℤ) := by
  have scaled : m * 2 ^ i < n * 2 ^ j := by
    have := first.eq
    have := second.eq
    have := first.lt
    have := second.normal
    rcases Nat.lt_trichotomy i j with less | rfl | more
    · calc m * 2 ^ i < 2 ^ 24 * 2 ^ i := Nat.mul_lt_mul_of_pos_right first.lt (by positivity)
        _ = 2 ^ 23 * 2 ^ (i + 1) := by ring
        _ ≤ n * 2 ^ j := Nat.mul_le_mul (by omega) (Nat.pow_le_pow_right (by norm_num) less)
    · exact Nat.mul_lt_mul_of_pos_right (by omega) (by positivity)
    · have := first.normal
      have := second.lt
      omega
  have scaled : (m * 2 ^ i : ℝ) < n * 2 ^ j := by exact_mod_cast scaled
  rw [zpow_sub₀ two_ne_zero, zpow_sub₀ two_ne_zero, ← mul_div_assoc, ← mul_div_assoc]
  exact div_lt_div_of_pos_right scaled (by positivity)

namespace Binary32

variable {x y : Binary32}

theorem IsUnsigned.rank_eq (unsigned : x.IsUnsigned) : x.rank = x.bits.toNat := if_pos unsigned

theorem IsUnsigned.value_cases (unsigned : x.IsUnsigned) (number : x.isNaN = false) :
    (∃ j m, Single x.bits.toNat j m ∧ x.reading.value? = some (m * 2 ^ (j - 149 : ℤ) : ℝ)) ∨
      x.bits.toNat = 0x7f800000 ∧ x.reading.value? = some ⊤ := by
  have same : x.magnitude = x.bits.toNat := Nat.mod_eq_of_lt unsigned
  rcases unsigned.isNonNegative.finite_or_infinity number with finite | rfl
  · obtain ⟨j, m, single⟩ := exists_single (magnitude_lt finite)
    have sign : x.isNegative = false := decide_eq_false (Nat.not_le.mpr unsigned)
    refine .inl ⟨j, m, same ▸ single, ?_⟩
    rw [reading_of_single single, sign]
    simp [Reading.value?]
  · exact .inr ⟨rfl, rfl⟩

end Binary32

theorem squaredL2_isUnsigned {a b : Vec} (nonempty : 0 < min a.size b.size) : (squaredL2 a b).IsUnsigned := by
  have terms : squaredGaps a b ≠ [] := by
    rw [← List.length_pos_iff, squaredGaps, Array.length_toList, Array.size_zipWith]
    exact nonempty
  have sum := Binary32.isUnsigned_sum (isUnsigned_squaredGaps a b) terms Binary32.isNonNegative_negativeZero
  rw [squaredL2_eq]
  dsimp only
  split
  · exact (by decide : (0x7f800000 : Nat) < 2 ^ 31)
  · exact sum

/-- The value of a distance between vectors that have something to compare. -/
def Measures (a b : Vec) (v : EReal) : Prop :=
  0 < min a.size b.size ∧ (squaredL2 a b).reading.value? = some v

namespace Measures

variable {a b c d : Vec} {v w : EReal}

theorem exists_value (nonempty : 0 < min a.size b.size) : ∃ v, Measures a b v ∧ 0 ≤ v := by
  rcases (squaredL2_isUnsigned nonempty).value_cases (squaredL2_isNaN a b) with ⟨j, m, -, value⟩ | ⟨-, value⟩
  · exact ⟨_, ⟨nonempty, value⟩, EReal.coe_nonneg.mpr (by positivity)⟩
  · exact ⟨_, ⟨nonempty, value⟩, le_top⟩

theorem lt_of_rank_lt (first : Measures a b v) (second : Measures c d w)
    (lt : (squaredL2 a b).rank < (squaredL2 c d).rank) : v < w := by
  have unsigned := squaredL2_isUnsigned first.1
  have unsigned' := squaredL2_isUnsigned second.1
  rw [unsigned.rank_eq, unsigned'.rank_eq, Nat.cast_lt] at lt
  rcases unsigned.value_cases (squaredL2_isNaN a b) with ⟨j, m, single, value⟩ | ⟨top, value⟩ <;>
    rcases unsigned'.value_cases (squaredL2_isNaN c d) with ⟨i, n, single', value'⟩ | ⟨top', value'⟩ <;>
    obtain rfl := Option.some.inj (first.2.symm.trans value) <;>
    obtain rfl := Option.some.inj (second.2.symm.trans value')
  case inl.inl => exact EReal.coe_lt_coe_iff.mpr (single.value_lt single' lt)
  case inl.inr => exact EReal.coe_lt_top _
  case inr.inl =>
    have := single'.eq
    have := single'.lt
    have := single'.finite
    omega
  case inr.inr => omega

theorem eq_of_rank_eq (first : Measures a b v) (second : Measures c d w)
    (eq : (squaredL2 a b).rank = (squaredL2 c d).rank) : v = w := by
  rw [(squaredL2_isUnsigned first.1).rank_eq, (squaredL2_isUnsigned second.1).rank_eq, Nat.cast_inj] at eq
  have value : (squaredL2 c d).reading.value? = some v := by
    rw [← first.2, Binary32.reading, Binary32.reading, eq]
  exact Option.some.inj (value.symm.trans second.2)

theorem rank_lt_iff (first : Measures a b v) (second : Measures c d w) :
    (squaredL2 a b).rank < (squaredL2 c d).rank ↔ v < w := by
  refine ⟨first.lt_of_rank_lt second, fun lt => ?_⟩
  rcases Int.lt_trichotomy (squaredL2 a b).rank (squaredL2 c d).rank with less | same | more
  · exact less
  · exact absurd (first.eq_of_rank_eq second same) lt.ne
  · exact absurd (second.lt_of_rank_lt first more) lt.asymm

theorem rank_eq_iff (first : Measures a b v) (second : Measures c d w) :
    (squaredL2 a b).rank = (squaredL2 c d).rank ↔ v = w := by
  refine ⟨first.eq_of_rank_eq second, ?_⟩
  rintro rfl
  have less := (first.rank_lt_iff second).not.mpr (lt_irrefl v)
  have more := (second.rank_lt_iff first).not.mpr (lt_irrefl v)
  omega

end Measures

/-- A distance is the same from both ends and always a number, infinity where some difference is not one. If there is
something to compare it has no sign, and the total order of such distances, by which hits are ranked, is that of their
values: what stands for the same value ties. -/
theorem squaredL2_well_ordered (a b : Vec) :
    squaredL2 a b = squaredL2 b a ∧
      (squaredL2 a b).isNaN = false ∧
      (∀ (i : Nat) (x y : Binary32), a[i]? = some x → b[i]? = some y → (x.sub y).isNaN →
        squaredL2 a b = .infinity) ∧
      (0 < min a.size b.size →
        (squaredL2 a b).bits.toNat < 2 ^ 31 ∧
          ∃ v, (squaredL2 a b).reading.value? = some v ∧ 0 ≤ v ∧
            ∀ c d : Vec, 0 < min c.size d.size → ∃ w, (squaredL2 c d).reading.value? = some w ∧
              ((squaredL2 a b).rank < (squaredL2 c d).rank ↔ v < w) ∧
              ((squaredL2 a b).rank = (squaredL2 c d).rank ↔ v = w)) := by
  refine ⟨squaredL2_comm a b, squaredL2_isNaN a b, fun i x y => squaredL2_infinity, fun nonempty => ?_⟩
  obtain ⟨v, first, nonneg⟩ := Measures.exists_value nonempty
  refine ⟨squaredL2_isUnsigned nonempty, v, first.2, nonneg, fun c d nonempty' => ?_⟩
  obtain ⟨w, second, -⟩ := Measures.exists_value nonempty'
  exact ⟨w, second.2, first.rank_lt_iff second, first.rank_eq_iff second⟩

/-- One against what is not a number; zero against minus zero, which is nearer than one against two and as near as one
against itself. -/
theorem squaredL2_well_ordered_ones :
    let one : Binary32 := ⟨0x3f800000⟩
    let two : Binary32 := ⟨0x40000000⟩
    let notNumber : Binary32 := ⟨0xffc00001⟩
    squaredL2 #[one, one] #[one, notNumber, one] = .infinity ∧
      squaredL2 #[.zero] #[.negativeZero] = .zero ∧
      ∃ v w, (squaredL2 #[.zero] #[.negativeZero]).reading.value? = some v ∧
        (squaredL2 #[one] #[two]).reading.value? = some w ∧ v < w ∧
        (squaredL2 #[one] #[one]).reading.value? = some v := by
  intro one two notNumber
  obtain ⟨-, -, infinite, -⟩ := squaredL2_well_ordered #[one, one] #[one, notNumber, one]
  obtain ⟨-, -, -, zero⟩ := squaredL2_well_ordered #[.zero] #[.negativeZero]
  obtain ⟨-, v, value, -, others⟩ := zero (by decide)
  obtain ⟨w, value', less, -⟩ := others #[one] #[two] (by decide)
  obtain ⟨u, value'', -, same⟩ := others #[one] #[one] (by decide)
  obtain rfl := same.mp (by decide +kernel)
  exact ⟨infinite 1 one notNumber rfl rfl (by decide +kernel), by decide +kernel, v, w, value, value',
    less.mp (by decide +kernel), value''⟩

end VectorGraph
