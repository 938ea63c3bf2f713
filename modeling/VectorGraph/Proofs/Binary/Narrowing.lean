import VectorGraph.Decimal
import VectorGraph.Proofs.Binary.Rounding

/-!
Narrowing binary64 to binary32. A number within half a unit of a binary32 one, and of the same binade, is shifted
to the unit's exponent, and rounded to the significand that it is nearest to.
-/
namespace VectorGraph.Pattern

open Float.Model Float.Model.UnpackedFloat

variable {a b m n j p : Nat} {e : Int} {s : Sign} {y : ℚ}

/-- The fields of a binary32 pattern: `p = j * 2 ^ 23 + m` stands for `m` multiples of `2 ^ (j - 149)`. -/
structure Single (p j m : Nat) : Prop where
  eq : p = j * 2 ^ 23 + m
  lt : m < 2 ^ 24
  normal : j = 0 ∨ 2 ^ 23 ≤ m
  finite : j < 254

theorem exists_single (finite : p < 255 * 2 ^ 23) : ∃ j m, Single p j m := by
  rcases Nat.lt_or_ge p (2 ^ 23) with subnormal | normal
  · exact ⟨0, p, by omega, by omega, .inl rfl, by omega⟩
  · exact ⟨p / 2 ^ 23 - 1, 2 ^ 23 + p % 2 ^ 23, by omega, by omega, .inr (by omega), by omega⟩

/-- The units of binary32 are among those of binary64. -/
theorem unit_single (j : Nat) : unit (j + 925) = 2 ^ (j - 149 : ℤ) := unit_eq_zpow (by push_cast; omega)

/-- What rounds to the nearest integer, and to the even one of two. -/
structure RoundsTo (y : ℚ) (n : Nat) : Prop where
  near : |y - n| ≤ 1 / 2
  even : |y - n| = 1 / 2 → n % 2 = 0

theorem RoundsTo.not_lt (first : RoundsTo y a) (second : RoundsTo y b) : ¬a < b := by
  intro lt
  have apart : (a + 1 : ℚ) ≤ b := by exact_mod_cast lt
  have low := (abs_le.mp first.near).2
  have high := (abs_le.mp second.near).1
  have tie : |y - a| = 1 / 2 := by
    rw [abs_of_nonneg (by linarith)]
    linarith
  have tie' : |y - b| = 1 / 2 := by
    rw [abs_of_nonpos (by linarith)]
    linarith
  have next : (b : ℚ) = (a + 1 : Nat) := by
    push_cast
    linarith
  have next : b = a + 1 := by exact_mod_cast next
  have := first.even tie
  have := second.even tie'
  omega

theorem RoundsTo.unique (first : RoundsTo y a) (second : RoundsTo y b) : a = b :=
  Nat.le_antisymm (Nat.not_lt.mp (second.not_lt first)) (Nat.not_lt.mp (first.not_lt second))

/-- Between two numbers, or one of them where the ends count. -/
structure Between (v low high : ℚ) (closed : Prop) : Prop where
  low : low < v ∨ v = low ∧ closed
  high : v < high ∨ v = high ∧ closed

namespace Between

variable {u v low high : ℚ} {closed : Prop}

theorem low_le (between : Between v low high closed) : low ≤ v := by
  rcases between.low with lt | ⟨rfl, -⟩
  · exact lt.le
  · exact le_rfl

theorem le_high (between : Between v low high closed) : v ≤ high := by
  rcases between.high with lt | ⟨rfl, -⟩
  · exact lt.le
  · exact le_rfl

theorem div (between : Between v (low * u) (high * u) closed) (positive : 0 < u) :
    Between (v / u) low high closed := by
  constructor
  · rw [lt_div_iff₀ positive, div_eq_iff positive.ne']
    exact between.low
  · rw [div_lt_iff₀ positive, div_eq_iff positive.ne']
    exact between.high

/-- A number between the midpoints around an integer, or at one of them where the integer is even. -/
theorem roundsTo (between : Between y (n - 1 / 2) (n + 1 / 2) (n % 2 = 0)) : RoundsTo y n := by
  constructor
  · rw [abs_le]
    constructor <;> linarith [between.low_le, between.le_high]
  · intro tie
    rcases between.low with low | ⟨-, even⟩
    · rcases between.high with high | ⟨-, even⟩
      · rcases abs_cases (y - n) with ⟨same, -⟩ | ⟨same, -⟩ <;> linarith
      · exact even
    · exact even

end Between

theorem targetExponent_single (n : Nat) (e : Int) :
    Format.binary32.targetExponent (totalExponent n e) = max (n.log2 + e - 23) (-149) := by
  have binade (e : Int) : Format.binary32.targetExponent e = max (e - 24) (-149) := rfl
  rw [binade, totalExponent]
  omega

theorem shiftToTargetExponent_single {t : Int} (target : max (n.log2 + e - 23) (-149) = t) (le : e ≤ t) :
    shiftToTargetExponent Format.binary32 n e .exact
      = (ExtendedMantissa.ofMantissaAndAccuracy n .exact >>> (t - e).toNat, t) := by
  rw [shiftToTargetExponent, shiftToExponent, targetExponent_single, target]
  simp only [Prod.mk.injEq, true_and]
  omega

theorem log2_bounds {u : Int} (positive : 0 < n) : (2 ^ u ≤ (n : ℚ) * 2 ^ e → u ≤ n.log2 + e) ∧
    ((n : ℚ) * 2 ^ e < 2 ^ u → n.log2 + e < u) := by
  have power : (0 : ℚ) < 2 ^ e := zpow_pos (by norm_num) e
  have low : ((2 : ℚ) ^ n.log2) ≤ n := by exact_mod_cast Nat.log2_self_le positive.ne'
  have high : (n : ℚ) < 2 ^ (n.log2 + 1) := by exact_mod_cast Nat.lt_log2_self
  have least := mul_le_mul_of_nonneg_right low power.le
  have most := mul_lt_mul_of_pos_right high power
  rw [← zpow_natCast, ← zpow_add₀ (by norm_num)] at least most
  constructor
  · intro le
    have := (zpow_lt_zpow_iff_right₀ (by norm_num)).mp (le.trans_lt most)
    push_cast at this
    omega
  · intro lt
    exact (zpow_lt_zpow_iff_right₀ (by norm_num)).mp (least.trans_lt lt)

theorem pack_single (s : Sign) (positive : 0 < m) (single : Single p j m) :
    (UnpackedFloat.pack Format.binary32 (.finite s m (j - 149) positive)).toNat
      = signBit .binary32 s + p := by
  obtain ⟨eq, lt, normal, finite⟩ := single
  have biased : ((j - 149 : Int) + Format.binary32.exponentBias
      + Format.binary32.mantissaBitsWithoutImplicit).toNat = j + 1 := by
    simp only [Format.exponentBias]
    norm_num
    omega
  have bits : m.log2 + 1 = Format.binary32.mantissaBits ↔ 2 ^ 23 ≤ m := by
    have := Nat.log2_eq_iff (k := 23) positive.ne'
    have width : Format.binary32.mantissaBits = 24 := rfl
    omega
  delta UnpackedFloat.pack
  simp only [biased]
  split
  · omega
  split
  · rw [packComponents_toNat, BitVec.toNat_ofNat, BitVec.toNat_ofNat]
    show _ + (j + 1) % 2 ^ 8 * 2 ^ 23 + m % 2 ^ 23 = _
    omega
  · rw [packComponents_toNat, BitVec.toNat_ofNat, BitVec.toNat_ofNat]
    show _ + 0 % 2 ^ 8 * 2 ^ 23 + m % 2 ^ 23 = _
    omega

theorem normalize_single (s : Sign) (positive : 0 < n) (e : Int) :
    UnpackedFloat.normalize Format.binary32 (s.apply n) e s = UnpackedFloat.round Format.binary32 s n e := by
  cases s with
  | positive =>
    have gt : compare (n : Int) 0 = .gt := compare_gt_iff_gt.mpr (by omega)
    simp only [UnpackedFloat.normalize, Sign.apply, gt, Int.toNat_natCast]
  | negative =>
    have lt : compare (-n : Int) 0 = .lt := compare_lt_iff_lt.mpr (by omega)
    simp only [UnpackedFloat.normalize, Sign.apply, lt, neg_neg, Int.toNat_natCast]

/-- A number of the binade of `j`, or below it where that is the least one, and the significand it is nearest to.
That may be the first one past the binade. -/
structure Narrows (v : ℚ) (j m : Nat) : Prop where
  positive : 0 < m
  low : j = 0 ∨ 2 ^ 23 * unit (j + 925) ≤ v
  high : v < 2 ^ 24 * unit (j + 925)
  rounds : RoundsTo (v / unit (j + 925)) m
  finite : j * 2 ^ 23 + m < 255 * 2 ^ 23

theorem Narrows.significand {v : ℚ} (narrows : Narrows v j m) : (j = 0 ∨ 2 ^ 23 ≤ m) ∧ m ≤ 2 ^ 24 := by
  have unit := unit_pos (j + 925)
  have near := abs_le.1 narrows.rounds.near
  rw [le_sub_iff_add_le, le_div_iff₀ unit, sub_le_iff_le_add, div_le_iff₀ unit] at near
  constructor
  · refine narrows.low.imp_right fun low => ?_
    have lt : (2 ^ 23 : ℚ) < m + 1 := lt_of_mul_lt_mul_right (by linarith) unit.le
    exact Nat.le_of_lt_succ (by exact_mod_cast lt)
  · have lt : (m : ℚ) < 2 ^ 24 + 1 := lt_of_mul_lt_mul_right (by linarith [narrows.high]) unit.le
    exact Nat.le_of_lt_succ (by exact_mod_cast lt)

section

variable {v : ℚ} (single : Single p j m) (positive : 0 < m)

include single positive

theorem Single.narrows (binade : j = 0 ∨ 2 ^ 23 * unit (j + 925) ≤ v)
    (between : Between v ((m - 1 / 2) * unit (j + 925)) ((m + 1 / 2) * unit (j + 925)) (m % 2 = 0)) :
    Narrows v j m := by
  have unit := unit_pos (j + 925)
  have small : (m + 1 : ℚ) ≤ 2 ^ 24 := by exact_mod_cast single.lt
  have scaled := mul_le_mul_of_nonneg_right small unit.le
  have finite := single.finite
  have lt := single.lt
  exact ⟨positive, binade, by linarith [between.le_high], (between.div unit).roundsTo, by omega⟩

theorem Single.narrows_of_ne (usual : ¬(m = 2 ^ 23 ∧ 0 < j))
    (between : Between v ((m - 1 / 2) * unit (j + 925)) ((m + 1 / 2) * unit (j + 925)) (m % 2 = 0)) :
    Narrows v j m := by
  refine single.narrows positive ((em (j = 0)).imp_right fun above => ?_) between
  have more : (2 ^ 23 + 1 : ℚ) ≤ m := by
    have := single.normal
    exact_mod_cast (by omega : 2 ^ 23 + 1 ≤ m)
  have unit := unit_pos (j + 925)
  have scaled := mul_le_mul_of_nonneg_right more unit.le
  linarith [between.low_le]

/-- Below the least number of a binade the units are those of the binade before. -/
theorem Single.narrows_least (least : m = 2 ^ 23 ∧ 0 < j)
    (between : Between v ((m - 1 / 4) * unit (j + 925)) ((m + 1 / 2) * unit (j + 925)) (m % 2 = 0)) :
    ∃ i n, i * 2 ^ 23 + n = p ∧ Narrows v i n := by
  have eq := single.eq
  have finite := single.finite
  obtain ⟨rfl, above⟩ := least
  obtain ⟨i, rfl⟩ : ∃ i, j = i + 1 := ⟨j - 1, by omega⟩
  have half : unit (i + 1 + 925) = 2 * unit (i + 925) := unit_succ (i + 925)
  have lesser := unit_pos (i + 925)
  have ends : ((2 ^ 23 : Nat) - 1 / 4) * unit (i + 1 + 925) = ((2 ^ 24 : Nat) - 1 / 2) * unit (i + 925) := by
    rw [half]
    push_cast
    ring
  rw [ends] at between
  rcases lt_or_ge v (2 ^ 23 * unit (i + 1 + 925)) with below | binade
  · have low := between.low_le
    rw [half] at below
    push_cast at low
    have closer : Between v (((2 ^ 24 : Nat) - 1 / 2) * unit (i + 925)) (((2 ^ 24 : Nat) + 1 / 2) * unit (i + 925))
        (2 ^ 24 % 2 = 0) := by
      refine ⟨between.low.imp_right fun ⟨tie, _⟩ => ⟨tie, by decide⟩, .inl ?_⟩
      push_cast
      linarith
    exact ⟨i, 2 ^ 24, by omega, by decide, .inr (by linarith), by linarith, (closer.div lesser).roundsTo, by omega⟩
  · have usual : Between v (((2 ^ 23 : Nat) - 1 / 2) * unit (i + 1 + 925))
        (((2 ^ 23 : Nat) + 1 / 2) * unit (i + 1 + 925)) (2 ^ 23 % 2 = 0) := by
      refine ⟨.inl ?_, between.high⟩
      push_cast
      linarith
    exact ⟨i + 1, 2 ^ 23, eq.symm, single.narrows positive (.inr binade) usual⟩

end

/-- The second shift leaves a significand of the binade as it is, and takes the first one past it to the next. -/
theorem Narrows.shifted {v : ℚ} (narrows : Narrows v j m) : ∃ i k, 0 < k ∧ Single (j * 2 ^ 23 + m) i k ∧
    shiftToTargetExponent Format.binary32 m (j - 149) .exact = (⟨k, false, false⟩, (i - 149 : Int)) := by
  have positive := narrows.positive
  have finite := narrows.finite
  obtain ⟨normal, most⟩ := narrows.significand
  rcases Nat.lt_or_eq_of_le most with lt | rfl
  · refine ⟨j, m, positive, ⟨rfl, lt, normal, by omega⟩, ?_⟩
    have same : max (m.log2 + (j - 149 : Int) - 23) (-149) = (j - 149 : Int) := by
      have few := (Nat.log2_lt positive.ne').mpr lt
      rcases normal with rfl | normal
      · omega
      · have := (Nat.le_log2 positive.ne').mpr normal
        omega
    rw [shiftToTargetExponent_single same le_rfl, sub_self]
    rfl
  · refine ⟨j + 1, 2 ^ 23, by decide, ⟨by omega, by decide, .inr le_rfl, by omega⟩, ?_⟩
    have next : max ((2 ^ 24 : Nat).log2 + (j - 149 : Int) - 23) (-149) = ((j + 1 : Nat) - 149 : Int) := by
      rw [Nat.log2_two_pow]
      omega
    have one : (((j + 1 : Nat) - 149 : Int) - (j - 149)).toNat = 1 := by omega
    rw [shiftToTargetExponent_single next (by omega), one]
    rfl

theorem pack_round_single (s : Sign) (positive : 0 < n) (le : e ≤ j - 149) (narrows : Narrows (n * 2 ^ e) j m) :
    (UnpackedFloat.pack Format.binary32 (UnpackedFloat.round Format.binary32 s n e)).toNat
      = signBit .binary32 s + (j * 2 ^ 23 + m) := by
  have low := narrows.low
  have high := narrows.high
  have target : max (n.log2 + e - 23) (-149) = (j - 149 : Int) := by
    rw [unit_single, ← zpow_ofNat, ← zpow_add₀ (by norm_num)] at low high
    have upper := (log2_bounds positive).2 high
    rcases low with rfl | low
    · push_cast at upper ⊢
      omega
    · have lower := (log2_bounds positive).1 low
      omega
  obtain ⟨k, shift⟩ : ∃ k, k = (j - 149 - e).toNat := ⟨_, rfl⟩
  have standsFor : StandsFor (ExtendedMantissa.ofMantissaAndAccuracy n .exact >>> k) ((n + 0) / 2 ^ k) :=
    (standsFor_of_describes describes_exact).shift k
  have fraction : ((n : ℚ) + 0) / 2 ^ k = n * 2 ^ e / unit (j + 925) := by
    have lands : (j - 149 : ℤ) = e + k := by omega
    rw [unit_single, lands, zpow_add₀ (by norm_num), zpow_natCast]
    field_simp
    ring
  rw [fraction] at standsFor
  have rounded : (ExtendedMantissa.ofMantissaAndAccuracy n .exact >>> k).roundedMantissa = m :=
    RoundsTo.unique ⟨standsFor.rounded.1, standsFor.rounded.2⟩ narrows.rounds
  have still : (e - (j - 149)).toNat = 0 := by omega
  obtain ⟨i, t, positive, single, shifted⟩ := narrows.shifted
  unfold UnpackedFloat.round decreaseExponent
  simp only [targetExponent_single, target, still, Nat.shiftLeft_zero, Nat.cast_zero, sub_zero]
  rw [roundWithAccuracy, shiftToTargetExponent_single target le, ← shift]
  dsimp only
  rw [rounded, shifted, dif_neg positive.ne']
  exact pack_single s positive single

theorem narrow_toNat {x : Binary64} {negative : Bool} (reading : x.reading = .finite negative n e) (positive : 0 < n)
    (le : e ≤ j - 149) (narrows : Narrows (n * 2 ^ e) j m) :
    x.narrow.bits.toNat = (if negative then 2 ^ 31 else 0) + (j * 2 ^ 23 + m) := by
  have round := pack_round_single (if negative then .negative else .positive) positive le narrows
  rw [← normalize_single _ positive] at round
  rw [Binary64.narrow, reading]
  cases negative <;> exact round

end VectorGraph.Pattern
