import VectorGraph.Proofs.Binary.Rounding

/-!
The operations on binary64 numbers, by the patterns of their results. Whole numbers, products and quotients of
finite positive numbers are those of the exact results, rounded; powers of ten are rounded powers of ten.
-/
namespace VectorGraph.Pattern

open Float.Model Float.Model.UnpackedFloat

variable {x y : Float} {p q m : Nat} {s : Sign}

def bits (x : Float) : Nat := x.toBits.toNat

theorem bits_pack (f : UnpackedFloat) :
    bits (.ofModel (.pack f)) = (UnpackedFloat.pack Format.binary64 f).toNat := rfl

/-- A finite positive float has a pattern between zero and infinity. -/
structure IsPositive (x : Float) (p : Nat) : Prop where
  bits : bits x = p
  pos : 0 < p
  lt : p < infinite

theorem IsPositive.unpack (finite : IsPositive x p) : ∃ j m, ∃ positive : 0 < m, Splits p j m ∧ m < 2 ^ 53 ∧
    x.toModel.unpack = .finite .positive m (j - 1074) positive := by
  obtain ⟨j, m, split, lt⟩ := exists_splits p
  have positive : 0 < m := by
    have := split.eq
    have := split.normal
    have := finite.pos
    omega
  refine ⟨j, m, positive, split, lt, unpack_finite (p := p) ?_ split lt positive finite.lt⟩
  rw [signBit, Nat.zero_add]
  exact finite.bits

theorem Splits.value_eq_zpow {j : Nat} (split : Splits p j m) : value p = m * 2 ^ (j - 1074 : ℤ) := by
  rw [split.value_eq, unit_eq_zpow rfl]

theorem enough_shiftLeft {e : Int} (positive : 0 < m) :
    Enough (m <<< (e - target m e).toNat) (e - (e - target m e).toNat) := by
  have large : 2 ^ (m.log2 + (e - target m e).toNat) ≤ m <<< (e - target m e).toNat := by
    rw [Nat.shiftLeft_eq, pow_add]
    exact Nat.mul_le_mul_right _ (Nat.log2_self_le positive.ne')
  have log := (Nat.le_log2 (by have := Nat.two_pow_pos (m.log2 + (e - target m e).toNat); omega)).2 large
  unfold Enough
  unfold target at *
  omega

theorem shiftLeft_mul_zpow (m k : Nat) (e : Int) : ((m <<< k : Nat) : ℚ) * 2 ^ (e - k) = m * 2 ^ e := by
  rw [Nat.shiftLeft_eq, zpow_sub₀ (by norm_num), zpow_natCast]
  push_cast
  field_simp

theorem ofUInt64_eq {n : UInt64} (positive : 0 < n.toNat) :
    UnpackedFloat.ofUInt64 Format.binary64 n = roundWithAccuracy Format.binary64 .positive
      (n.toNat <<< (0 - target n.toNat 0).toNat) (0 - (0 - target n.toNat 0).toNat) .exact := by
  have gt : compare (n.toNat : Int) 0 = .gt := compare_gt_iff_gt.2 (by omega)
  simp only [UnpackedFloat.ofUInt64, UnpackedFloat.ofNat, UnpackedFloat.ofInt, UnpackedFloat.normalize, gt,
    UnpackedFloat.round, decreaseExponent, Int.toNat_natCast, targetExponent_eq]

theorem value_two_pow_64 : value (1087 * 2 ^ 52) = 2 ^ 64 := by
  have split : Splits (1087 * 2 ^ 52) 1086 (2 ^ 52) := ⟨by norm_num, by norm_num, .inr le_rfl⟩
  rw [split.value_eq_zpow]
  norm_num

theorem least_normal_le_one : 2 ^ 52 * least ≤ 1 := by
  rw [least, ← zpow_natCast, ← zpow_add₀ (by norm_num)]
  exact zpow_le_one_of_nonpos₀ (by norm_num) (by norm_num)

theorem toFloat_nearest {n : Nat} (positive : 0 < n) (lt : n < 2 ^ 64) :
    ∃ p, Nearest n p ∧ 2 ^ 52 ≤ p ∧ p ≤ 1087 * 2 ^ 52 ∧ IsPositive n.toUInt64.toFloat p := by
  have toNat : n.toUInt64.toNat = n := UInt64.toNat_ofNat_of_lt lt
  obtain ⟨p, nearest, packed⟩ := pack_round .positive (enough_shiftLeft (e := 0) positive) describes_exact
  rw [add_zero, shiftLeft_mul_zpow, zpow_zero, mul_one] at nearest
  have normal : 2 ^ 52 ≤ p := by
    exact nearest.normal (least_normal_le_one.trans (Nat.one_le_cast.2 positive))
  have finite : p ≤ 1087 * 2 ^ 52 := by
    refine nearest.le_of_le (nearest_value _) ?_
    rw [value_two_pow_64]
    exact_mod_cast lt.le
  refine ⟨p, nearest, normal, finite, ?_, by omega, by unfold infinite; omega⟩
  have eq := ofUInt64_eq (n := n.toUInt64) (toNat.symm ▸ positive)
  rw [toNat] at eq
  rw [UInt64.toFloat, Float.Model.ofUInt64, bits_pack, eq, packed]
  simp only [signBit, infinite]
  omega

theorem mul_nearest (finite : IsPositive x p) (finite' : IsPositive y q) (normal : 2 ^ 52 ≤ p) :
    ∃ r, Nearest (value p * value q) r ∧ bits (x * y) = min r infinite := by
  obtain ⟨j, m, positive, split, lt, unpack⟩ := finite.unpack
  obtain ⟨j', m', positive', split', lt', unpack'⟩ := finite'.unpack
  have enough : Enough (m * m') ((j - 1074) + (j' - 1074)) := by
    left
    rw [Nat.le_log2 (by positivity)]
    have large : 2 ^ 52 ≤ m := by
      have := split.eq
      have := split.normal
      omega
    exact large.trans (Nat.le_mul_of_pos_right m positive')
  obtain ⟨r, nearest, packed⟩ := pack_round .positive enough describes_exact
  refine ⟨r, ?_, ?_⟩
  · rw [add_zero, zpow_add₀ (by norm_num)] at nearest
    rw [split.value_eq_zpow, split'.value_eq_zpow]
    convert nearest using 1
    push_cast
    ring
  · have eq : x * y = .ofModel (.pack (UnpackedFloat.mul Format.binary64 x.toModel.unpack y.toModel.unpack)) := rfl
    rw [eq, bits_pack, unpack, unpack']
    exact packed.trans (Nat.zero_add _)

theorem describes_accuracyOfFraction {d : Nat} (positive : 0 < d) (n : Nat) :
    Describes (accuracyOfFraction (n % d) d) ((n % d : Nat) / d) := by
  have lt := Nat.mod_lt n positive
  generalize n % d = r at *
  have positive : (0 : ℚ) < d := by exact_mod_cast positive
  have lt : (r : ℚ) < d := by exact_mod_cast lt
  unfold accuracyOfFraction
  split
  · rename_i zero
    simp [Describes, zero]
  · rename_i nonzero
    have nonzero : (0 : ℚ) < r := by exact_mod_cast Nat.pos_of_ne_zero nonzero
    cases order : compare (2 * r) d with
    | lt =>
      have order : (2 * r : ℚ) < d := by exact_mod_cast compare_lt_iff_lt.1 order
      exact ⟨by positivity, by rw [div_lt_iff₀ positive]; linarith⟩
    | eq =>
      have order : (2 * r : ℚ) = d := by exact_mod_cast compare_eq_iff_eq.1 order
      show (r / d : ℚ) = 1 / 2
      rw [div_eq_iff positive.ne']
      linarith
    | gt =>
      have order : (d : ℚ) < 2 * r := by exact_mod_cast compare_gt_iff_gt.1 order
      exact ⟨by rw [lt_div_iff₀ positive]; linarith, by rwa [div_lt_one positive]⟩

def quotientExponent (m : Nat) (e : Int) (m' : Nat) (e' : Int) : Int :=
  min (e - e') (max (m.log2 + e - (m'.log2 + e') - 53) (-1074))

theorem divCore_eq (m m' : Nat) (e e' : Int) :
    divCore Format.binary64 m e m' e' =
      let t := quotientExponent m e m' e'
      let n := m <<< (e - e' - t).toNat
      (n / m', t, accuracyOfFraction (n % m') m') := by
  have target : Format.binary64.targetExponent (totalExponent m e - totalExponent m' e')
      = max (m.log2 + e - (m'.log2 + e') - 53) (-1074) := by
    rw [targetExponent_double, totalExponent, totalExponent]
    omega
  rw [divCore, target]
  rfl

theorem enough_quotient {m' : Nat} (positive : 0 < m) (positive' : 0 < m') (e e' : Int) :
    Enough (m <<< (e - e' - quotientExponent m e m' e').toNat / m') (quotientExponent m e m' e') := by
  by_cases small : quotientExponent m e m' e' ≤ -1074
  · exact .inr small
  left
  obtain ⟨k, shift⟩ : ∃ k, k = (e - e' - quotientExponent m e m' e').toNat := ⟨_, rfl⟩
  rw [← shift]
  have large : m'.log2 + 53 ≤ m.log2 + k := by
    unfold quotientExponent at *
    omega
  have quotient : 2 ^ 52 ≤ m <<< k / m' := by
    rw [Nat.le_div_iff_mul_le positive', Nat.shiftLeft_eq]
    calc 2 ^ 52 * m' ≤ 2 ^ 52 * 2 ^ (m'.log2 + 1) := Nat.mul_le_mul_left _ Nat.lt_log2_self.le
      _ = 2 ^ (m'.log2 + 53) := by ring
      _ ≤ 2 ^ (m.log2 + k) := Nat.pow_le_pow_right (by norm_num) large
      _ = 2 ^ m.log2 * 2 ^ k := pow_add ..
      _ ≤ m * 2 ^ k := Nat.mul_le_mul_right _ (Nat.log2_self_le positive.ne')
  exact (Nat.le_log2 (by omega)).2 quotient

/-- The digits of a quotient and the fraction that is left make up the quotient. -/
theorem quotient_eq {m' : Nat} (positive' : 0 < m') (e e' : Int) :
    (((m <<< (e - e' - quotientExponent m e m' e').toNat / m' : Nat) : ℚ)
        + (m <<< (e - e' - quotientExponent m e m' e').toNat % m' : Nat) / m')
        * 2 ^ quotientExponent m e m' e' = m * 2 ^ e / (m' * 2 ^ e') := by
  obtain ⟨k, shift⟩ : ∃ k, k = (e - e' - quotientExponent m e m' e').toNat := ⟨_, rfl⟩
  have exponent : quotientExponent m e m' e' = e - e' - k := by
    unfold quotientExponent at *
    omega
  rw [← shift, exponent]
  have whole := Nat.div_add_mod (m <<< k) m'
  have positive' : (0 : ℚ) < m' := by exact_mod_cast positive'
  have digits : ((m <<< k / m' : Nat) + (m <<< k % m' : Nat) / m' : ℚ) = (m <<< k : Nat) / m' := by
    rw [eq_div_iff positive'.ne', add_mul, div_mul_cancel₀ _ positive'.ne', mul_comm]
    exact_mod_cast whole
  rw [digits, div_mul_eq_mul_div, shiftLeft_mul_zpow, zpow_sub₀ (by norm_num)]
  field_simp

theorem div_nearest (finite : IsPositive x p) (finite' : IsPositive y q) :
    ∃ r, Nearest (value p / value q) r ∧ bits (x / y) = min r infinite := by
  obtain ⟨j, m, positive, split, lt, unpack⟩ := finite.unpack
  obtain ⟨j', m', positive', split', lt', unpack'⟩ := finite'.unpack
  obtain ⟨r, nearest, packed⟩ := pack_round .positive (enough_quotient positive positive' (j - 1074) (j' - 1074))
    (describes_accuracyOfFraction positive' _)
  refine ⟨r, ?_, ?_⟩
  · rw [split.value_eq_zpow, split'.value_eq_zpow]
    rwa [quotient_eq positive'] at nearest
  · have eq : x / y = .ofModel (.pack (UnpackedFloat.div Format.binary64 x.toModel.unpack y.toModel.unpack)) := rfl
    rw [eq, bits_pack, unpack, unpack']
    delta UnpackedFloat.div
    dsimp only
    rw [divCore_eq]
    exact packed.trans (Nat.zero_add _)

theorem bits_power : ∀ e < 23, units (bits (.ofScientific 1 false e)) = 10 ^ e * 2 ^ 1074 ∧
    2 ^ 52 ≤ bits (.ofScientific 1 false e) ∧ bits (.ofScientific 1 false e) < infinite := by
  decide +kernel

theorem powers_in_range : 1 * (10 ^ 308 * 2 ^ 1074) ≤ 1 * units (infinite - 1) := by decide +kernel

/-- A power that is not read off a table is rounded from 53 bits more than it has. -/
theorem ofScientific_eq {e : Nat} (large : 22 < e) (le : e ≤ 308) : Float.ofScientific 1 false e =
    .ofModel (.pack (roundWithAccuracy Format.binary64 .positive (1 <<< 53 * 10 ^ e) (-53 + 0) .exact)) := by
  unfold Float.ofScientific
  rw [dif_neg (by omega), if_neg Bool.false_ne_true]
  delta Float.Model.ofScientific UnpackedFloat.ofScientific
  dsimp only
  rw [dif_neg (by norm_num), if_neg (by simp; omega), if_neg (by simp; omega), if_pos (by simp)]
  rfl

theorem enough_power (e : Nat) : Enough (1 <<< 53 * 10 ^ e) (-53 + 0) := by
  left
  have positive := Nat.one_le_pow e 10 (by norm_num)
  rw [Nat.le_log2 (by omega)]
  omega

theorem power_mul_zpow (e : Nat) : ((1 <<< 53 * 10 ^ e : Nat) + 0 : ℚ) * 2 ^ (-53 + 0 : ℤ) = 10 ^ e := by
  have shift : (1 <<< 53 : Nat) = 2 ^ 53 := rfl
  rw [shift]
  push_cast
  norm_num
  ring

theorem power_le_value {e : Nat} (le : e ≤ 308) : (10 ^ e : ℚ) ≤ value (infinite - 1) := by
  have largest := natCast_mul_le_value powers_in_range
  rw [Nat.cast_one, one_mul, one_mul, Nat.cast_pow, Nat.cast_ofNat] at largest
  exact (pow_le_pow_right₀ (by norm_num) le).trans largest

/-- A power of ten is rounded as it is, and the first ones are exact. -/
theorem power_nearest {e : Nat} (le : e ≤ 308) : ∃ p, Nearest (10 ^ e) p ∧ 2 ^ 52 ≤ p ∧
    IsPositive (.ofScientific 1 false e) p ∧ (e ≤ 22 → value p = 10 ^ e) := by
  by_cases small : e ≤ 22
  · obtain ⟨units, normal, lt⟩ := bits_power e (by omega)
    have exact : value (bits (.ofScientific 1 false e)) = 10 ^ e := by
      rw [value_eq_natCast units, Nat.cast_pow, Nat.cast_ofNat]
    exact ⟨_, exact ▸ nearest_value _, normal, ⟨rfl, by omega, lt⟩, fun _ => exact⟩
  · obtain ⟨p, nearest, packed⟩ := pack_round .positive (enough_power e) describes_exact
    rw [power_mul_zpow] at nearest
    have normal : 2 ^ 52 ≤ p := nearest.normal (least_normal_le_one.trans (one_le_pow₀ (by norm_num)))
    have finite : p ≤ infinite - 1 := nearest.le_of_le (nearest_value _) (power_le_value le)
    have lt : p < infinite := by
      unfold infinite at *
      omega
    refine ⟨p, nearest, normal, ⟨?_, by omega, lt⟩, fun le => absurd le small⟩
    rw [ofScientific_eq (by omega) le, bits_pack, packed, signBit, Nat.zero_add, Nat.min_eq_left lt.le]

theorem bits_neg (eq : bits x = p) (lt : p < infinite) : bits (-x) = 2 ^ 63 + p := by
  have negated : -x = .ofModel (.pack x.toModel.unpack.neg) := rfl
  rw [negated, bits_pack]
  rcases Nat.eq_zero_or_pos p with rfl | pos
  · have zero : x.toModel.unpack = .zero .positive := unpack_zero eq
    rw [zero]
    exact packedZero_toNat .negative
  · obtain ⟨j, m, positive, split, lt', unpack⟩ := (IsPositive.mk eq pos lt).unpack
    rw [unpack]
    exact (pack_finite_toNat .negative positive split lt' rfl).trans (by rw [Nat.min_eq_left lt.le]; rfl)

theorem isInf_eq_false (eq : bits x = p) (lt : p < infinite) : x.isInf = false := by
  have test : x.isInf = x.toModel.unpack.isInf := rfl
  rw [test]
  rcases Nat.eq_zero_or_pos p with rfl | pos
  · have zero : x.toModel.unpack = .zero .positive := unpack_zero eq
    rw [zero]
    rfl
  · obtain ⟨j, m, positive, split, lt', unpack⟩ := (IsPositive.mk eq pos lt).unpack
    rw [unpack]
    rfl

theorem IsPositive.beq_zero (finite : IsPositive x p) : (x == 0) = false := by
  obtain ⟨j, m, positive, split, lt, unpack⟩ := finite.unpack
  have zero : (0 : Float).toModel.unpack = .zero .positive := unpack_zero (by decide +kernel)
  have test : (x == 0) = x.toModel.unpack.beq (0 : Float).toModel.unpack := rfl
  rw [test, unpack, zero]
  rfl

end VectorGraph.Pattern
