import VectorGraph.Proofs.Binary.Pattern

/-!
Rounding as binary64 arithmetic does it: the significand is shifted to the exponent of the result with two bits
that tell of what was cut off, rounded by them, and packed into fields. What is packed is the pattern that the
exact rational rounds to, or infinity where that pattern is past the finite ones.
-/
namespace VectorGraph.Pattern

open Float.Model Float.Model.UnpackedFloat

/-- What an accuracy tells of the part that was cut off. -/
def Describes : Accuracy → ℚ → Prop
  | .exact, f => f = 0
  | .inexact .lt, f => 0 < f ∧ f < 1 / 2
  | .inexact .eq, f => f = 1 / 2
  | .inexact .gt, f => 1 / 2 < f ∧ f < 1

theorem describes_exact : Describes .exact 0 := rfl

/-- An extended significand stands for a rational that it is cut off from. -/
def StandsFor (em : ExtendedMantissa) (y : ℚ) : Prop := Describes em.accuracy (y - em.mantissa)

variable {em : ExtendedMantissa} {y f : ℚ} {m k : Nat} {acc : Accuracy}

theorem standsFor_of_describes (describes : Describes acc f) :
    StandsFor (.ofMantissaAndAccuracy m acc) (m + f) := by
  unfold StandsFor
  rcases acc with _ | (_ | _ | _) <;>
    simpa [ExtendedMantissa.ofMantissaAndAccuracy, ExtendedMantissa.accuracy] using describes

theorem StandsFor.shiftRightOne (standsFor : StandsFor em y) : StandsFor em.shiftRightOne (y / 2) := by
  obtain ⟨m, roundBit, stickyBit⟩ := em
  have halves := Nat.div_add_mod m 2
  have halves : (2 * (m / 2 : Nat) + (m % 2 : Nat) : ℚ) = m := by exact_mod_cast halves
  unfold StandsFor ExtendedMantissa.shiftRightOne at *
  rcases Nat.mod_two_eq_zero_or_one m with bit | bit <;> rw [bit] at halves ⊢ <;> push_cast at halves <;>
    cases roundBit <;> cases stickyBit <;>
    simp only [ExtendedMantissa.accuracy, Describes, bne_self_eq_false, Bool.or_self, Bool.or_true, Bool.or_false,
      show (1 != 0) = true from rfl, le_antisymm_iff] at standsFor ⊢ <;>
    obtain ⟨low, high⟩ := standsFor <;> constructor <;> linarith

theorem shift_succ (em : ExtendedMantissa) (k : Nat) : em >>> (k + 1) = (em >>> k).shiftRightOne := rfl

theorem StandsFor.shift (standsFor : StandsFor em y) (k : Nat) : StandsFor (em >>> k) (y / 2 ^ k) := by
  induction k with
  | zero =>
    rw [pow_zero, div_one]
    exact standsFor
  | succ k ih =>
    rw [shift_succ, pow_succ, ← div_div]
    exact ih.shiftRightOne

theorem mantissa_shift (em : ExtendedMantissa) (k : Nat) : (em >>> k).mantissa = em.mantissa / 2 ^ k := by
  induction k with
  | zero => simp [HShiftRight.hShiftRight, Nat.repeat]
  | succ k ih =>
    rw [shift_succ, ExtendedMantissa.shiftRightOne, ih, Nat.div_div_eq_div_mul, pow_succ]

/-- The rounded significand is an integer nearest to the rational, and the even one of two. -/
theorem StandsFor.rounded (standsFor : StandsFor em y) :
    |y - em.roundedMantissa| ≤ 1 / 2 ∧ (|y - em.roundedMantissa| = 1 / 2 → em.roundedMantissa % 2 = 0) := by
  obtain ⟨m, roundBit, stickyBit⟩ := em
  unfold StandsFor at standsFor
  cases roundBit <;> cases stickyBit <;>
    simp only [ExtendedMantissa.roundedMantissa, ExtendedMantissa.accuracy, Describes,
      Accuracy.roundToNearestEven] at standsFor ⊢
  · rw [standsFor, abs_zero]
    norm_num
  · rw [abs_of_pos standsFor.1]
    exact ⟨standsFor.2.le, fun same => by linarith⟩
  · rcases Nat.mod_two_eq_zero_or_one m with even | odd
    · rw [even, Nat.add_zero, standsFor, abs_of_pos (by norm_num)]
      exact ⟨le_rfl, fun _ => even⟩
    · rw [odd]
      push_cast
      rw [abs_of_neg (by linarith)]
      exact ⟨by linarith, fun _ => by omega⟩
  · push_cast
    rw [abs_of_neg (by linarith)]
    exact ⟨by linarith, fun same => by linarith⟩

theorem roundedMantissa_bounds (em : ExtendedMantissa) :
    em.mantissa ≤ em.roundedMantissa ∧ em.roundedMantissa ≤ em.mantissa + 1 := by
  obtain ⟨m, roundBit, stickyBit⟩ := em
  cases roundBit <;> cases stickyBit <;>
    simp [ExtendedMantissa.roundedMantissa, ExtendedMantissa.accuracy, Accuracy.roundToNearestEven]
  omega

/-- The exponent of the result, which is no less than that of subnormal numbers. -/
def target (m : Nat) (e : Int) : Int := max (m.log2 + e - 52) (-1074)

theorem targetExponent_double (e : Int) : Format.binary64.targetExponent e = max (e - 53) (-1074) := rfl

theorem targetExponent_eq (m : Nat) (e : Int) :
    Format.binary64.targetExponent (totalExponent m e) = target m e := by
  rw [targetExponent_double, totalExponent, target]
  omega

/-- The significand has the digits that the result needs. -/
def Enough (m : Nat) (e : Int) : Prop := 52 ≤ m.log2 ∨ e ≤ -1074

theorem Enough.le_target {e : Int} (enough : Enough m e) : e ≤ target m e := by
  unfold Enough at enough
  unfold target
  omega

theorem shiftToTargetExponent_eq (m : Nat) (e : Int) (acc : Accuracy) :
    shiftToTargetExponent Format.binary64 m e acc
      = (ExtendedMantissa.ofMantissaAndAccuracy m acc >>> (target m e - e).toNat, e + (target m e - e).toNat) := by
  rw [shiftToTargetExponent, shiftToExponent, targetExponent_eq]

theorem shiftToTargetExponent_small {e : Int} (small : m < 2 ^ 53) (normal : -1074 ≤ e) :
    shiftToTargetExponent Format.binary64 m e .exact = (⟨m, false, false⟩, e) := by
  have bits : m.log2 ≤ 52 := by
    rcases Nat.eq_zero_or_pos m with rfl | positive
    · simp
    · have := (Nat.log2_lt positive.ne').2 small
      omega
  have still : (target m e - e).toNat = 0 := by unfold target; omega
  rw [shiftToTargetExponent_eq, still]
  simp [ExtendedMantissa.ofMantissaAndAccuracy, HShiftRight.hShiftRight, Nat.repeat]

/-- One of 54 bits, which rounding up can leave, is halved. -/
theorem shiftToTargetExponent_carry {e : Int} (normal : -1074 ≤ e) :
    shiftToTargetExponent Format.binary64 (2 ^ 53) e .exact = (⟨2 ^ 52, false, false⟩, e + 1) := by
  have once : (target (2 ^ 53) e - e).toNat = 1 := by
    unfold target
    rw [Nat.log2_two_pow]
    omega
  rw [shiftToTargetExponent_eq, once]
  rfl

/-- The sign's place in a pattern. -/
def signBit (format : Format) : Sign → Nat
  | .positive => 0
  | .negative => 2 ^ (format.exponentBits + format.mantissaBitsWithoutImplicit)

theorem packComponents_toNat {format : Format} (s : Sign) (e : BitVec format.exponentBits)
    (m : BitVec format.mantissaBitsWithoutImplicit) : (packComponents format s e m).toNat =
      signBit format s + e.toNat * 2 ^ format.mantissaBitsWithoutImplicit + m.toNat := by
  have sign : s.toBitVec.toNat * 2 ^ format.exponentBits * 2 ^ format.mantissaBitsWithoutImplicit =
      signBit format s := by
    rw [Nat.mul_assoc, ← Nat.pow_add]
    cases s <;> simp [signBit, Sign.toBitVec]
  rw [packComponents, BitVec.toNat_append, BitVec.toNat_append, ← Nat.shiftLeft_add_eq_or_of_lt e.isLt,
    ← Nat.shiftLeft_add_eq_or_of_lt m.isLt, Nat.shiftLeft_eq, Nat.shiftLeft_eq, Nat.add_mul, sign]

theorem packedInfinity_toNat (s : Sign) : (packedInfinity Format.binary64 s).toNat = signBit .binary64 s + infinite := by
  rw [packedInfinity, packComponents_toNat]
  rfl

theorem packedZero_toNat (s : Sign) : (packedZero Format.binary64 s).toNat = signBit .binary64 s := by
  rw [packedZero, packComponents_toNat]
  rfl

theorem pack_finite_toNat {p j : Nat} {e : Int} (s : Sign) (positive : 0 < m) (split : Splits p j m)
    (lt : m < 2 ^ 53) (exponent : e = j - 1074) :
    (UnpackedFloat.pack Format.binary64 (.finite s m e positive)).toNat = signBit .binary64 s + min p infinite := by
  have eq := split.eq
  have normal := split.normal
  have biased : (e + Format.binary64.exponentBias + Format.binary64.mantissaBitsWithoutImplicit).toNat = j + 1 := by
    simp only [Format.exponentBias]
    norm_num
    omega
  have bits : m.log2 + 1 = Format.binary64.mantissaBits ↔ 2 ^ 52 ≤ m := by
    have := Nat.log2_eq_iff (k := 52) positive.ne'
    have width : Format.binary64.mantissaBits = 53 := rfl
    omega
  delta UnpackedFloat.pack
  simp only [biased]
  unfold infinite
  split
  · rw [packedInfinity_toNat, infinite]
    omega
  split
  · rw [packComponents_toNat, BitVec.toNat_ofNat, BitVec.toNat_ofNat]
    show _ + (j + 1) % 2 ^ 11 * 2 ^ 52 + m % 2 ^ 52 = _
    omega
  · rw [packComponents_toNat, BitVec.toNat_ofNat, BitVec.toNat_ofNat]
    show _ + 0 % 2 ^ 11 * 2 ^ 52 + m % 2 ^ 52 = _
    omega

theorem Describes.nonneg (describes : Describes acc f) : 0 ≤ f := by
  rcases acc with _ | (_ | _ | _) <;> simp only [Describes] at describes
  · exact describes.ge
  · exact describes.1.le
  · linarith
  · linarith [describes.1]

/-- What the first shift leaves has at most 53 bits, and no fewer unless the result is subnormal. -/
theorem Enough.shifted {e : Int} {j : Nat} (enough : Enough m e) (exponent : target m e = j - 1074) :
    m / 2 ^ (target m e - e).toNat < 2 ^ 53 ∧ (j = 0 ∨ 2 ^ 52 ≤ m / 2 ^ (target m e - e).toNat) := by
  have le := enough.le_target
  unfold Enough at enough
  unfold target at *
  constructor
  · rw [Nat.div_lt_iff_lt_mul (by positivity), ← pow_add]
    exact Nat.lt_log2_self.trans_le (Nat.pow_le_pow_right (by norm_num) (by omega))
  · by_cases subnormal : j = 0
    · exact .inl subnormal
    · right
      have positive : m ≠ 0 := by
        rintro rfl
        rw [Nat.log2_zero] at *
        omega
      rw [Nat.le_div_iff_mul_le (by positivity), ← pow_add]
      exact (Nat.pow_le_pow_right (by norm_num) (by omega)).trans (Nat.log2_self_le positive)

/-- Packing what the first shift leaves, rounded: the second shift only takes a carry back. -/
theorem pack_rounded {p j : Nat} {e t : Int} (s : Sign) (split : Splits p j em.roundedMantissa)
    (exponent : t = j - 1074) (first : shiftToTargetExponent Format.binary64 m e acc = (em, t)) :
    (UnpackedFloat.pack Format.binary64 (roundWithAccuracy Format.binary64 s m e acc)).toNat
      = signBit .binary64 s + min p infinite := by
  rw [roundWithAccuracy, first]
  dsimp only
  rcases Nat.lt_or_eq_of_le split.le with lt | carry
  · rw [shiftToTargetExponent_small lt (by omega : -1074 ≤ t)]
    by_cases empty : em.roundedMantissa = 0
    · have zero : p = 0 := by have := split.eq; have := split.normal; omega
      rw [dif_pos empty, zero, Nat.zero_min, Nat.add_zero]
      exact packedZero_toNat s
    · rw [dif_neg empty]
      exact pack_finite_toNat s _ split lt exponent
  · rw [carry, shiftToTargetExponent_carry (by omega : -1074 ≤ t)]
    rw [carry] at split
    exact pack_finite_toNat s (by norm_num) split.upper (by norm_num) (by omega)

theorem pack_round (s : Sign) {e : Int} (enough : Enough m e) (describes : Describes acc f) :
    ∃ p, Nearest ((m + f) * 2 ^ e) p ∧
      (UnpackedFloat.pack Format.binary64 (roundWithAccuracy Format.binary64 s m e acc)).toNat
        = signBit .binary64 s + min p infinite := by
  obtain ⟨j, exponent⟩ : ∃ j : Nat, target m e = j - 1074 := ⟨(target m e + 1074).toNat, by unfold target; omega⟩
  obtain ⟨k, shift⟩ : ∃ k, k = (target m e - e).toNat := ⟨_, rfl⟩
  have le := enough.le_target
  have lands : e + k = target m e := by omega
  obtain ⟨few, many⟩ := enough.shifted exponent
  rw [← shift] at few many
  let em := ExtendedMantissa.ofMantissaAndAccuracy m acc >>> k
  have cut : em.mantissa = m / 2 ^ k := by
    rw [mantissa_shift]
    rcases acc with _ | (_ | _ | _) <;> rfl
  have standsFor : StandsFor em ((m + f) / 2 ^ k) := (standsFor_of_describes describes).shift k
  obtain ⟨near, tie⟩ := standsFor.rounded
  have bounds := roundedMantissa_bounds em
  rw [cut] at bounds
  have split : Splits (j * 2 ^ 52 + em.roundedMantissa) j em.roundedMantissa := ⟨rfl, by omega, by omega⟩
  have positive := unit_pos j
  have same : (m + f) * 2 ^ e = (m + f) / 2 ^ k * unit j := by
    rw [unit_eq_zpow exponent, ← lands, zpow_add₀ (by norm_num), zpow_natCast]
    field_simp
  have apart : |(m + f) * 2 ^ e - em.roundedMantissa * unit j|
      = |(m + f) / 2 ^ k - em.roundedMantissa| * unit j := by
    rw [same, ← sub_mul, abs_mul, abs_of_pos positive]
  refine ⟨_, split.nearest ?_ ?_ ?_, pack_rounded s split exponent ?_⟩
  · refine many.imp_right fun many => ?_
    have many : (2 ^ 52 * 2 ^ k : ℚ) ≤ m := by
      exact_mod_cast (Nat.le_div_iff_mul_le (by positivity)).1 many
    rw [same]
    refine mul_le_mul_of_nonneg_right ?_ positive.le
    rw [le_div_iff₀ (by positivity)]
    linarith [describes.nonneg]
  · rw [apart]
    linarith [mul_le_mul_of_nonneg_right near positive.le]
  · rw [apart]
    exact fun same => tie (mul_right_cancel₀ positive.ne' (by linarith))
  · rw [shiftToTargetExponent_eq, ← shift, lands]

section

variable {format : Format} (b : BitVec format.numBits)

theorem unpackMantissa_toNat : (unpackMantissa b).toNat = b.toNat % 2 ^ format.mantissaBitsWithoutImplicit := by
  have width := Nat.sub_add_cancel format.hm
  simp [unpackMantissa, BitVec.extractLsb_toNat, width]

theorem unpackExponent_toNat :
    (unpackExponent b).toNat = b.toNat / 2 ^ format.mantissaBitsWithoutImplicit % 2 ^ format.exponentBits := by
  have width : format.mantissaBitsWithoutImplicit + format.exponentBits - 1 - format.mantissaBitsWithoutImplicit + 1 =
      format.exponentBits := by
    have := format.he
    omega
  simp [unpackExponent, BitVec.extractLsb_toNat, Nat.shiftRight_eq_div_pow, width]

theorem unpackSign_toNat : (unpackSign b).toNat =
    b.toNat / 2 ^ (format.mantissaBitsWithoutImplicit + format.exponentBits) % 2 := by
  delta unpackSign
  simp [BitVec.extractLsb_toNat, Nat.shiftRight_eq_div_pow]

end

variable {b : BitVec 64} {p j : Nat} {s : Sign}

theorem unpackMantissa_of_bits (bits : b.toNat = signBit .binary64 s + p) :
    (@unpackMantissa Format.binary64 b).toNat = p % 2 ^ 52 := by
  have field : (@unpackMantissa Format.binary64 b).toNat = b.toNat % 2 ^ 52 := @unpackMantissa_toNat .binary64 b
  rw [field, bits]
  cases s <;> simp only [signBit] <;> omega

theorem unpackExponent_of_bits (bits : b.toNat = signBit .binary64 s + p) (lt : p < 2 ^ 63) :
    (@unpackExponent Format.binary64 b).toNat = p / 2 ^ 52 := by
  have field : (@unpackExponent Format.binary64 b).toNat = b.toNat / 2 ^ 52 % 2 ^ 11 :=
    @unpackExponent_toNat .binary64 b
  rw [field, bits]
  cases s <;> simp only [signBit] <;> omega

theorem ofBitVec_unpackSign (bits : b.toNat = signBit .binary64 s + p) (lt : p < 2 ^ 63) :
    Sign.ofBitVec (@unpackSign Format.binary64 b) = s := by
  have sign : (@unpackSign Format.binary64 b).toNat = b.toNat / 2 ^ 63 % 2 := @unpackSign_toNat .binary64 b
  unfold Sign.ofBitVec
  cases s with
  | positive =>
    simp only [signBit] at bits
    rw [if_pos (BitVec.eq_of_toNat_eq (by rw [sign]; simp; omega))]
  | negative =>
    simp only [signBit] at bits
    rw [if_neg]
    intro same
    rw [same] at sign
    simp at sign
    omega

theorem unpack_finite {m : Nat} (bits : b.toNat = signBit .binary64 s + p) (split : Splits p j m) (lt : m < 2 ^ 53)
    (positive : 0 < m) (finite : p < infinite) :
    UnpackedFloat.unpack Format.binary64 b = .finite s m (j - 1074) positive := by
  have eq := split.eq
  have normal := split.normal
  unfold infinite at finite
  have fraction := unpackMantissa_of_bits bits
  have exponent := unpackExponent_of_bits bits (by omega)
  have below : @unpackExponent Format.binary64 b ≠ -1#11 := by
    intro same
    rw [same] at exponent
    simp at exponent
    omega
  unfold UnpackedFloat.unpack
  rw [if_neg below, ofBitVec_unpackSign bits (by omega)]
  by_cases subnormal : @unpackExponent Format.binary64 b = 0#11
  · rw [subnormal, BitVec.toNat_ofNat, Nat.zero_mod] at exponent
    have some_bit : @unpackMantissa Format.binary64 b ≠ 0#52 := by
      intro same
      rw [same, BitVec.toNat_ofNat, Nat.zero_mod] at fraction
      omega
    rw [if_pos subnormal, dif_neg some_bit, UnpackedFloat.finite.injEq, subnormal]
    refine ⟨rfl, by omega, ?_⟩
    simp [Format.exponentBias]
    omega
  · have some_exponent : p / 2 ^ 52 ≠ 0 := by
      intro zero
      exact subnormal (BitVec.eq_of_toNat_eq (by rw [exponent, zero]; rfl))
    have significand : (1#1 ++ @unpackMantissa Format.binary64 b).toNat = 2 ^ 52 + p % 2 ^ 52 := by
      rw [BitVec.toNat_append, ← Nat.shiftLeft_add_eq_or_of_lt (BitVec.isLt _), fraction]
      rfl
    rw [if_neg subnormal, UnpackedFloat.finite.injEq, exponent]
    refine ⟨rfl, by omega, ?_⟩
    simp [Format.exponentBias]
    omega

theorem unpack_zero (bits : b.toNat = signBit .binary64 s) : UnpackedFloat.unpack Format.binary64 b = .zero s := by
  obtain rfl : b = packedZero Format.binary64 s := BitVec.eq_of_toNat_eq (by rw [bits, packedZero_toNat])
  cases s <;> rfl

end VectorGraph.Pattern
