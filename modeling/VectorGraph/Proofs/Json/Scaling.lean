import VectorGraph.Json.Numeral
import VectorGraph.Proofs.Binary.Arithmetic
import VectorGraph.Proofs.Decimal
import VectorGraph.Proofs.Json.Numeral

/-!
The value of a numeral by its pattern. A significand is scaled by a power of ten in one rounded operation, or in
two quotients where the power is below the range of binary64. Two roundings before the last one leave a rational
that is off by at most two units of 53 bits, so the result is at most two patterns away from the one nearest to
the decimal; it is that one where significand and power are values themselves.
-/
namespace VectorGraph.Json.Numeral

open Pattern

variable {m e p x : Nat}

theorem powerOfTen_close (le : e ≤ 308) : ∃ p, Close (10 ^ e) (value p) ∧ 2 ^ 52 ≤ p ∧
    IsPositive (powerOfTen e) p ∧ (e ≤ 22 → value p = 10 ^ e) := by
  obtain ⟨p, nearest, normal, finite, exact⟩ := power_nearest le
  exact ⟨p, nearest.close (least_normal_le_one.trans (one_le_pow₀ (by norm_num))), normal, finite, exact⟩

theorem significand_close (positive : 0 < m) (lt : m < 2 ^ 64) : ∃ p, Close m (value p) ∧ 2 ^ 52 ≤ p ∧
    IsPositive m.toUInt64.toFloat p ∧ (m ≤ 2 ^ 53 → value p = m) := by
  obtain ⟨p, nearest, normal, -, finite⟩ := toFloat_nearest positive lt
  refine ⟨p, nearest.close (least_normal_le_one.trans (Nat.one_le_cast.2 positive)), normal, finite, fun le => ?_⟩
  obtain ⟨q, units⟩ := exists_units_eq 1074 le
  have exact := value_eq_natCast units
  rw [nearest.unique (exact ▸ nearest_value q), exact]

/-- A float whose pattern is near that of a decimal. -/
structure Near (f : Float) (x : Nat) : Prop where
  lt : bits f < infinite
  high : bits f ≤ x + 2
  low : x ≤ bits f + 2

theorem near_of_nearest {f : Float} {d r : ℚ} {q : Nat} (nearest : Nearest d x) (nearest' : Nearest r q)
    (within : Within d r) (eq : bits f = min q infinite) (room : x + 2 < infinite) : bits f = q ∧ Near f x := by
  obtain ⟨high, low⟩ := nearest.within_two nearest' within
  have eq : bits f = q := by omega
  exact ⟨eq, by omega, by omega, by omega⟩

theorem scale?_nonneg (positive : 0 < m) (lt : m < 2 ^ 64) (le : e ≤ 308) (nearest : Nearest (m * 10 ^ e) x)
    (room : x + 2 < infinite) : ∃ f, scale? ((e : Int).natAbs / 308 + 1) m.toUInt64.toFloat e = some f ∧
      Near f x ∧ (m ≤ 2 ^ 53 → e ≤ 22 → bits f = x) := by
  obtain ⟨p, close, normal, finite, exact⟩ := significand_close positive lt
  obtain ⟨q, close', normal', finite', exact'⟩ := powerOfTen_close le
  obtain ⟨r, nearest', eq⟩ := mul_nearest finite finite' normal
  have within := close.mul close' (by exact_mod_cast positive) (by positivity)
  obtain ⟨eq, near⟩ := near_of_nearest nearest nearest' within eq room
  refine ⟨_, ?_, near, fun small few => ?_⟩
  · simp [scale?, le, isInf_eq_false rfl near.lt]
  · rw [exact small, exact' few] at nearest'
    rw [eq, nearest'.unique nearest]

theorem scale?_neg (positive : 0 < m) (lt : m < 2 ^ 64) (one : 0 < e) (le : e ≤ 308)
    (nearest : Nearest (m / 10 ^ e) x) (room : x + 2 < infinite) :
    ∃ f, scale? ((-e : Int).natAbs / 308 + 1) m.toUInt64.toFloat (-e) = some f ∧
      Near f x ∧ (m ≤ 2 ^ 53 → e ≤ 22 → bits f = x) := by
  obtain ⟨p, close, normal, finite, exact⟩ := significand_close positive lt
  obtain ⟨q, close', normal', finite', exact'⟩ := powerOfTen_close le
  obtain ⟨r, nearest', eq⟩ := div_nearest finite finite'
  have within := close.div close' (by exact_mod_cast positive) (by positivity)
  obtain ⟨eq, near⟩ := near_of_nearest nearest nearest' within eq room
  refine ⟨_, ?_, near, fun small few => ?_⟩
  · have sign : ¬(0 : Int) ≤ -e := by omega
    simp [scale?, le, one.ne']
  · rw [exact small, exact' few] at nearest'
    rw [eq, nearest'.unique nearest]

/-- The pattern of the largest power of ten. -/
def largest : Nat := 2045 * 2 ^ 52 + 5010420900022432

theorem bits_largest : bits (powerOfTen 308) = largest := by decide +kernel

theorem splits_largest : Splits largest 2045 5010420900022432 := ⟨rfl, by norm_num, by norm_num⟩

/-- It is more than the power, by less than a tenth of half a unit. -/
theorem le_value_largest : 10 ^ 308 ≤ value largest := by
  have le : 1 * (10 ^ 308 * 2 ^ 1074) ≤ 1 * units largest := by decide +kernel
  have le := natCast_mul_le_value le
  rwa [Nat.cast_pow, Nat.cast_one, one_mul, one_mul, Nat.cast_ofNat] at le

theorem value_largest_le : 10 * 2 ^ 53 * value largest ≤ (10 * 2 ^ 53 + 1) * 10 ^ 308 := by
  have le : (10 * 2 ^ 53) * units largest ≤ (10 * 2 ^ 53 + 1) * (10 ^ 308 * 2 ^ 1074) := by decide +kernel
  have le := value_le_natCast_mul le
  rw [Nat.cast_pow, Nat.cast_ofNat] at le
  norm_num at le ⊢
  exact le

theorem within_div {t b : ℚ} (positive : 0 < t) (high : 2 ^ 53 * (b * t) ≤ (2 ^ 53 + 2) * m)
    (low : (2 ^ 53 - 2) * m ≤ 2 ^ 53 * (b * t)) : Within (m / t) b := by
  constructor
  · rwa [mul_div_assoc', le_div_iff₀ positive, mul_assoc]
  · rwa [mul_div_assoc', div_le_iff₀ positive, mul_assoc]

/-- Off by two units: a significand `m` is cut to `n` multiples of `g`, and its quotient `v` by the power `t`,
which is itself rounded to `h`, to a multiple of a unit that depends on whether `n` is below the power's own
significand. Where it is not, the error of `m` is relatively small, and where it is, that of the quotient. -/
theorem within_of_errors {g v t h : ℚ} {n : Nat} (unit : 0 < g) (nonneg : 0 ≤ v) (positive : 0 < t) (le : t ≤ h)
    (ge : 10 * 2 ^ 53 * h ≤ (10 * 2 ^ 53 + 1) * t) (normal : 2 ^ 52 ≤ n) (near : |m - n * g| ≤ g / 2)
    (errors : 5010420900022432 ≤ n ∧ |v * h - n * g| ≤ 5010420900022432 * g / 2 ^ 53 ∨
      |v * h - n * g| ≤ 5010420900022432 * g / 2 ^ 54) :
    Within (m / t) v := by
  have le := mul_le_mul_of_nonneg_left le nonneg
  have ge := mul_le_mul_of_nonneg_left ge nonneg
  rw [abs_le] at near
  rcases errors with ⟨large, near'⟩ | near' <;> rw [abs_le] at near'
  · have large : (5010420900022432 : ℚ) ≤ n := by exact_mod_cast large
    have := mul_le_mul_of_nonneg_right large unit.le
    exact within_div positive (by linarith) (by linarith)
  · have normal : (2 ^ 52 : ℚ) ≤ n := by exact_mod_cast normal
    have := mul_le_mul_of_nonneg_right normal unit.le
    exact within_div positive (by linarith) (by linarith)

theorem quotient_least : ∀ m < 3, 0 < m →
    let p := bits (m.toUInt64.toFloat / powerOfTen 308)
    0 < p ∧ p < infinite ∧ (2 ^ 53 * 10 ^ 308) * units p ≤ (2 ^ 53 + 2) * (m * 2 ^ 1074) ∧
      (2 ^ 53 - 2) * (m * 2 ^ 1074) ≤ (2 ^ 53 * 10 ^ 308) * units p := by
  decide +kernel

theorem quotient_small (positive : 0 < m) (lt : m < 3) : ∃ p,
    IsPositive (m.toUInt64.toFloat / powerOfTen 308) p ∧ Within (m / 10 ^ 308) (value p) := by
  obtain ⟨pos, finite, high, low⟩ := quotient_least m lt positive
  have high := value_le_natCast_mul high
  have low := natCast_mul_le_value low
  rw [Nat.cast_mul, Nat.cast_pow 10, Nat.cast_ofNat] at high low
  have positive' : (0 : ℚ) < 10 ^ 308 := by positivity
  generalize (10 : ℚ) ^ 308 = t at high low positive' ⊢
  push_cast at high low
  exact ⟨_, ⟨rfl, pos, finite⟩, within_div positive' (by linarith) (by linarith)⟩

/-- The significands from three on have quotients that are normal. -/
theorem binade_of_three_le {j n : Nat} (nearest : Nearest m p) (large : 3 ≤ m) (split : Splits p j n)
    (lt : n < 2 ^ 53) : 1024 ≤ j ∨ j = 1023 ∧ 5010420900022432 ≤ n := by
  have three : Splits (1023 * 2 ^ 52 + 3 * 2 ^ 51) 1023 (3 * 2 ^ 51) := ⟨rfl, by norm_num, by norm_num⟩
  have value : value (1023 * 2 ^ 52 + 3 * 2 ^ 51) = 3 := by
    rw [three.value_eq_zpow]
    norm_num
  have le : 1023 * 2 ^ 52 + 3 * 2 ^ 51 ≤ p :=
    (nearest_value _).le_of_le nearest (by rw [value]; exact_mod_cast large)
  have := split.eq
  omega

theorem unit_add (j k : Nat) : unit (j + k) = 2 ^ k * unit j := by
  unfold unit
  ring

theorem unit_largest_mul (j : Nat) : value largest * unit j = 5010420900022432 * unit (j + 971) := by
  have units : unit 2045 = 2 ^ 971 := by
    rw [unit_eq_zpow (t := 971) (by norm_num)]
    exact zpow_ofNat 2 971
  rw [splits_largest.value_eq, units, unit_add, mul_assoc]
  norm_num

/-- A quotient by the largest power is rounded to multiples of the unit of its binade. -/
theorem quotient_near {j r : Nat} {a : ℚ} (nearest : Nearest (a / value largest) r)
    (low : 2 ^ 52 * (5010420900022432 * unit (j + 971)) ≤ a)
    (high : a ≤ 2 ^ 53 * (5010420900022432 * unit (j + 971))) :
    |value r * value largest - a| ≤ 5010420900022432 * unit (j + 971) / 2 := by
  have positive : 0 < value largest := lt_of_lt_of_le (by positivity) le_value_largest
  have product := unit_largest_mul j
  have near := nearest.near (j := j) (by rw [le_div_iff₀ positive]; linarith)
    (by rw [div_le_iff₀ positive]; linarith)
  calc |value r * value largest - a| = |value r - a / value largest| * value largest := by
        rw [← abs_of_pos positive, ← abs_mul, abs_of_pos positive, sub_mul, div_mul_cancel₀ _ positive.ne']
    _ ≤ unit j / 2 * value largest := mul_le_mul_of_nonneg_right near positive.le
    _ = 5010420900022432 * unit (j + 971) / 2 := by linarith

theorem errors_of_nearest {J n r : Nat} (nearest : Nearest (n * unit J / value largest) r) (lt : n < 2 ^ 53)
    (normal : 2 ^ 52 ≤ n) (large : 1024 ≤ J ∨ J = 1023 ∧ 5010420900022432 ≤ n) :
    5010420900022432 ≤ n ∧ |value r * value largest - n * unit J| ≤ 5010420900022432 * unit J / 2 ^ 53 ∨
      |value r * value largest - n * unit J| ≤ 5010420900022432 * unit J / 2 ^ 54 := by
  have lt' : (n : ℚ) ≤ 2 ^ 53 := by exact_mod_cast lt.le
  have normal' : (2 ^ 52 : ℚ) ≤ n := by exact_mod_cast normal
  by_cases keeps : 5010420900022432 ≤ n
  · obtain ⟨j, rfl⟩ := Nat.exists_eq_add_of_le' (by omega : 1023 ≤ J)
    have keeps' : (5010420900022432 : ℚ) ≤ n := by exact_mod_cast keeps
    have same : unit (j + 1023) = 2 ^ 52 * unit (j + 971) := unit_add (j + 971) 52
    have positive := unit_pos (j + 971)
    have near := quotient_near (j := j) nearest (by rw [same]; nlinarith) (by rw [same]; nlinarith)
    exact .inl ⟨keeps, near.trans (by rw [same]; linarith)⟩
  · obtain ⟨j, rfl⟩ := Nat.exists_eq_add_of_le' (by omega : 1024 ≤ J)
    have drops : (n : ℚ) ≤ 5010420900022432 := by exact_mod_cast (by omega : n ≤ 5010420900022432)
    have same : unit (j + 1024) = 2 ^ 53 * unit (j + 971) := unit_add (j + 971) 53
    have positive := unit_pos (j + 971)
    have near := quotient_near (j := j) nearest (by rw [same]; nlinarith) (by rw [same]; nlinarith)
    exact .inr (near.trans (by rw [same]; linarith))

theorem quotient_within (positive : 0 < m) (lt : m < 2 ^ 64) : ∃ p,
    IsPositive (m.toUInt64.toFloat / powerOfTen 308) p ∧ Within (m / 10 ^ 308) (value p) := by
  rcases Nat.lt_or_ge m 3 with small | large
  · exact quotient_small positive small
  obtain ⟨p, nearest, normal, most, finite⟩ := toFloat_nearest positive lt
  obtain ⟨j, n, split, lt'⟩ := exists_splits p
  have finite' : IsPositive (powerOfTen 308) largest :=
    ⟨bits_largest, by norm_num [largest], by norm_num [largest, infinite]⟩
  obtain ⟨r, nearest', eq⟩ := div_nearest finite finite'
  have above : 0 < value largest := lt_of_lt_of_le (by positivity) le_value_largest
  have near : |m - n * unit j| ≤ unit j / 2 := by
    rw [abs_le]
    constructor <;> linarith [nearest.sub_le split (by omega), nearest.le_add split lt']
  have small : r ≤ 1023 * 2 ^ 52 := by
    have one : Splits (1023 * 2 ^ 52) 1022 (2 ^ 52) := ⟨rfl, by norm_num, .inr le_rfl⟩
    refine nearest'.le_of_le (nearest_value _) ?_
    have below : p ≤ largest := by
      unfold largest
      omega
    rw [one.value_eq_zpow, div_le_iff₀ above]
    norm_num
    exact value_strictMono.monotone below
  have normal : 2 ^ 52 ≤ n := by
    have := split.eq
    have := split.normal
    omega
  rw [split.value_eq] at nearest'
  have errors := errors_of_nearest nearest' lt' normal (binade_of_three_le nearest large split lt')
  have nonneg : 0 ≤ value r := mul_nonneg (Nat.cast_nonneg _) least_pos.le
  have within : Within (m / 10 ^ 308) (value r) :=
    within_of_errors (unit_pos j) nonneg (by positivity) le_value_largest value_largest_le normal near errors
  have nonzero : r ≠ 0 := by
    rintro rfl
    have low := within.low
    rw [value_zero, mul_zero] at low
    have exact : (0 : ℚ) < m / 10 ^ 308 := by positivity
    exact absurd low (not_le.2 (mul_pos (by norm_num) exact))
  exact ⟨r, ⟨by rw [eq]; unfold infinite; omega, by omega, by unfold infinite; omega⟩, within⟩

theorem scale?_far (positive : 0 < m) (lt : m < 2 ^ 64) (gt : 308 < e) (le : e ≤ 324)
    (nearest : Nearest (m / 10 ^ e) x) (room : x + 2 < infinite) :
    ∃ f, scale? ((-e : Int).natAbs / 308 + 1) m.toUInt64.toFloat (-e) = some f ∧ Near f x := by
  obtain ⟨_, -, -, finite, -⟩ := significand_close positive lt
  obtain ⟨p, finite', within⟩ := quotient_within positive lt
  obtain ⟨q, -, -, finite'', exact⟩ := powerOfTen_close (by omega : e - 308 ≤ 308)
  obtain ⟨r, nearest', eq⟩ := div_nearest finite' finite''
  rw [exact (by omega)] at nearest'
  have power : (10 : ℚ) ^ e = 10 ^ 308 * 10 ^ (e - 308) := by rw [← pow_add, Nat.add_sub_cancel' gt.le]
  rw [power, ← div_div] at nearest
  obtain ⟨eq, near⟩ := near_of_nearest nearest nearest' (within.div (by positivity)) eq room
  refine ⟨_, ?_, near⟩
  have steps : (-e : Int).natAbs / 308 + 1 = 1 + 1 := by omega
  rw [steps, scale?, if_neg (by omega), finite.beq_zero, if_neg (by simp), if_neg (by omega), scale?,
    if_pos (by omega), if_neg (by omega)]
  have rest : (-e + 308 : Int).natAbs = e - 308 := by omega
  rw [rest]

/-- A decimal in the range of finite numbers is scaled to a number near the one that it rounds to, and to that
number itself where its digits and its power of ten are values. -/
theorem scale?_near {d : Decimal} (positive : 0 < d.digits) (lt : d.digits < 2 ^ 64) (least : -324 ≤ d.exponent)
    (most : d.exponent ≤ 308) (nearest : Nearest d.value x) (room : x + 2 < infinite) :
    ∃ f, scale? (d.exponent.natAbs / 308 + 1) d.digits.toUInt64.toFloat d.exponent = some f ∧ Near f x ∧
      (d.digits ≤ 2 ^ 53 → d.exponent.natAbs ≤ 22 → bits f = x) := by
  obtain ⟨m, k⟩ := d
  dsimp only at positive lt least most ⊢
  rcases Int.lt_or_le k 0 with below | nonneg
  · obtain ⟨e, rfl⟩ := Int.exists_eq_neg_ofNat below.le
    have nearest : Nearest (m / 10 ^ e) x := by simpa [Decimal.value, div_eq_mul_inv] using nearest
    by_cases le : e ≤ 308
    · obtain ⟨f, scaled, near, exact⟩ := scale?_neg positive lt (by omega) le nearest room
      exact ⟨f, scaled, near, fun small few => exact small (by simpa using few)⟩
    · obtain ⟨f, scaled, near⟩ := scale?_far positive lt (by omega) (by omega) nearest room
      exact ⟨f, scaled, near, fun _ few => by simp at few; omega⟩
  · obtain ⟨e, rfl⟩ := Int.eq_ofNat_of_zero_le nonneg
    exact scale?_nonneg positive lt (by simpa using most) (by simpa [Decimal.value] using nearest) room

/-- The two largest finite numbers are read as the largest. -/
theorem scale?_largest : ∀ m, m = 2 ^ 53 - 1 ∨ m = 2 ^ 53 - 2 →
    let d := layout64.spelled (.shortest m 971 false)
    2 ^ 53 < d.digits ∧
      (scale? (d.exponent.natAbs / 308 + 1) d.digits.toUInt64.toFloat d.exponent).map bits = some (infinite - 1) := by
  rintro m (rfl | rfl) <;> decide +kernel

end VectorGraph.Json.Numeral
