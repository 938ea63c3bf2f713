import Mathlib.Algebra.Order.Field.Rat
import Mathlib.Tactic.FieldSimp
import Mathlib.Tactic.Linarith
import Mathlib.Tactic.NormNum
import Mathlib.Tactic.Positivity
import Mathlib.Tactic.Ring

/-!
Bit patterns of binary64 magnitudes in their order. The value of a pattern, the point midway to the next one and
the pattern that a rational rounds to are defined without a largest exponent; an operation's result is the
lesser of that pattern and the infinite one. Rounding is monotone, it leaves values as they are, and it moves a
rational by at most half a unit, which bounds by how many patterns a slightly wrong rational can miss.
-/
namespace VectorGraph.Pattern

/-- The pattern of infinity. -/
def infinite : Nat := 2047 * 2 ^ 52

/-- The value of a pattern in multiples of the least positive one. -/
def units (p : Nat) : Nat := if p < 2 ^ 52 then p else (2 ^ 52 + p % 2 ^ 52) * 2 ^ (p / 2 ^ 52 - 1)

/-- The fields of a pattern: `p = j * 2 ^ 52 + m` stands for `m` multiples of `2 ^ j` units. -/
structure Splits (p j m : Nat) : Prop where
  eq : p = j * 2 ^ 52 + m
  le : m ≤ 2 ^ 53
  normal : j = 0 ∨ 2 ^ 52 ≤ m

theorem Splits.units_eq {p j m : Nat} (split : Splits p j m) : units p = m * 2 ^ j := by
  obtain ⟨rfl, le, normal⟩ := split
  unfold units
  rcases Nat.lt_or_ge (j * 2 ^ 52 + m) (2 ^ 52) with subnormal | large
  · obtain rfl : j = 0 := by omega
    rw [if_pos subnormal]
    simp
  rw [if_neg (by omega)]
  rcases Nat.lt_or_eq_of_le le with lt | rfl
  · have quotient : (j * 2 ^ 52 + m) / 2 ^ 52 = j + 1 := by omega
    have remainder : (j * 2 ^ 52 + m) % 2 ^ 52 = m - 2 ^ 52 := by omega
    rw [quotient, remainder, Nat.add_sub_cancel, show 2 ^ 52 + (m - 2 ^ 52) = m by omega]
  · have quotient : (j * 2 ^ 52 + 2 ^ 53) / 2 ^ 52 = j + 2 := by omega
    have remainder : (j * 2 ^ 52 + 2 ^ 53) % 2 ^ 52 = 0 := by omega
    rw [quotient, remainder, show j + 2 - 1 = j + 1 by omega]
    ring

theorem exists_splits (p : Nat) : ∃ j m, Splits p j m ∧ m < 2 ^ 53 := by
  rcases Nat.lt_or_ge p (2 ^ 52) with subnormal | normal
  · exact ⟨0, p, ⟨by omega, by omega, .inl rfl⟩, by omega⟩
  · exact ⟨p / 2 ^ 52 - 1, 2 ^ 52 + p % 2 ^ 52, ⟨by omega, by omega, .inr (by omega)⟩, by omega⟩

theorem Splits.succ {p j m : Nat} (split : Splits p j m) (lt : m < 2 ^ 53) : Splits (p + 1) j (m + 1) :=
  ⟨by rw [split.eq, Nat.add_assoc], lt, split.normal.imp_right (by omega)⟩

theorem Splits.pred {p j m : Nat} (split : Splits (p + 1) j (m + 1)) (above : j = 0 ∨ 2 ^ 52 ≤ m) : Splits p j m :=
  ⟨by have := split.eq; omega, by have := split.le; omega, above⟩

/-- The least significand of an exponent is twice as many multiples of half the unit. -/
theorem Splits.lower {p j : Nat} (split : Splits p (j + 1) (2 ^ 52)) : Splits p j (2 ^ 53) :=
  ⟨by rw [split.eq]; ring, by omega, by omega⟩

theorem Splits.upper {p j : Nat} (split : Splits p j (2 ^ 53)) : Splits p (j + 1) (2 ^ 52) :=
  ⟨by rw [split.eq]; ring, by omega, by omega⟩

theorem units_lt_succ (p : Nat) : units p < units (p + 1) := by
  obtain ⟨j, m, split, lt⟩ := exists_splits p
  rw [split.units_eq, (split.succ lt).units_eq]
  exact Nat.mul_lt_mul_of_pos_right (by omega) (by positivity)

theorem units_strictMono : StrictMono units := strictMono_nat_of_lt_succ units_lt_succ

/-- The next patterns are at least a unit apart. -/
theorem Splits.le_units_add {p j m : Nat} (split : Splits p j m) (i : Nat) : (m + i) * 2 ^ j ≤ units (p + i) := by
  induction i generalizing p j m with
  | zero => exact split.units_eq.ge
  | succ i ih =>
    rw [Nat.add_comm i, ← Nat.add_assoc, ← Nat.add_assoc]
    rcases Nat.lt_or_eq_of_le split.le with lt | rfl
    · exact ih (split.succ lt)
    · have next := ih (split.upper.succ (by omega))
      refine le_trans ?_ next
      rw [show (2 ^ 52 + 1 + i) * 2 ^ (j + 1) = 2 * (2 ^ 52 + 1 + i) * 2 ^ j by ring]
      exact Nat.mul_le_mul_right _ (by omega)

/-- Every number of at most 53 bits times a power of two is a value. -/
theorem exists_units_eq {m : Nat} (j : Nat) (le : m ≤ 2 ^ 53) : ∃ p, units p = m * 2 ^ j := by
  induction j generalizing m with
  | zero => exact ⟨m, (Splits.mk (by omega) le (.inl rfl)).units_eq⟩
  | succ j ih =>
    rcases Nat.lt_or_ge m (2 ^ 52) with small | normal
    · obtain ⟨p, eq⟩ := ih (m := 2 * m) (by omega)
      exact ⟨p, by rw [eq]; ring⟩
    · exact ⟨(j + 1) * 2 ^ 52 + m, (Splits.mk rfl le (.inr normal)).units_eq⟩

def least : ℚ := 2 ^ (-1074 : ℤ)

theorem least_pos : 0 < least := zpow_pos (by norm_num) _

def value (p : Nat) : ℚ := units p * least

/-- The point midway to the next value. -/
def mid (p : Nat) : ℚ := (value p + value (p + 1)) / 2

theorem value_strictMono : StrictMono value := fun p q lt =>
  mul_lt_mul_of_pos_right (by exact_mod_cast units_strictMono lt) least_pos

theorem value_zero : value 0 = 0 := by simp [value, units]

theorem value_lt_mid (p : Nat) : value p < mid p := by
  have := value_strictMono (Nat.lt_add_one p)
  unfold mid
  linarith

theorem mid_lt_value (p : Nat) : mid p < value (p + 1) := by
  have := value_strictMono (Nat.lt_add_one p)
  unfold mid
  linarith

theorem mid_strictMono : StrictMono mid :=
  strictMono_nat_of_lt_succ fun p => (mid_lt_value p).trans (value_lt_mid (p + 1))

variable {p j m a b n : Nat}

theorem natCast_mul_least (n : Nat) : ((n * 2 ^ 1074 : Nat) : ℚ) * least = n := by
  have units : (2 ^ 1074 : ℚ) * least = 1 := by
    rw [least, ← zpow_natCast, ← zpow_add₀ (by norm_num)]
    rfl
  rw [Nat.cast_mul, Nat.cast_pow, Nat.cast_two, mul_assoc, units, mul_one]

theorem value_eq_natCast (eq : units p = n * 2 ^ 1074) : value p = n := by
  rw [value, eq, natCast_mul_least]

theorem value_lt_natCast (lt : units p < n * 2 ^ 1074) : value p < n := by
  have lt : (units p : ℚ) < (n * 2 ^ 1074 : Nat) := Nat.cast_lt.2 lt
  have scaled := mul_lt_mul_of_pos_right lt least_pos
  rwa [natCast_mul_least, ← value] at scaled

theorem natCast_mul_le_value (le : b * (n * 2 ^ 1074) ≤ a * units p) : (b * n : ℚ) ≤ a * value p := by
  have le : ((b * (n * 2 ^ 1074) : Nat) : ℚ) ≤ (a * units p : Nat) := Nat.cast_le.2 le
  have scaled := mul_le_mul_of_nonneg_right le least_pos.le
  rwa [Nat.cast_mul, mul_assoc, natCast_mul_least, Nat.cast_mul, mul_assoc, ← value] at scaled

theorem value_le_natCast_mul (le : a * units p ≤ b * (n * 2 ^ 1074)) : (a * value p : ℚ) ≤ b * n := by
  have le : ((a * units p : Nat) : ℚ) ≤ (b * (n * 2 ^ 1074) : Nat) := Nat.cast_le.2 le
  have scaled := mul_le_mul_of_nonneg_right le least_pos.le
  rwa [Nat.cast_mul, mul_assoc, Nat.cast_mul, mul_assoc, natCast_mul_least, ← value] at scaled

def unit (j : Nat) : ℚ := 2 ^ j * least

theorem unit_pos (j : Nat) : 0 < unit j := mul_pos (by positivity) least_pos

theorem unit_succ (j : Nat) : unit (j + 1) = 2 * unit j := by
  unfold unit
  ring

theorem unit_eq_zpow {j : Nat} {t : Int} (exponent : t = j - 1074) : unit j = 2 ^ t := by
  rw [unit, least, exponent, sub_eq_add_neg, zpow_add₀ (by norm_num), zpow_natCast]

theorem Splits.value_eq (split : Splits p j m) : value p = m * unit j := by
  unfold value unit
  rw [split.units_eq]
  push_cast
  ring

theorem Splits.value_add_le (split : Splits p j m) (i : Nat) : (m + i) * unit j ≤ value (p + i) := by
  have le : ((m + i : Nat) * 2 ^ j : ℚ) ≤ units (p + i) := by exact_mod_cast split.le_units_add i
  push_cast at le
  unfold value unit
  rw [← mul_assoc]
  exact mul_le_mul_of_nonneg_right le least_pos.le

variable {r s : ℚ} {q : Nat}

/-- The value before is a unit below, or half of one where its exponent is the lesser. -/
theorem Splits.value_pred (split : Splits (q + 1) j m) :
    (j = 0 ∨ 2 ^ 52 < m) ∧ value q = (m - 1) * unit j ∨
      (0 < j ∧ m = 2 ^ 52) ∧ value q = (m - 1 / 2) * unit j := by
  by_cases inside : j = 0 ∨ 2 ^ 52 < m
  · obtain ⟨m, rfl⟩ := Nat.exists_eq_succ_of_ne_zero (by have := split.eq; omega : m ≠ 0)
    refine .inl ⟨inside, ?_⟩
    rw [(split.pred (by omega)).value_eq]
    push_cast
    ring
  · obtain ⟨j, rfl⟩ := Nat.exists_eq_succ_of_ne_zero (by omega : j ≠ 0)
    obtain rfl : m = 2 ^ 52 := by have := split.normal; omega
    refine .inr ⟨⟨j.succ_pos, rfl⟩, ?_⟩
    rw [(Splits.pred (m := 2 ^ 53 - 1) split.lower (by omega)).value_eq, unit_succ]
    norm_num
    ring

/-- A rational rounds to a pattern: no value is nearer, and of two equally near the even pattern is taken. -/
structure Nearest (r : ℚ) (p : Nat) : Prop where
  above : ∀ q, q + 1 = p → mid q ≤ r ∧ (p % 2 = 1 → mid q < r)
  below : r ≤ mid p ∧ (p % 2 = 1 → r < mid p)

theorem Nearest.le_of_le (nearest : Nearest r p) (nearest' : Nearest s q) (le : r ≤ s) : p ≤ q := by
  by_contra lt
  obtain ⟨p, rfl⟩ := Nat.exists_eq_succ_of_ne_zero (by omega : p ≠ 0)
  obtain ⟨least, strict⟩ := nearest.above p rfl
  obtain ⟨most, strict'⟩ := nearest'.below
  have far : mid q ≤ mid p := mid_strictMono.monotone (by omega)
  -- Between neighbours the midpoint belongs to the even one, and only one of them is even.
  rcases Nat.lt_or_ge q p with apart | near
  · have := mid_strictMono apart
    linarith
  · obtain rfl : q = p := by omega
    rcases Nat.mod_two_eq_zero_or_one q with even | odd
    · have := strict (by omega)
      linarith
    · have := strict' odd
      linarith

theorem Nearest.unique (nearest : Nearest r p) (nearest' : Nearest r q) : p = q :=
  le_antisymm (nearest.le_of_le nearest' le_rfl) (nearest'.le_of_le nearest le_rfl)

theorem nearest_value (p : Nat) : Nearest (value p) p where
  above q eq := by subst eq; exact ⟨(mid_lt_value q).le, fun _ => mid_lt_value q⟩
  below := ⟨(value_lt_mid p).le, fun _ => value_lt_mid p⟩

/-- What is within half a unit of a value rounds to it, where ties are at even multiples and a normal value's
exponent is no larger than that of the rational. -/
theorem Splits.nearest (split : Splits p j m) (normal : j = 0 ∨ 2 ^ 52 * unit j ≤ r)
    (near : |r - m * unit j| ≤ unit j / 2) (tie : |r - m * unit j| = unit j / 2 → m % 2 = 0) : Nearest r p := by
  have positive := unit_pos j
  have even : m % 2 = 0 → p % 2 = 0 := by
    have := split.eq
    omega
  have value := split.value_eq
  have next := split.value_add_le 1
  rw [abs_le] at near
  constructor
  · rintro q rfl
    rcases split.value_pred with ⟨-, previous⟩ | ⟨⟨some_exponent, rfl⟩, previous⟩
    · have least : mid q ≤ r := by
        unfold mid
        linarith [near.1]
      refine ⟨least, fun odd => lt_of_le_of_ne least fun same => ?_⟩
      have exact : r - m * unit j = -(unit j / 2) := by
        unfold mid at same
        linarith [near.1]
      have := even (tie (by rw [exact, abs_neg, abs_of_pos (by linarith)]))
      omega
    · have normal := normal.resolve_left some_exponent.ne'
      have above : mid q < r := by
        unfold mid
        push_cast at previous value
        linarith
      exact ⟨above.le, fun _ => above⟩
  · push_cast at next
    have most : r ≤ mid p := by
      unfold mid
      linarith [near.2]
    refine ⟨most, fun odd => lt_of_le_of_ne most fun same => ?_⟩
    have exact : r - m * unit j = unit j / 2 := by
      unfold mid at same
      linarith [near.2]
    have := even (tie (by rw [exact, abs_of_pos (by linarith)]))
    omega

/-- The value before is at most a unit below. -/
theorem Splits.le_value_pred (split : Splits (q + 1) j m) : (m - 1) * unit j ≤ value q := by
  have positive := unit_pos j
  rcases split.value_pred with ⟨-, previous⟩ | ⟨-, previous⟩ <;> linarith

theorem Nearest.sub_le (nearest : Nearest r p) (split : Splits p j m) (positive : 0 < p) :
    m * unit j - unit j / 2 ≤ r := by
  obtain ⟨q, rfl⟩ := Nat.exists_eq_succ_of_ne_zero positive.ne'
  have least := (nearest.above q rfl).1
  have previous := split.le_value_pred
  have value := split.value_eq
  unfold mid at least
  linarith

theorem Nearest.le_add (nearest : Nearest r p) (split : Splits p j m) (lt : m < 2 ^ 53) :
    r ≤ m * unit j + unit j / 2 := by
  have most := nearest.below.1
  have value := split.value_eq
  have next := (split.succ lt).value_eq
  unfold mid at most
  push_cast at next
  linarith

/-- A rational within a binade is rounded to a multiple of the binade's unit. -/
theorem Nearest.near (nearest : Nearest r p) (low : 2 ^ 52 * unit j ≤ r) (high : r ≤ 2 ^ 53 * unit j) :
    |value p - r| ≤ unit j / 2 := by
  have bottom : Splits (j * 2 ^ 52 + 2 ^ 52) j (2 ^ 52) := ⟨rfl, by omega, .inr le_rfl⟩
  have top : Splits (j * 2 ^ 52 + 2 ^ 53) j (2 ^ 53) := ⟨rfl, by omega, by omega⟩
  have above : j * 2 ^ 52 + 2 ^ 52 ≤ p :=
    (nearest_value _).le_of_le nearest (by rw [bottom.value_eq]; push_cast; exact low)
  have below : p ≤ j * 2 ^ 52 + 2 ^ 53 :=
    nearest.le_of_le (nearest_value _) (by rw [top.value_eq]; push_cast; exact high)
  have split : Splits p j (p - j * 2 ^ 52) := ⟨by omega, by omega, by omega⟩
  have least := nearest.sub_le split (by omega)
  rw [split.value_eq, abs_le]
  refine ⟨?_, by linarith⟩
  rcases Nat.lt_or_eq_of_le split.le with lt | carry
  · linarith [nearest.le_add split lt]
  · rw [carry]
    push_cast
    linarith [unit_pos j]

theorem Nearest.normal (nearest : Nearest r p) (normal : 2 ^ 52 * least ≤ r) : 2 ^ 52 ≤ p := by
  have split : Splits (2 ^ 52) 0 (2 ^ 52) := ⟨by omega, by omega, .inl rfl⟩
  have same : value (2 ^ 52) = 2 ^ 52 * least := by rw [split.value_eq, unit]; push_cast; ring
  exact (nearest_value _).le_of_le nearest (same.trans_le normal)

/-- The relative error of one rounding to 53 bits: `s` may be `r` after it. -/
structure Close (r s : ℚ) : Prop where
  high : (2 ^ 53 + 1) * s ≤ (2 ^ 53 + 2) * r
  low : 2 ^ 53 * r ≤ (2 ^ 53 + 1) * s

theorem Nearest.close (nearest : Nearest r p) (normal : 2 ^ 52 * least ≤ r) : Close r (value p) := by
  have large := nearest.normal normal
  obtain ⟨j, m, split, lt⟩ := exists_splits p
  have digits : 2 ^ 52 ≤ m := by have := split.eq; have := split.normal; omega
  have significand : (2 ^ 52 : ℚ) ≤ m := by exact_mod_cast digits
  have positive := unit_pos j
  have value := split.value_eq
  have next := (split.succ lt).value_eq
  push_cast at next
  have product := mul_nonneg (sub_nonneg.2 significand) positive.le
  obtain ⟨q, rfl⟩ := Nat.exists_eq_succ_of_ne_zero (by omega : p ≠ 0)
  have least := (nearest.above q rfl).1
  unfold mid at least
  constructor
  · rcases split.value_pred with ⟨either, previous⟩ | ⟨-, previous⟩
    · by_cases inside : 2 ^ 52 < m
      · have inside : (2 ^ 52 + 1 : ℚ) ≤ m := by exact_mod_cast inside
        linarith [mul_nonneg (sub_nonneg.2 inside) positive.le]
      · -- The least normal value itself, which the rational is no less than.
        obtain rfl : m = 2 ^ 52 := by omega
        obtain rfl := either.resolve_right inside
        rw [unit, pow_zero, one_mul] at value
        push_cast at value
        linarith [least_pos]
    · linarith
  · have most := nearest.below.1
    unfold mid at most
    linarith

/-- Two patterns on, midpoints have grown by more than two units of 53 bits. -/
theorem mid_lt_mid_add_two (p : Nat) : 2 ^ 53 * mid p < (2 ^ 53 - 2) * mid (p + 2) := by
  obtain ⟨j, m, split, lt⟩ := exists_splits p
  have positive := unit_pos j
  have value := split.value_eq
  have one := (split.succ lt).value_eq
  unfold mid
  push_cast at one
  -- The exponent changes before the third pattern from here, or it does not.
  rcases (by omega : m + 2 < 2 ^ 53 ∨ m = 2 ^ 53 - 2 ∨ m = 2 ^ 53 - 1) with inside | rfl | rfl
  · have two := ((split.succ lt).succ (by omega)).value_eq
    have three := (((split.succ lt).succ (by omega)).succ (by omega)).value_eq
    have significand : (m : ℚ) + 3 ≤ 2 ^ 53 := by exact_mod_cast (by omega : m + 3 ≤ 2 ^ 53)
    push_cast at two three
    rw [value, one, two, three]
    linarith [mul_nonneg (sub_nonneg.2 significand) positive.le]
  · have two := (split.succ lt).succ (by omega)
    have three := (two.upper.succ (by omega)).value_eq
    have two := two.value_eq
    rw [unit_succ] at three
    norm_num at value one two three
    rw [value, one, two, three]
    linarith
  · have one' := split.succ lt
    have two := (one'.upper.succ (by omega)).value_eq
    have three := ((one'.upper.succ (by omega)).succ (by omega)).value_eq
    rw [unit_succ] at two three
    norm_num at value one two three
    rw [value, one, two, three]
    linarith

/-- The relative error of two roundings: `s` is off from `r` by at most two units of 53 bits. -/
structure Within (r s : ℚ) : Prop where
  high : 2 ^ 53 * s ≤ (2 ^ 53 + 2) * r
  low : (2 ^ 53 - 2) * r ≤ 2 ^ 53 * s

theorem Close.pos {r s : ℚ} (close : Close r s) (positive : 0 < r) : 0 < s := by linarith [close.low]

theorem Close.mul {r s r' s' : ℚ} (close : Close r s) (close' : Close r' s') (positive : 0 < r)
    (positive' : 0 < r') : Within (r * r') (s * s') := by
  have above := close.pos positive
  have above' := close'.pos positive'
  have high := mul_le_mul close.high close'.high (by positivity) (by positivity)
  have low := mul_le_mul close.low close'.low (by positivity) (by positivity)
  have := mul_pos above above'
  have := mul_pos positive positive'
  exact ⟨by linarith, by linarith⟩

theorem Close.div {r s r' s' : ℚ} (close : Close r s) (close' : Close r' s') (positive : 0 < r)
    (positive' : 0 < r') : Within (r / r') (s / s') := by
  have above := close.pos positive
  have above' := close'.pos positive'
  have high := mul_le_mul close.high close'.low (by positivity) (by positivity)
  have low := mul_le_mul close.low close'.high (by positivity) (by positivity)
  have := mul_pos above positive'
  have := mul_pos positive above'
  constructor
  · rw [mul_div_assoc', mul_div_assoc', div_le_div_iff₀ above' positive']
    linarith
  · rw [mul_div_assoc', mul_div_assoc', div_le_div_iff₀ positive' above']
    linarith

theorem Within.div {r s t : ℚ} (within : Within r s) (positive : 0 < t) : Within (r / t) (s / t) := by
  constructor
  · rw [mul_div_assoc', mul_div_assoc']
    exact div_le_div_of_nonneg_right within.high positive.le
  · rw [mul_div_assoc', mul_div_assoc']
    exact div_le_div_of_nonneg_right within.low positive.le

/-- What is within two units of a rational rounds at most two patterns away from it. -/
theorem Nearest.within_two {d : ℚ} (nearest : Nearest d p) (nearest' : Nearest r q) (within : Within d r) :
    q ≤ p + 2 ∧ p ≤ q + 2 := by
  obtain ⟨high, low⟩ := within
  constructor
  · by_contra far
    obtain ⟨q, rfl⟩ := Nat.exists_eq_succ_of_ne_zero (by omega : q ≠ 0)
    have least := (nearest'.above q rfl).1
    have further : mid (p + 2) ≤ mid q := mid_strictMono.monotone (by omega)
    have most := nearest.below.1
    obtain ⟨j, m, split, lt⟩ := exists_splits p
    have positive := unit_pos j
    have two := split.value_add_le 2
    have three := split.value_add_le 3
    have lower : (m + 5 / 2) * unit j ≤ mid (p + 2) := by
      push_cast at two three
      unfold mid
      linarith
    have upper : mid p = (m + 1 / 2) * unit j := by
      rw [mid, split.value_eq, (split.succ lt).value_eq]
      push_cast
      ring
    have significand : (m : ℚ) + 1 ≤ 2 ^ 53 := by exact_mod_cast lt
    have product := mul_nonneg (sub_nonneg.2 significand) positive.le
    linarith
  · by_contra far
    obtain ⟨p, rfl⟩ := Nat.exists_eq_add_of_le' (by omega : 3 ≤ p)
    have least := (nearest.above (p + 2) rfl).1
    have further : mid q ≤ mid p := mid_strictMono.monotone (by omega)
    have most := nearest'.below.1
    have := mid_lt_mid_add_two p
    linarith

end VectorGraph.Pattern
