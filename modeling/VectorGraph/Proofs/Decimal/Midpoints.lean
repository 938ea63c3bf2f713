import VectorGraph.Proofs.Binary.Narrowing
import VectorGraph.Proofs.Decimal

/-!
How near a decimal comes to a midpoint of binary32 numbers. A decimal that is written of such a number has few
digits, and is a multiple of the least power of ten that is no less than the number's unit, or else the tenth of
that power that is nearest to the number. Multiples of one power of ten are told from midpoints by two fractions,
neighbours among those with small denominators, on either side of the ratio of the power to half the unit. The
ends about a power of two are few, and each is compared with the multiples next to it.
-/
namespace VectorGraph

open Pattern RoundingSpan

variable {a b m n j p : Nat}

/-- Two numbers further apart than two units of 53 bits, relative to the first. -/
def Clear {R : Type} [Semiring R] [LT R] (d t : R) : Prop :=
  2 ^ 53 * t + 2 * d < 2 ^ 53 * d ∨ 2 ^ 53 * d + 2 * d < 2 ^ 53 * t

instance (d t : Nat) : Decidable (Clear d t) := inferInstanceAs (Decidable (_ ∨ _))

section

variable {u v : ℚ} (ratio : u * b = a * v) (positive : 0 < v)

include ratio

theorem mul_eq_of_ratio (eq : n * a = m * b) (denominator : 0 < b) : n * u = m * v := by
  have denominator : (0 : ℚ) < b := by exact_mod_cast denominator
  have eq : (n : ℚ) * a = m * b := by exact_mod_cast eq
  refine mul_right_cancel₀ denominator.ne' ?_
  linear_combination n * ratio + v * eq

include positive

theorem mul_lt_of_ratio (lt : n * u < m * v) (denominator : 0 < b) : n * a < m * b := by
  have denominator : (0 : ℚ) < b := by exact_mod_cast denominator
  have same : n * u * b = n * a * v := by rw [mul_assoc, ratio, mul_assoc]
  have scaled := mul_lt_mul_of_pos_right lt denominator
  have lt : (n * a : ℚ) < m * b := lt_of_mul_lt_mul_right (by linarith) positive.le
  exact_mod_cast lt

theorem Clear.of_ratio (clear : Clear (n * a) (m * b)) (denominator : 0 < b) : Clear (n * u) (m * v) := by
  have denominator : (0 : ℚ) < b := by exact_mod_cast denominator
  have same : n * u * b = n * a * v := by rw [mul_assoc, ratio, mul_assoc]
  have clear : Clear (n * a : ℚ) (m * b) := by
    unfold Clear at *
    exact_mod_cast clear
  refine clear.imp (fun below => ?_) fun above => ?_
  · have scaled := mul_lt_mul_of_pos_right below positive
    exact lt_of_mul_lt_mul_right (by linarith) denominator.le
  · have scaled := mul_lt_mul_of_pos_right above positive
    exact lt_of_mul_lt_mul_right (by linarith) denominator.le

end

/-- Two fractions, `p / q` and above it `r / s`. -/
structure Bracket where
  p : Nat
  q : Nat
  r : Nat
  s : Nat

namespace Bracket

/-- Raises the lower fraction towards the upper one while it is no more than `a / b` and the denominators add up
to less than is needed. -/
def raise (a b need : Nat) : Bracket → Bracket
  | ⟨p, q, r, s⟩ =>
    let t := min ((a * q - b * p) / (b * r - a * s)) ((need - q - 1) / s)
    ⟨p + t * r, q + t * s, r, s⟩

/-- Lowers the upper fraction likewise, while it is more than `a / b`. -/
def lower (a b need : Nat) : Bracket → Bracket
  | ⟨p, q, r, s⟩ =>
    let most := (need - s - 1) / q
    let t := if a * q = b * p then most else min ((b * r - a * s - 1) / (a * q - b * p)) most
    ⟨p, q, r + t * p, s + t * q⟩

def search (a b need : Nat) : (rounds : Nat) → Bracket → Bracket
  | 0, x => x
  | rounds + 1, x => search a b need rounds ((x.raise a b need).lower a b need)

/-- The fractions are neighbours on either side of `a / b`, with no fraction of a small denominator between them.
The lower one is clear of the ratio unless it is the ratio itself, and the upper one unless it is a large one. -/
structure Encloses (x : Bracket) (a b : Nat) : Prop where
  adjacent : x.r * x.q = x.p * x.s + 1
  low : x.p * b ≤ x.q * a
  high : x.s * a < x.r * b
  small : x.q < 2 ^ 27 ∧ x.s < 2 ^ 27
  wide : 2 ^ 25 * b ≤ (x.q + x.s) * a
  clear_low : Clear (x.q * a) (x.p * b) ∨ x.p * b = x.q * a
  clear_high : Clear (x.s * a) (x.r * b) ∨ 2 ^ 24 ≤ x.r

instance (x : Bracket) (a b : Nat) : Decidable (x.Encloses a b) :=
  decidable_of_iff (x.r * x.q = x.p * x.s + 1 ∧ x.p * b ≤ x.q * a ∧ x.s * a < x.r * b ∧
      (x.q < 2 ^ 27 ∧ x.s < 2 ^ 27) ∧ 2 ^ 25 * b ≤ (x.q + x.s) * a ∧
      (Clear (x.q * a) (x.p * b) ∨ x.p * b = x.q * a) ∧ (Clear (x.s * a) (x.r * b) ∨ 2 ^ 24 ≤ x.r))
    ⟨fun ⟨adjacent, low, high, small, wide, clear_low, clear_high⟩ =>
      ⟨adjacent, low, high, small, wide, clear_low, clear_high⟩,
    fun x => ⟨x.adjacent, x.low, x.high, x.small, x.wide, x.clear_low, x.clear_high⟩⟩

variable {x : Bracket}

namespace Encloses

variable (encloses : x.Encloses a b)

include encloses

theorem q_pos : 0 < x.q := by
  have := encloses.adjacent
  rw [Nat.pos_iff_ne_zero]
  intro zero
  simp [zero] at this

/-- A fraction whose denominator is less than the sum of theirs is not between neighbours. -/
theorem outside (few : n < x.q + x.s) : m * x.q ≤ x.p * n ∨ x.r * n ≤ m * x.s := by
  by_contra inside
  rw [not_or, not_le, not_le] at inside
  have first := Nat.mul_le_mul_right x.s (Nat.succ_le_of_lt inside.1)
  have second := Nat.mul_le_mul_right x.q (Nat.succ_le_of_lt inside.2)
  have adjacent : x.r * x.q * n = (x.p * x.s + 1) * n := by rw [encloses.adjacent]
  nlinarith

/-- A fraction below the lower one is clear of the ratio. Where the lower one is the ratio itself, it is off by at
least one over the product of the denominators. -/
theorem clear_below (positive : 0 < n) (below : m * x.q ≤ x.p * n) (few : n * a < 2 ^ 25 * b) :
    Clear (n * a) (m * b) ∨ m * b = n * a ∧ x.p * b = x.q * a := by
  have denominator := encloses.q_pos
  have low := encloses.low
  have scaled := Nat.mul_le_mul_right b below
  rcases encloses.clear_low with (strict | strict) | exact
  · left; left
    have strict := Nat.mul_lt_mul_of_pos_left strict positive
    nlinarith
  · omega
  · rcases Nat.lt_or_eq_of_le below with lt | eq
    · left; left
      have lt := Nat.mul_le_mul_right b (Nat.succ_le_of_lt lt)
      have small := encloses.small.1
      nlinarith
    · right
      have same : m * b * x.q = n * a * x.q := by
        calc m * b * x.q = m * x.q * b := by ring
          _ = x.p * b * n := by rw [eq]; ring
          _ = n * a * x.q := by rw [exact]; ring
      exact ⟨Nat.eq_of_mul_eq_mul_right denominator same, exact⟩

theorem coprime : x.r.Coprime x.s := by
  have first : x.r.gcd x.s ∣ x.p * x.s + 1 := encloses.adjacent ▸ (Nat.gcd_dvd_left ..).mul_right x.q
  have second : x.r.gcd x.s ∣ x.p * x.s := (Nat.gcd_dvd_right ..).mul_left x.p
  exact Nat.dvd_one.1 ((Nat.dvd_add_right second).1 first)

/-- A fraction above the upper one is clear of the ratio, or it is the upper one, in lowest terms. -/
theorem clear_above (positive : 0 < n) (above : x.r * n ≤ m * x.s) (few : n * a < 2 ^ 25 * b) (few' : m < 2 ^ 25) :
    Clear (n * a) (m * b) ∨ m = x.r ∧ ¬Clear (x.s * a) (x.r * b) := by
  have high := encloses.high
  by_cases clear : Clear (x.s * a) (x.r * b)
  · left; right
    have strict := clear.resolve_left (by omega)
    have strict := Nat.mul_lt_mul_of_pos_left strict positive
    have scaled := Nat.mul_le_mul_right b above
    nlinarith
  have large := encloses.clear_high.resolve_left clear
  rcases Nat.lt_or_eq_of_le above with lt | eq
  · left; right
    have lt := Nat.mul_le_mul_right b (Nat.succ_le_of_lt lt)
    have small := encloses.small.2
    nlinarith
  · right
    obtain ⟨t, rfl⟩ := encloses.coprime.dvd_of_dvd_mul_right ⟨n, eq.symm⟩
    obtain rfl : t = 1 := by
      have some_times : t ≠ 0 := by
        rintro rfl
        have := Nat.mul_pos (by omega : 0 < x.r) positive
        simp at eq
        omega
      by_contra other
      nlinarith [Nat.mul_le_mul_left x.r (by omega : 2 ≤ t)]
    exact ⟨Nat.mul_one _, clear⟩

/-- Whatever fraction has so small a denominator is clear of the ratio, or is the ratio, or the upper one. -/
theorem clear (positive : 0 < n) (few : n * a < 2 ^ 25 * b) (few' : m < 2 ^ 25) :
    Clear (n * a) (m * b) ∨ (m * b = n * a ∧ x.p * b = x.q * a) ∨ m = x.r ∧ ¬Clear (x.s * a) (x.r * b) := by
  have denominator : n < x.q + x.s := by
    by_contra large
    have := Nat.mul_le_mul_right a (not_lt.1 large)
    have := encloses.wide
    omega
  rcases encloses.outside denominator with below | above
  · exact (encloses.clear_below positive below few).imp_right .inl
  · exact (encloses.clear_above positive above few few').imp_right .inr

end Encloses

end Bracket

/-- The exponent of the least power of ten that is no less than the unit of `j`. -/
def power (j : Nat) : Int := -((149 - j) * 1233 / 4096)

/-- That power is to half the unit as this is to the denominator. -/
def numerator (j : Nat) : Nat := 10 ^ (power j).toNat * 2 ^ (150 - j)

def denominator (j : Nat) : Nat := 10 ^ (-power j).toNat * 2 ^ (j - 150)

def bracket (j : Nat) : Bracket :=
  let a := numerator j
  let b := denominator j
  .search a b ((2 ^ 25 * b + a - 1) / a) 12 ⟨a / b, 1, a / b + 1, 1⟩

/-- The ratio is the lower fraction itself only for powers that are values, and one midpoint is too near. -/
theorem encloses_bracket : ∀ j < 254,
    let x := bracket j
    let a := numerator j
    let b := denominator j
    x.Encloses a b ∧ (x.p * b = x.q * a → -22 ≤ power j ∧ power j ≤ 14) ∧
      (¬Clear (x.s * a) (x.r * b) → j = 42 ∧ x.r = 22841339) := by
  decide +kernel

theorem ratio_bounds : ∀ j < 254, 2 * denominator j ≤ numerator j ∧
    2 ^ 27 * numerator j + 20 * denominator j < 2 ^ 27 * (20 * denominator j) := by
  decide +kernel

theorem denominator_pos (j : Nat) : 0 < denominator j := by
  unfold denominator
  positivity

theorem ten_zpow_power (j : Nat) : (10 : ℚ) ^ power j * denominator j = numerator j * unit (j + 924) := by
  have tens := ten_zpow_mul_fine (power j)
  have half : unit (j + 924) = 2 ^ (j - 150 : ℤ) := unit_eq_zpow (by push_cast; omega)
  have twos := zpow_mul_fine (by decide : 0 < 2) (j - 150)
  have first : (-(j - 150 : ℤ)).toNat = 150 - j := by omega
  have second : (j - 150 : ℤ).toNat = j - 150 := by omega
  rw [first, second, Nat.cast_ofNat] at twos
  rw [half, denominator, numerator, Nat.cast_mul, Nat.cast_mul, ← tens, ← twos]
  ring

theorem unit_single_eq (j : Nat) : unit (j + 925) = 2 * unit (j + 924) := unit_succ (j + 924)

theorem unit_le_power (lt : j < 254) : unit (j + 925) ≤ 10 ^ power j := by
  have positive : (0 : ℚ) < denominator j := by exact_mod_cast denominator_pos j
  have bound : (2 * denominator j : ℚ) ≤ numerator j := by exact_mod_cast (ratio_bounds j lt).1
  have ratio := ten_zpow_power j
  have scaled := mul_le_mul_of_nonneg_right bound (unit_pos (j + 924)).le
  rw [unit_single_eq]
  exact le_of_mul_le_mul_right (by linarith) positive

theorem tenth_lt_unit (lt : j < 254) :
    2 ^ 27 * (10 : ℚ) ^ (power j - 1) + unit (j + 925) < 2 ^ 27 * unit (j + 925) := by
  have bound : ((2 ^ 27 * numerator j + 20 * denominator j : Nat) : ℚ) < (2 ^ 27 * (20 * denominator j) : Nat) :=
    Nat.cast_lt.2 (ratio_bounds j lt).2
  push_cast at bound
  have ratio := ten_zpow_power j
  have positive : (0 : ℚ) < denominator j := by exact_mod_cast denominator_pos j
  have scaled := mul_lt_mul_of_pos_right bound (unit_pos (j + 924))
  rw [unit_single_eq, zpow_sub_one₀ (by norm_num)]
  exact lt_of_mul_lt_mul_right (by linarith) positive.le

/-- A small multiple of the power is clear of every midpoint that it is not, with one exception. -/
theorem clear_multiple (lt : j < 254) (positive : 0 < n) (few : n * (10 : ℚ) ^ power j < 2 ^ 24 * unit (j + 925))
    (few' : m < 2 ^ 25) (usual : ¬(j = 42 ∧ m = 22841339)) :
    Clear (n * (10 : ℚ) ^ power j) (m * unit (j + 924)) ∨
      n * (10 : ℚ) ^ power j = m * unit (j + 924) ∧ -22 ≤ power j ∧ power j ≤ 14 := by
  have ratio := ten_zpow_power j
  have half := unit_pos (j + 924)
  have bound : n * (10 : ℚ) ^ power j < (2 ^ 25 : Nat) * unit (j + 924) := by
    rw [unit_single_eq] at few
    push_cast
    linarith
  have small := mul_lt_of_ratio ratio half bound (denominator_pos j)
  obtain ⟨encloses, exponent, unusual⟩ := encloses_bracket j lt
  rcases encloses.clear positive small few' with clear | ⟨tie, exact⟩ | ⟨large, unclear⟩
  · exact .inl (clear.of_ratio ratio half (denominator_pos j))
  · exact .inr ⟨mul_eq_of_ratio ratio tie.symm (denominator_pos j), exponent exact⟩
  · exact absurd ⟨(unusual unclear).1, large.trans (unusual unclear).2⟩ usual

/-- What is clear of the multiples next to it is clear of all that are not too large. -/
theorem clear_of_neighbours {P : Prop} (below : Clear (m / a * a) m ∨ m / a * a = m ∧ P)
    (above : Clear ((m / a + 1) * a) m) (positive : 0 < a) (few : n < 2 ^ 52) : Clear (n * a) m ∨ n * a = m ∧ P := by
  have floor := Nat.div_mul_le_self m a
  unfold Clear at *
  rcases Nat.lt_trichotomy n (m / a) with lt | eq | gt
  · have step := Nat.mul_le_mul_right a (Nat.succ_le_of_lt lt)
    have small := Nat.mul_lt_mul_of_pos_right few positive
    rw [Nat.succ_mul] at step
    omega
  · rwa [eq]
  · have step : (m / a + 1) * a ≤ n * a := Nat.mul_le_mul_right a gt
    have beyond : m < (m / a + 1) * a := Nat.lt_mul_of_div_lt (Nat.lt_succ_self _) positive
    omega

/-- A power of two lies between these multiples of a quarter of its unit, a quarter below it and a half above. -/
theorem ends_clear : ∀ j < 254, 0 < j → ∀ m ∈ [2 ^ 25 - 1, 2 ^ 25 + 2],
    let a := numerator j
    let t := m * (50 * denominator j)
    (Clear (t / a * a) t ∨ t / a * a = t ∧ 0 ≤ power j ∧ power j ≤ 2) ∧ Clear ((t / a + 1) * a) t := by
  decide +kernel

theorem ten_zpow_finer (j : Nat) :
    (10 : ℚ) ^ (power j - 2) * (50 * denominator j : Nat) = numerator j * unit (j + 923) := by
  have ratio := ten_zpow_power j
  have half : unit (j + 924) = 2 * unit (j + 923) := unit_succ (j + 923)
  have hundred : (10 : ℚ) ^ (2 : ℤ) = 100 := by norm_num
  rw [half] at ratio
  rw [zpow_sub₀ (by norm_num), hundred]
  push_cast
  linarith

theorem unit_single_quarters (j : Nat) : unit (j + 925) = 4 * unit (j + 923) := by
  have half : unit (j + 924) = 2 * unit (j + 923) := unit_succ (j + 923)
  rw [unit_single_eq, half]
  ring

/-- A multiple of a hundredth of the power is clear of the ends about a power of two. -/
theorem clear_end (lt : j < 254) (least : 0 < j) (few : n * (10 : ℚ) ^ (power j - 2) < 2 ^ 24 * unit (j + 925))
    (near : m ∈ [2 ^ 25 - 1, 2 ^ 25 + 2]) : Clear (n * (10 : ℚ) ^ (power j - 2)) (m * unit (j + 923)) ∨
      n * (10 : ℚ) ^ (power j - 2) = m * unit (j + 923) ∧ 0 ≤ power j ∧ power j ≤ 2 := by
  have ratio := ten_zpow_finer j
  have quarter := unit_pos (j + 923)
  have positive : 0 < 50 * denominator j := Nat.mul_pos (by decide) (denominator_pos j)
  have bound := (ratio_bounds j lt).1
  have bound' : n * (10 : ℚ) ^ (power j - 2) < (2 ^ 26 : Nat) * unit (j + 923) := by
    rw [unit_single_quarters] at few
    push_cast
    linarith
  have small := mul_lt_of_ratio ratio quarter bound' positive
  have few : n < 2 ^ 52 := by
    by_contra large
    have := Nat.mul_le_mul_right (numerator j) (not_lt.1 large)
    omega
  obtain ⟨below, above⟩ := ends_clear j lt least m near
  rcases clear_of_neighbours below above (by omega) few with clear | ⟨tie, range⟩
  · exact .inl (clear.of_ratio ratio quarter positive)
  · exact .inr ⟨mul_eq_of_ratio ratio tie positive, range⟩

namespace Decimal

variable {d : Decimal} {k : Int} {close : Bool}

/-- A decimal that is clear of a number, or is the number, and then its power of ten is a value. -/
def ClearOf (d : Decimal) (t : ℚ) : Prop := Clear d.value t ∨ d.value = t ∧ d.exponent.natAbs ≤ 22

/-- What is known of the decimal that is written of a binary32 number: it is in the number's span, and clear of
its ends. -/
structure Written (d : Decimal) (j m : Nat) (close : Bool) : Prop where
  some_digit : 0 < d.digits
  few : d.digits < 14 * 2 ^ 24
  exponent : power j - 2 ≤ d.exponent ∧ d.exponent ≤ power j + 7
  low : (m - reach close) * unit (j + 925) ≤ d.value
  high : d.value ≤ (m + 1 / 2) * unit (j + 925)
  strict : m % 2 = 1 → (m - reach close) * unit (j + 925) < d.value ∧ d.value < (m + 1 / 2) * unit (j + 925)
  clear_low : d.ClearOf ((m - reach close) * unit (j + 925))
  clear_high : d.ClearOf ((m + 1 / 2) * unit (j + 925))

/-- A decimal near the number on the grid below the unit is clear of both ends. -/
theorem clear_of_near {u : ℚ} (near : |d.value - m * u| ≤ 10 ^ d.exponent / 2)
    (fine : 2 ^ 27 * (10 : ℚ) ^ d.exponent + u < 2 ^ 27 * u) (lt : d.value < 2 ^ 24 * u) :
    d.ClearOf ((m - 1 / 2) * u) ∧ d.ClearOf ((m + 1 / 2) * u) := by
  rw [abs_le] at near
  exact ⟨.inl (.inl (by linarith)), .inl (.inr (by linarith))⟩

theorem value_eq_multiple (le : k ≤ d.exponent) :
    d.value = (d.digits * 10 ^ (d.exponent - k).toNat : Nat) * (10 : ℚ) ^ k := by
  obtain ⟨n, exponent⟩ := Int.eq_ofNat_of_zero_le (Int.sub_nonneg_of_le le)
  have same : d.exponent = n + k := by omega
  rw [value, exponent, Int.toNat_natCast, same, zpow_add₀ (by norm_num), zpow_natCast]
  push_cast
  ring

/-- The grid of a decimal in the span is no finer than a hundredth of the power, which bounds the digits as well. -/
theorem exponent_bounds (finite : j < 254) (some_digit : 0 < d.digits) (lt : d.value < 2 ^ 24 * unit (j + 925))
    (coarse : 3 / 4 * unit (j + 925) ≤ 10 * 10 ^ d.exponent) :
    (power j - 2 ≤ d.exponent ∧ d.exponent ≤ power j + 7) ∧ d.digits < 14 * 2 ^ 24 := by
  have ten := ten_zpow_pos d.exponent
  have some_digit : (1 : ℚ) ≤ d.digits := by exact_mod_cast some_digit
  rw [value] at lt
  refine ⟨⟨?_, ?_⟩, ?_⟩
  · by_contra below
    have le : (10 : ℚ) ^ (d.exponent + 1 + 1) ≤ 10 ^ (power j - 1) := zpow_le_zpow_right₀ (by norm_num) (by omega)
    rw [zpow_add_one₀ (by norm_num), zpow_add_one₀ (by norm_num)] at le
    linarith [tenth_lt_unit finite]
  · have above : (10 : ℚ) ^ d.exponent < 10 ^ (power j + 8) := by
      have scaled := mul_le_mul_of_nonneg_right some_digit ten.le
      have bound := unit_le_power finite
      rw [zpow_add₀ (by norm_num)]
      norm_num
      linarith
    have := (zpow_lt_zpow_iff_right₀ (by norm_num)).1 above
    omega
  · have scaled : d.digits * (10 : ℚ) ^ d.exponent < (14 * 2 ^ 24) * 10 ^ d.exponent := by linarith
    exact_mod_cast lt_of_mul_lt_mul_right scaled ten.le

theorem midpoint_eq (j m : Nat) : ((2 * m + 1 : Nat) : ℚ) * unit (j + 924) = (m + 1 / 2) * unit (j + 925) := by
  rw [unit_single_eq]
  push_cast
  ring

theorem midpoint_pred (positive : 0 < m) (j : Nat) :
    ((2 * m - 1 : Nat) : ℚ) * unit (j + 924) = (m - 1 / 2) * unit (j + 925) := by
  rw [unit_single_eq, Nat.cast_sub (by omega)]
  push_cast
  ring

/-- A multiple of a power of ten that is no less than the unit is clear of the ends that it is not. -/
theorem clear_of_multiple (finite : j < 254) (le : power j ≤ d.exponent) (most : d.exponent ≤ power j + 7)
    (some_digit : 0 < d.digits) (lt : d.value < 2 ^ 24 * unit (j + 925)) (few : m < 2 ^ 25)
    (usual : ¬(j = 42 ∧ m = 22841339)) : d.ClearOf (m * unit (j + 924)) := by
  have same := value_eq_multiple le
  have positive : 0 < d.digits * 10 ^ (d.exponent - power j).toNat := by positivity
  have clear := clear_multiple finite positive (same ▸ lt) few usual
  rw [← same] at clear
  refine clear.imp_right fun ⟨tie, low, high⟩ => ⟨tie, ?_⟩
  omega

theorem clear_of_end (finite : j < 254) (least : 0 < j) (le : power j - 2 ≤ d.exponent)
    (most : d.exponent ≤ power j + 7) (lt : d.value < 2 ^ 24 * unit (j + 925)) (near : m ∈ [2 ^ 25 - 1, 2 ^ 25 + 2]) :
    d.ClearOf (m * unit (j + 923)) := by
  have same := value_eq_multiple le
  have clear := clear_end finite least (same ▸ lt) near
  rw [← same] at clear
  refine clear.imp_right fun ⟨tie, low, high⟩ => ⟨tie, ?_⟩
  omega

theorem end_low (positive : 0 < m) (j : Nat) (close : Bool) :
    ((4 * m - if close then 1 else 2 : Nat) : ℚ) * unit (j + 923) = (m - reach close) * unit (j + 925) := by
  rw [unit_single_quarters, Nat.cast_sub (by split <;> omega), reach]
  split <;> push_cast <;> ring

theorem end_high (j m : Nat) : ((4 * m + 2 : Nat) : ℚ) * unit (j + 923) = (m + 1 / 2) * unit (j + 925) := by
  rw [unit_single_quarters]
  push_cast
  ring

/-- The ends about a power of two, whose lower neighbour is half as far. -/
theorem clear_of_ends (finite : j < 254) (least : 0 < j) (le : power j - 2 ≤ d.exponent)
    (most : d.exponent ≤ power j + 7) (lt : d.value < 2 ^ 24 * unit (j + 925)) :
    d.ClearOf (((2 ^ 23 : Nat) - reach true) * unit (j + 925)) ∧
      d.ClearOf (((2 ^ 23 : Nat) + 1 / 2) * unit (j + 925)) := by
  rw [← end_low (by decide), ← end_high]
  exact ⟨clear_of_end finite least le most lt (by decide), clear_of_end finite least le most lt (by decide)⟩

/-- The midpoints to two neighbours that are equally far. -/
theorem clear_of_midpoints (eq : d = .shortest m (j - 149) false) (finite : j < 254) (positive : 0 < m)
    (few : m < 2 ^ 24) (some_digit : 0 < d.digits) (most : d.exponent ≤ power j + 7)
    (lt : d.value < 2 ^ 24 * unit (j + 925)) (usual : ¬(j = 42 ∧ (m = 11420669 ∨ m = 11420670))) :
    d.ClearOf ((m - 1 / 2) * unit (j + 925)) ∧ d.ClearOf ((m + 1 / 2) * unit (j + 925)) := by
  rcases Int.lt_or_le d.exponent (power j) with below | le
  · have least := tenth_lt_unit finite
    have finer : (10 : ℚ) ^ d.exponent ≤ 10 ^ (power j - 1) := zpow_le_zpow_right₀ (by norm_num) (by omega)
    have near := shortest_near positive (j + 925)
    rw [show ((j + 925 : Nat) - 1074 : Int) = j - 149 by omega, ← eq] at near
    exact clear_of_near (near (by linarith [unit_pos (j + 925)])) (by linarith) lt
  · rw [← midpoint_pred positive, ← midpoint_eq]
    exact ⟨clear_of_multiple finite le most some_digit lt (by omega) (by omega),
      clear_of_multiple finite le most some_digit lt (by omega) (by omega)⟩

theorem written_shortest (single : Single p j m) (positive : 0 < m)
    (usual : ¬(j = 42 ∧ (m = 11420669 ∨ m = 11420670))) (close_iff : close = true ↔ m = 2 ^ 23 ∧ 0 < j)
    (eq : d = .shortest m (j - 149) close) : Written d j m close := by
  obtain ⟨-, few, -, finite⟩ := single
  have exponent : (j - 149 : Int) = (j + 925 : Nat) - 1074 := by omega
  rw [exponent] at eq
  obtain ⟨contains, grid⟩ := shortest_cases positive (j + 925) close
  rw [← eq] at contains grid
  have some_digit := digits_pos contains positive
  obtain ⟨low, high, strict⟩ := contains.bounds positive
  have unit := unit_pos (j + 925)
  have lt : d.value < 2 ^ 24 * Pattern.unit (j + 925) := by
    have small : (m + 1 : ℚ) ≤ 2 ^ 24 := by exact_mod_cast few
    linarith [mul_le_mul_of_nonneg_right small unit.le]
  have coarse : 3 / 4 * Pattern.unit (j + 925) ≤ 10 * 10 ^ d.exponent := by
    rcases grid with ⟨above, -⟩ | wide
    · have least : (1 : ℚ) ≤ m := by exact_mod_cast positive
      linarith [mul_le_mul_of_nonneg_right least unit.le, ten_zpow_pos d.exponent]
    · rw [zpow_add_one₀ (by norm_num)] at wide
      linarith [three_quarters_le close (j + 925)]
  obtain ⟨bounds, digits⟩ := exponent_bounds finite some_digit lt coarse
  have clear : d.ClearOf ((m - reach close) * Pattern.unit (j + 925)) ∧
      d.ClearOf ((m + 1 / 2) * Pattern.unit (j + 925)) := by
    cases close with
    | true =>
      obtain ⟨rfl, least⟩ := close_iff.1 rfl
      exact clear_of_ends finite least bounds.1 bounds.2 lt
    | false =>
      rw [← exponent] at eq
      exact clear_of_midpoints eq finite positive few some_digit bounds.2 lt usual
  exact ⟨some_digit, digits, bounds, low, high, strict, clear.1, clear.2⟩

end Decimal

end VectorGraph
