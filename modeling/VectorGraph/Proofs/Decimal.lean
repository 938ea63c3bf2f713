import VectorGraph.Decimal
import VectorGraph.Proofs.Binary.Pattern
import Mathlib.Tactic.LinearCombination

/-!
The shortest decimal of a binary number. The search stops on a grid that has a point in the number's rounding
span, and at the latest on the one that holds the number itself, so the decimal that it finds rounds back to the
number. A grid without a point in the span is at least as coarse as the span is wide, which bounds the digits.
-/
namespace VectorGraph

def Decimal.value (d : Decimal) : ℚ := d.digits * 10 ^ d.exponent

open Pattern

namespace RoundingSpan

variable {s : RoundingSpan} {k : Int} {d : Nat} {r : ℚ}

structure Contains (s : RoundingSpan) (r : ℚ) : Prop where
  low : s.low ≤ r * s.scale
  high : r * s.scale ≤ s.high
  strict : s.closed = false → s.low < r * s.scale ∧ r * s.scale < s.high

/-- The value is inside. -/
structure Proper (s : RoundingSpan) : Prop where
  low : s.low < s.value
  high : s.value < s.high
  scale : 0 < s.scale

theorem zpow_mul_fine {b : Nat} (positive : 0 < b) (k : Int) :
    (b : ℚ) ^ k * (b ^ (-k).toNat : Nat) = (b ^ k.toNat : Nat) := by
  have nonzero : (b : ℚ) ≠ 0 := by exact_mod_cast positive.ne'
  rcases Int.le_total 0 k with nonneg | nonpos
  · obtain ⟨n, rfl⟩ := Int.eq_ofNat_of_zero_le nonneg
    simp
  · obtain ⟨n, rfl⟩ := Int.exists_eq_neg_ofNat nonpos
    simp [nonzero]

theorem ten_zpow_mul_fine (k : Int) : (10 : ℚ) ^ k * (10 ^ (-k).toNat : Nat) = (10 ^ k.toNat : Nat) :=
  zpow_mul_fine (by decide : 0 < 10) k

/-- A multiple of `10 ^ k` over the span's denominators. -/
theorem scaled (s : RoundingSpan) (k : Int) (d : Nat) :
    (d * 10 ^ k * s.scale : ℚ) * (10 ^ (-k).toNat : Nat) = (d * (s.scale * 10 ^ k.toNat) : Nat) := by
  have fine := ten_zpow_mul_fine k
  rw [Nat.cast_mul, Nat.cast_mul, ← fine]
  ring

theorem le_scaled_iff {a : Nat} : (a : ℚ) ≤ d * 10 ^ k * s.scale ↔
    a * 10 ^ (-k).toNat ≤ d * (s.scale * 10 ^ k.toNat) := by
  have fine : (0 : ℚ) < (10 ^ (-k).toNat : Nat) := by positivity
  rw [← mul_le_mul_iff_of_pos_right fine, scaled]
  exact_mod_cast Iff.rfl

theorem scaled_le_iff {a : Nat} : d * 10 ^ k * s.scale ≤ (a : ℚ) ↔
    d * (s.scale * 10 ^ k.toNat) ≤ a * 10 ^ (-k).toNat := by
  have fine : (0 : ℚ) < (10 ^ (-k).toNat : Nat) := by positivity
  rw [← mul_le_mul_iff_of_pos_right fine, scaled]
  exact_mod_cast Iff.rfl

/-- Whether a multiple of `10 ^ k` is inside, as the search tests it. -/
def inside (s : RoundingSpan) (k : Int) (d : Nat) : Bool :=
  if s.closed then decide (s.low * 10 ^ (-k).toNat ≤ d * (s.scale * 10 ^ k.toNat) ∧
    d * (s.scale * 10 ^ k.toNat) ≤ s.high * 10 ^ (-k).toNat)
  else decide (s.low * 10 ^ (-k).toNat < d * (s.scale * 10 ^ k.toNat) ∧
    d * (s.scale * 10 ^ k.toNat) < s.high * 10 ^ (-k).toNat)

theorem inside_iff : s.inside k d = true ↔ s.Contains (d * 10 ^ k) := by
  unfold inside
  split
  · rename_i closed
    rw [decide_eq_true_iff, ← le_scaled_iff, ← scaled_le_iff]
    exact ⟨fun h => ⟨h.1, h.2, by simp [closed]⟩, fun h => ⟨h.low, h.high⟩⟩
  · rename_i open'
    rw [decide_eq_true_iff, ← not_le, ← not_le, ← scaled_le_iff, ← le_scaled_iff, not_le, not_le]
    exact ⟨fun h => ⟨h.1.le, h.2.le, fun _ => h⟩, fun h => h.strict (by simpa using open')⟩

/-- The multiple of `10 ^ k` that is next below the value. -/
def below (s : RoundingSpan) (k : Int) : Nat := s.value * 10 ^ (-k).toNat / (s.scale * 10 ^ k.toNat)

/-- What is left of the value above that multiple, over the grid's denominators. -/
def gap (s : RoundingSpan) (k : Int) : Nat := s.value * 10 ^ (-k).toNat % (s.scale * 10 ^ k.toNat)

theorem onGrid?_eq (s : RoundingSpan) (k : Int) :
    s.onGrid? k = if s.inside k (s.below k) && s.inside k (s.below k + 1) then
      if 2 * s.gap k < s.scale * 10 ^ k.toNat ∨ 2 * s.gap k = s.scale * 10 ^ k.toNat ∧ s.below k % 2 = 0
      then some (s.below k) else some (s.below k + 1)
    else if s.inside k (s.below k) then some (s.below k)
    else if s.inside k (s.below k + 1) then some (s.below k + 1)
    else none := rfl

/-- The search of a grid tests the value's two neighbours on it. -/
theorem onGrid?_cases (s : RoundingSpan) (k : Int) : (∃ d, s.onGrid? k = some d ∧ s.inside k d = true) ∨
    s.onGrid? k = none ∧ s.inside k (s.below k) = false ∧ s.inside k (s.below k + 1) = false := by
  rw [onGrid?_eq]
  cases first : s.inside k (s.below k) <;> cases second : s.inside k (s.below k + 1)
  · exact .inr ⟨by simp, rfl, rfl⟩
  · exact .inl ⟨_, by simp, second⟩
  · exact .inl ⟨_, by simp, first⟩
  · left
    simp only [Bool.and_self, if_true]
    split
    · exact ⟨_, rfl, first⟩
    · exact ⟨_, rfl, second⟩

theorem below_le (s : RoundingSpan) (k : Int) : s.below k * 10 ^ k * s.scale ≤ (s.value : ℚ) :=
  scaled_le_iff.2 (Nat.div_mul_le_self ..)

theorem lt_above (s : RoundingSpan) (scale : 0 < s.scale) (k : Int) :
    (s.value : ℚ) < (s.below k + 1 : Nat) * 10 ^ k * s.scale := by
  have step : 0 < s.scale * 10 ^ k.toNat := by positivity
  rw [← not_le, scaled_le_iff, not_le, below]
  exact Nat.lt_mul_of_div_lt (Nat.lt_succ_self _) step

/-- A grid without a point inside is at least as coarse as the span is wide. -/
theorem wide_of_outside (proper : s.Proper) (first : s.inside k (s.below k) = false)
    (second : s.inside k (s.below k + 1) = false) : (s.high - s.low : ℚ) ≤ 10 ^ k * s.scale := by
  have low : (s.low : ℚ) < s.value := by exact_mod_cast proper.low
  have high : (s.value : ℚ) < s.high := by exact_mod_cast proper.high
  have lower := s.below_le k
  have upper := s.lt_above proper.scale k
  have left : s.below k * 10 ^ k * s.scale ≤ (s.low : ℚ) := by
    by_contra lt
    rw [not_le] at lt
    have inside := inside_iff.2 ⟨lt.le, by linarith, fun _ => ⟨lt, by linarith⟩⟩
    simp [inside] at first
  have right : (s.high : ℚ) ≤ (s.below k + 1 : Nat) * 10 ^ k * s.scale := by
    by_contra lt
    rw [not_le] at lt
    have inside := inside_iff.2 ⟨by linarith, lt.le, fun _ => ⟨by linarith, lt⟩⟩
    simp [inside] at second
  push_cast at right
  linarith

/-- The value itself, on a grid that holds it. -/
theorem value_of_last (scale : 0 < s.scale) (fine : k ≤ 0) (last : s.scale ∣ s.value * 10 ^ (-k).toNat) :
    (s.value * 10 ^ (-k).toNat / s.scale : Nat) * 10 ^ k * s.scale = (s.value : ℚ) := by
  have one := ten_zpow_mul_fine k
  rw [Int.toNat_of_nonpos fine, pow_zero, Nat.cast_one] at one
  obtain ⟨d, eq⟩ := last
  rw [eq, Nat.mul_div_cancel_left d scale]
  have eq : (s.value * (10 ^ (-k).toNat : Nat) : ℚ) = s.scale * d := by exact_mod_cast eq
  linear_combination s.value * one - (10 : ℚ) ^ k * eq

theorem contains_value (proper : s.Proper) (fine : k ≤ 0) (last : s.scale ∣ s.value * 10 ^ (-k).toNat) :
    s.Contains ((s.value * 10 ^ (-k).toNat / s.scale : Nat) * 10 ^ k) := by
  have low : (s.low : ℚ) < s.value := by exact_mod_cast proper.low
  have high : (s.value : ℚ) < s.high := by exact_mod_cast proper.high
  have same := value_of_last proper.scale fine last
  exact ⟨by rw [same]; exact low.le, by rw [same]; exact high.le, fun _ => by rw [same]; exact ⟨low, high⟩⟩

/-- What the search finds is inside, and the grid before the one that it stops on is too coarse. -/
theorem scan_spec (proper : s.Proper) (count : Nat) (fine : k ≤ count)
    (last : s.scale ∣ s.value * 10 ^ (count - k).toNat) :
    s.Contains (s.scan count k).value ∧
      ((s.scan count k).exponent = k ∨
        (s.high - s.low : ℚ) ≤ 10 ^ ((s.scan count k).exponent + 1) * s.scale) := by
  induction count generalizing k with
  | zero =>
    have exact := contains_value proper (k := k) (by simpa using fine) (by simpa using last)
    exact ⟨exact, .inl rfl⟩
  | succ count ih =>
    rw [scan]
    rcases s.onGrid?_cases k with ⟨d, found, inside⟩ | ⟨none, first, second⟩
    · rw [found]
      exact ⟨inside_iff.1 inside, .inl rfl⟩
    · rw [none]
      have finer : ((count : Int) - (k - 1)).toNat = ((count + 1 : Nat) - k).toNat := by omega
      obtain ⟨inside, stops⟩ := ih (k := k - 1) (by omega) (by rwa [finer])
      refine ⟨inside, .inr ?_⟩
      rcases stops with here | later
      · rw [here, sub_add_cancel]
        exact wide_of_outside proper first second
      · exact later

/-- The value is midway between the ends. -/
def Centred (s : RoundingSpan) : Prop := s.low + s.high = 2 * s.value

theorem inside_of_near {n : Nat} (centred : s.Centred) (fine : (10 : ℚ) ^ k * s.scale < s.high - s.low)
    (near : |n * 10 ^ k * s.scale - (s.value : ℚ)| ≤ 10 ^ k * s.scale / 2) : s.inside k n = true := by
  have centred : (s.low + s.high : ℚ) = 2 * s.value := by exact_mod_cast centred
  rw [abs_le] at near
  exact inside_iff.2 ⟨by linarith, by linarith, fun _ => ⟨by linarith, by linarith⟩⟩

theorem below_near (s : RoundingSpan) (less : 2 * s.gap k ≤ s.scale * 10 ^ k.toNat) :
    |s.below k * 10 ^ k * s.scale - (s.value : ℚ)| ≤ 10 ^ k * s.scale / 2 := by
  have lower := s.below_le k
  have half : ((2 * s.value : Nat) : ℚ) ≤ (2 * s.below k + 1 : Nat) * 10 ^ k * s.scale := by
    have whole := Nat.div_add_mod (s.value * 10 ^ (-k).toNat) (s.scale * 10 ^ k.toNat)
    rw [le_scaled_iff]
    unfold below gap at *
    linarith
  push_cast at half
  rw [abs_le]
  constructor <;> linarith

theorem above_near (s : RoundingSpan) (scale : 0 < s.scale) (more : s.scale * 10 ^ k.toNat ≤ 2 * s.gap k) :
    |(s.below k + 1 : Nat) * 10 ^ k * s.scale - (s.value : ℚ)| ≤ 10 ^ k * s.scale / 2 := by
  have upper := s.lt_above scale k
  have half : (2 * s.below k + 1 : Nat) * 10 ^ k * s.scale ≤ ((2 * s.value : Nat) : ℚ) := by
    have whole := Nat.div_add_mod (s.value * 10 ^ (-k).toNat) (s.scale * 10 ^ k.toNat)
    rw [scaled_le_iff]
    unfold below gap at *
    linarith
  push_cast at half upper ⊢
  rw [abs_le]
  constructor <;> linarith

/-- On a grid that is finer than the span is wide, the nearer of the value's neighbours is inside, and found. -/
theorem onGrid?_near (centred : s.Centred) (scale : 0 < s.scale)
    (fine : (10 : ℚ) ^ k * s.scale < s.high - s.low) (found : s.onGrid? k = some d) :
    |d * 10 ^ k * s.scale - (s.value : ℚ)| ≤ 10 ^ k * s.scale / 2 := by
  rw [onGrid?_eq] at found
  -- A neighbour that is outside is not the nearer one.
  rcases le_total (2 * s.gap k) (s.scale * 10 ^ k.toNat) with less | more
  · have first := inside_of_near centred fine (s.below_near less)
    cases second : s.inside k (s.below k + 1) with
    | false =>
      simp only [first, second, Bool.and_false, Bool.false_eq_true, if_false, if_true, Option.some.injEq] at found
      exact found ▸ s.below_near less
    | true =>
      simp only [first, second, Bool.and_self, if_true] at found
      split at found <;> rename_i order <;> rw [← Option.some.inj found]
      · exact s.below_near less
      · exact s.above_near scale (by omega)
  · have second := inside_of_near centred fine (s.above_near scale more)
    cases first : s.inside k (s.below k) with
    | false =>
      simp only [first, second, Bool.false_and, Bool.false_eq_true, if_false, if_true, Option.some.injEq] at found
      exact found ▸ s.above_near scale more
    | true =>
      simp only [first, second, Bool.and_self, if_true] at found
      split at found <;> rename_i order <;> rw [← Option.some.inj found]
      · exact s.below_near (by omega)
      · exact s.above_near scale more

/-- The search finds the multiple nearest to the value, unless it stops before the grid is fine. -/
theorem scan_near (centred : s.Centred) (scale : 0 < s.scale) (count : Nat) (few : k ≤ count)
    (last : s.scale ∣ s.value * 10 ^ (count - k).toNat)
    (fine : (10 : ℚ) ^ (s.scan count k).exponent * s.scale < s.high - s.low) :
    |(s.scan count k).value * s.scale - s.value| ≤ 10 ^ (s.scan count k).exponent * s.scale / 2 := by
  induction count generalizing k with
  | zero =>
    have exact := value_of_last (k := k) scale (by simpa using few) (by simpa using last)
    rw [scan, Decimal.value, Nat.pow_eq, exact, sub_self, abs_zero]
    have step : (0 : ℚ) ≤ 10 ^ k := zpow_nonneg (by norm_num) k
    positivity
  | succ count ih =>
    rw [scan] at fine ⊢
    cases found : s.onGrid? k with
    | some d =>
      rw [found] at fine
      exact onGrid?_near centred scale fine found
    | none =>
      rw [found] at fine
      have finer : ((count : Int) - (k - 1)).toNat = ((count + 1 : Nat) - k).toNat := by omega
      exact ih (k := k - 1) (by omega) (by rwa [finer]) fine

variable {p j m : Nat} {close : Bool}

/-- How far the span reaches down, in units. -/
def reach (close : Bool) : ℚ := if close then 1 / 4 else 1 / 2

theorem ofBinary_eq (positive : 0 < m) (j : Nat) (close : Bool) :
    let s := ofBinary m (j - 1074) close
    (s.value : ℚ) = m * unit j * s.scale ∧ (s.high : ℚ) = (m + 1 / 2) * unit j * s.scale ∧
      (s.low : ℚ) = (m - reach close) * unit j * s.scale := by
  have unit : unit j = 4 * 2 ^ (j - 1074 - 2 : ℤ) := by
    rw [unit_eq_zpow rfl, zpow_sub₀ (by norm_num) _ 2]
    norm_num
    ring
  have quarters := zpow_mul_fine (by decide : 0 < 2) (j - 1074 - 2)
  rw [neg_sub, Nat.cast_ofNat] at quarters
  rw [unit]
  simp only [ofBinary, Nat.pow_eq, Nat.cast_mul, ← quarters]
  refine ⟨by push_cast; ring, by push_cast; ring, ?_⟩
  cases close with
  | true =>
    rw [if_pos rfl, Nat.cast_sub (by omega), reach, if_pos rfl]
    push_cast
    ring
  | false =>
    rw [if_neg (by decide), Nat.cast_sub (by omega), reach, if_neg (by decide)]
    push_cast
    ring

theorem scale_pos (m : Nat) (e : Int) (close : Bool) : (0 : ℚ) < (ofBinary m e close).scale := by
  exact_mod_cast Nat.two_pow_pos _

theorem reach_pos (close : Bool) : 0 < reach close ∧ reach close ≤ 1 / 2 := by
  cases close <;> norm_num [reach]

theorem three_quarters_le (close : Bool) (j : Nat) : 3 / 4 * unit j ≤ (reach close + 1 / 2) * unit j := by
  have reach : 1 / 4 ≤ reach close := by cases close <;> norm_num [reach]
  exact mul_le_mul_of_nonneg_right (by linarith) (unit_pos j).le

theorem reach_lt (positive : 0 < m) (close : Bool) : reach close < m := by
  have one : (1 : ℚ) ≤ m := by exact_mod_cast positive
  linarith [reach_pos close]

theorem proper_ofBinary (positive : 0 < m) (close : Bool) : (ofBinary m (j - 1074) close).Proper := by
  obtain ⟨value, high, low⟩ := ofBinary_eq positive j close
  have scale := scale_pos m (j - 1074) close
  have product := mul_pos (unit_pos j) scale
  have reach := reach_pos close
  refine ⟨?_, ?_, by exact_mod_cast scale⟩
  · have lt : ((ofBinary m (j - 1074) close).low : ℚ) < (ofBinary m (j - 1074) close).value := by
      rw [value, low]
      nlinarith
    exact_mod_cast lt
  · have lt : ((ofBinary m (j - 1074) close).value : ℚ) < (ofBinary m (j - 1074) close).high := by
      rw [value, high]
      nlinarith
    exact_mod_cast lt

theorem Contains.bounds (contains : (ofBinary m (j - 1074) close).Contains r) (positive : 0 < m) :
    (m - reach close) * unit j ≤ r ∧ r ≤ (m + 1 / 2) * unit j ∧
      (m % 2 = 1 → (m - reach close) * unit j < r ∧ r < (m + 1 / 2) * unit j) := by
  obtain ⟨-, high, low⟩ := ofBinary_eq positive j close
  have scale := scale_pos m (j - 1074) close
  refine ⟨?_, ?_, fun odd => ?_⟩
  · exact le_of_mul_le_mul_right (low ▸ contains.low) scale
  · exact le_of_mul_le_mul_right (high ▸ contains.high) scale
  · obtain ⟨low', high'⟩ := contains.strict (by simp [ofBinary, odd])
    exact ⟨lt_of_mul_lt_mul_right (low ▸ low') scale.le, lt_of_mul_lt_mul_right (high ▸ high') scale.le⟩

theorem nearest_of_contains (split : Splits p j m) (lt : m < 2 ^ 53) (positive : 0 < m)
    (contains : (ofBinary m (j - 1074) (decide (m = 2 ^ 52 ∧ 0 < j))).Contains r) : Nearest r p := by
  obtain ⟨low, high, strict⟩ := contains.bounds positive
  have value := split.value_eq
  have next := (split.succ lt).value_eq
  have odd : p % 2 = 1 → m % 2 = 1 := by
    have := split.eq
    omega
  constructor
  · rintro q rfl
    have lower : mid q = (m - reach (decide (m = 2 ^ 52 ∧ 0 < j))) * unit j := by
      rcases split.value_pred with ⟨inside, previous⟩ | ⟨⟨some_exponent, bottom⟩, previous⟩
      · rw [mid, previous, value, reach, if_neg (by simp; omega)]
        ring
      · rw [mid, previous, value, reach, if_pos (decide_eq_true ⟨bottom, some_exponent⟩)]
        ring
    rw [lower]
    exact ⟨low, fun h => (strict (odd h)).1⟩
  · have upper : mid p = (m + 1 / 2) * unit j := by
      rw [mid, value, next]
      push_cast
      ring
    rw [upper]
    exact ⟨high, fun h => (strict (odd h)).2⟩

end RoundingSpan

namespace Decimal

open RoundingSpan

variable {p j m : Nat}

theorem ten_zpow_pos (k : Int) : (0 : ℚ) < 10 ^ k := zpow_pos (by norm_num) k

theorem value_lt_top {s : RoundingSpan} (positive : 0 < m) (j : Nat) (close : Bool)
    (eq : s = ofBinary m (j - 1074) close) : m * unit j < 10 ^ (Nat.toDigits 10 (s.value / s.scale)).length := by
  subst eq
  obtain ⟨value, -, -⟩ := ofBinary_eq positive j close
  have scale := scale_pos m (j - 1074) close
  generalize ofBinary m (j - 1074) close = s at value scale ⊢
  have digits := (Nat.length_toDigits_le_iff (by decide) Nat.length_toDigits_pos).1
    (le_refl (Nat.toDigits 10 (s.value / s.scale)).length)
  rw [Nat.div_lt_iff_lt_mul (by exact_mod_cast scale)] at digits
  have above : (s.value : ℚ) < 10 ^ (Nat.toDigits 10 (s.value / s.scale)).length * s.scale := by
    exact_mod_cast digits
  rw [value] at above
  exact lt_of_mul_lt_mul_right above scale.le

theorem exists_search (positive : 0 < m) (j : Nat) (close : Bool) :
    let s := ofBinary m (j - 1074) close
    ∃ count top : Nat, shortest m (j - 1074) close = s.scan count top ∧ 1 ≤ top ∧ m * unit j < 10 ^ top ∧
      (top : Int) ≤ count ∧ s.scale ∣ s.value * 10 ^ (count - top : Int).toNat := by
  intro s
  have start := value_lt_top positive j close rfl
  have some_digit := Nat.length_toDigits_pos (b := 10) (n := s.value / s.scale)
  obtain ⟨top, length⟩ : ∃ top, top = (Nat.toDigits 10 (s.value / s.scale)).length := ⟨_, rfl⟩
  rw [← length] at start some_digit
  have steps : ((top + (2 - (j - 1074 : Int)).toNat : Nat) - (top : Int)).toNat = (2 - (j - 1074 : Int)).toNat := by
    omega
  refine ⟨top + (2 - (j - 1074 : Int)).toNat, top, length ▸ rfl, some_digit, start, by omega, ?_⟩
  rw [steps]
  exact (pow_dvd_pow_of_dvd (by decide : 2 ∣ 10) _).mul_left _

/-- The shortest decimal is in the span. It is on the first grid, or the span has no point on the grid before. -/
theorem shortest_cases (positive : 0 < m) (j : Nat) (close : Bool) :
    let d := shortest m (j - 1074) close
    (ofBinary m (j - 1074) close).Contains d.value ∧
      (m * unit j < 10 ^ d.exponent ∧ 1 ≤ d.exponent ∨ (reach close + 1 / 2) * unit j ≤ 10 ^ (d.exponent + 1)) := by
  intro d
  obtain ⟨-, high, low⟩ := ofBinary_eq positive j close
  obtain ⟨count, top, search, some_digit, start, enough, last⟩ := exists_search positive j close
  obtain ⟨contains, grid⟩ := scan_spec (proper_ofBinary positive close) count enough last
  rw [← search] at contains grid
  refine ⟨contains, grid.imp (fun first => ?_) fun wide => ?_⟩
  · rw [first, zpow_natCast]
    exact ⟨start, by omega⟩
  · rw [high, low] at wide
    exact le_of_mul_le_mul_right (by linarith) (scale_pos m (j - 1074) close)

/-- Where it is on a grid finer than the unit, it is the point nearest to the number. -/
theorem shortest_near (positive : 0 < m) (j : Nat) :
    let d := shortest m (j - 1074) false
    10 ^ d.exponent < unit j → |d.value - m * unit j| ≤ 10 ^ d.exponent / 2 := by
  intro d fine
  obtain ⟨value, high, low⟩ := ofBinary_eq positive j false
  have scale := scale_pos m (j - 1074) false
  obtain ⟨count, top, search, -, -, enough, last⟩ := exists_search positive j false
  have centred : (ofBinary m (j - 1074) false).Centred := by
    have centred : ((ofBinary m (j - 1074) false).low : ℚ) + (ofBinary m (j - 1074) false).high
        = 2 * (ofBinary m (j - 1074) false).value := by
      rw [value, high, low, reach]
      norm_num
      ring
    exact_mod_cast centred
  have finer : (10 : ℚ) ^ d.exponent * (ofBinary m (j - 1074) false).scale
      < (ofBinary m (j - 1074) false).high - (ofBinary m (j - 1074) false).low := by
    rw [high, low, reach]
    norm_num
    linarith [mul_lt_mul_of_pos_right fine scale]
  have near := scan_near centred (by exact_mod_cast scale) count enough last (search ▸ finer)
  rw [← search, value, ← sub_mul, abs_mul, abs_of_pos scale] at near
  exact le_of_mul_le_mul_right (by linarith) scale

theorem powers_above : units infinite < 10 ^ 309 * 2 ^ 1074 := by decide +kernel

theorem powers_below : 4 * 2 ^ 1074 < 3 * 10 ^ 324 := by decide +kernel

theorem value_infinite_lt : Pattern.value infinite < 10 ^ (309 : ℤ) := by
  have lt := value_lt_natCast powers_above
  rw [Nat.cast_pow, Nat.cast_ofNat] at lt
  exact lt.trans_eq (zpow_ofNat 10 309).symm

theorem lt_unit (j : Nat) : 10 ^ (-324 : ℤ) < 3 / 4 * unit j := by
  have lt : ((4 * 2 ^ 1074 : Nat) : ℚ) < (3 * 10 ^ 324 : Nat) := Nat.cast_lt.2 powers_below
  have lt := mul_lt_mul_of_pos_right lt least_pos
  have inverse : (10 : ℚ) ^ (-324 : ℤ) * (10 ^ 324 : Nat) = 1 := by
    rw [Nat.cast_pow, Nat.cast_ofNat, zpow_neg, zpow_ofNat]
    exact inv_mul_cancel₀ (by positivity)
  rw [natCast_mul_least, Nat.cast_mul, Nat.cast_ofNat, Nat.cast_ofNat] at lt
  have le : least ≤ unit j := le_mul_of_one_le_left least_pos.le (one_le_pow₀ (by norm_num))
  have positive : (0 : ℚ) < (10 ^ 324 : Nat) := by positivity
  generalize ((10 ^ 324 : Nat) : ℚ) = n at lt inverse positive
  generalize (10 : ℚ) ^ (-324 : ℤ) = t at inverse ⊢
  by_contra above
  have above := mul_le_mul_of_nonneg_right (not_lt.1 above) positive.le
  have le := mul_le_mul_of_nonneg_right le positive.le
  linarith

section

variable {d : Decimal} {close : Bool}

theorem digits_pos (contains : (ofBinary m (j - 1074) close).Contains d.value) (positive : 0 < m) :
    0 < d.digits := by
  have low := (contains.bounds positive).1
  have above : 0 < d.value := lt_of_lt_of_le (mul_pos (sub_pos.2 (reach_lt positive _)) (unit_pos j)) low
  rw [Nat.pos_iff_ne_zero]
  intro zero
  rw [Decimal.value, zero] at above
  simp at above

/-- On the first grid the number is below a multiple, and a later one is not much finer than the span. -/
theorem digits_lt (contains : (ofBinary m (j - 1074) close).Contains d.value) (positive : 0 < m) (lt : m < 2 ^ 53)
    (grid : m * unit j < 10 ^ d.exponent ∨ 3 / 4 * unit j ≤ 10 ^ (d.exponent + 1)) : d.digits < 10 ^ 18 := by
  by_contra large
  have high := (contains.bounds positive).2.1
  have unit := unit_pos j
  have many : (10 ^ 18 : ℚ) ≤ d.digits := by exact_mod_cast not_lt.1 large
  have many := mul_le_mul_of_nonneg_right many (ten_zpow_pos d.exponent).le
  have lt : (m + 1 : ℚ) ≤ 2 ^ 53 := by exact_mod_cast lt
  have product := mul_le_mul_of_nonneg_right lt unit.le
  rw [Decimal.value] at high
  rcases grid with first | wide
  · have one : (1 : ℚ) ≤ m := by exact_mod_cast positive
    have := mul_le_mul_of_nonneg_right one unit.le
    linarith
  · rw [zpow_add_one₀ (by norm_num)] at wide
    linarith

theorem le_exponent (wide : 3 / 4 * unit j ≤ 10 ^ (d.exponent + 1)) : -324 ≤ d.exponent := by
  by_contra low
  have fine : (10 : ℚ) ^ (d.exponent + 1) ≤ 10 ^ (-324 : ℤ) := zpow_le_zpow_right₀ (by norm_num) (by omega)
  linarith [lt_unit j]

theorem exponent_le (some_digit : 0 < d.digits) (nearest : Nearest d.value p) (finite : p < infinite) :
    d.exponent ≤ 308 := by
  have some_digit : (1 : ℚ) ≤ d.digits := by exact_mod_cast some_digit
  have most : (10 : ℚ) ^ d.exponent < 10 ^ (309 : ℤ) := by
    calc (10 : ℚ) ^ d.exponent ≤ d.value := by
          rw [Decimal.value]
          exact le_mul_of_one_le_left (ten_zpow_pos d.exponent).le some_digit
      _ ≤ mid p := nearest.below.1
      _ < Pattern.value (p + 1) := mid_lt_value p
      _ ≤ Pattern.value infinite := value_strictMono.monotone finite
      _ < 10 ^ (309 : ℤ) := value_infinite_lt
  have := (zpow_lt_zpow_iff_right₀ (by norm_num)).1 most
  omega

end

/-- The shortest decimal of a finite number rounds back to it, and has no more than 18 digits. -/
theorem shortest_spec {d : Decimal} (split : Splits p j m) (lt : m < 2 ^ 53) (positive : 0 < m)
    (finite : p < infinite) (shortest : d = shortest m (j - 1074) (decide (m = 2 ^ 52 ∧ 0 < j))) :
    Nearest d.value p ∧ 0 < d.digits ∧ d.digits < 10 ^ 18 ∧ -324 ≤ d.exponent ∧ d.exponent ≤ 308 := by
  obtain ⟨contains, grid⟩ := shortest_cases positive j (decide (m = 2 ^ 52 ∧ 0 < j))
  rw [← shortest] at contains grid
  have grid := grid.imp_right fun wide => (three_quarters_le _ _).trans wide
  have nearest := nearest_of_contains split lt positive contains
  have some_digit := digits_pos contains positive
  refine ⟨nearest, some_digit, digits_lt contains positive lt (grid.imp_left And.left), ?_,
    exponent_le some_digit nearest finite⟩
  rcases grid with ⟨-, first⟩ | wide
  · omega
  · exact le_exponent wide

end Decimal

end VectorGraph
