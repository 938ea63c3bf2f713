import VectorGraph.Proofs.Decimal.Midpoints
import VectorGraph.Proofs.Json.Reread

/-!
Binary32 numbers are read back from their texts. The text is read as a binary64 number, which is off by at most
two units of 53 bits, and narrowed. The decimal that is written is clear of the midpoints to the neighbours, or
one of them that is read as it is, so the number that was written is the nearest one again.
-/
namespace VectorGraph

open Pattern
open RoundingSpan (reach)
open Json (Form Stops Reader layout32)
open Json.Numeral (scale? powerOfTen significand_close powerOfTen_close)

namespace Pattern

variable {d c s t r u v : ℚ} {f : Float} {j m n p q : Nat}

theorem Close.ratio (close : Close r s) (positive : 0 < s) : Close (r / s) 1 := by
  constructor
  · rw [mul_div_assoc', le_div_iff₀ positive]
    linarith [close.high]
  · rw [mul_div_assoc', div_le_iff₀ positive]
    linarith [close.low]

theorem two_pow_lt_value_infinite : 2 ^ 241 < value infinite := by
  have split : Splits infinite 2046 (2 ^ 52) := ⟨by norm_num [infinite], by norm_num, .inr le_rfl⟩
  have two : (1 : ℚ) < 2 := by norm_num
  rw [split.value_eq_zpow]
  calc (2 : ℚ) ^ 241 = 2 ^ (241 : ℤ) := (zpow_ofNat 2 241).symm
    _ < 2 ^ ((2046 : Nat) - 1074 : ℤ) := zpow_lt_zpow_right₀ two (by norm_num)
    _ ≤ (2 ^ 52 : Nat) * 2 ^ ((2046 : Nat) - 1074 : ℤ) :=
        le_mul_of_one_le_left (zpow_pos (by norm_num) _).le (by norm_num)

theorem least_normal_lt : 2 ^ 52 * least < 1 / 2 ^ 200 := by
  have two : (1 : ℚ) < 2 := by norm_num
  calc 2 ^ 52 * least = 2 ^ (52 - 1074 : ℤ) := by
        rw [least, ← zpow_ofNat, ← zpow_add₀ (by norm_num)]
        rfl
    _ < 2 ^ (-200 : ℤ) := zpow_lt_zpow_right₀ two (by norm_num)
    _ = 1 / 2 ^ 200 := by rw [zpow_neg, zpow_ofNat, one_div]

/-- The result of an operation whose exact result is well within the range of normal numbers. -/
theorem close_of_nearest (nearest : Nearest c q) (eq : bits f = min q infinite) (low : 2 ^ 52 * least ≤ c)
    (high : c ≤ 2 ^ 240) : IsPositive f q ∧ 2 ^ 52 ≤ q ∧ Close c (value q) := by
  have close := nearest.close low
  have normal := nearest.normal low
  have finite : q < infinite := by
    rw [← value_strictMono.lt_iff_lt]
    refine lt_of_le_of_lt ?_ two_pow_lt_value_infinite
    linarith [close.high, close.low]
  exact ⟨⟨by omega, by omega, finite⟩, normal, close⟩

end Pattern

namespace Json.Numeral

variable {d : Decimal} {m e : Nat}

/-- A decimal of few digits and a moderate power of ten is scaled to a number within two units of it, and to the
nearest one where the power is a value. -/
theorem scale?_within (positive : 0 < d.digits) (few : d.digits ≤ 2 ^ 53) (range : d.exponent.natAbs ≤ 50) :
    ∃ f q, scale? (d.exponent.natAbs / 308 + 1) d.digits.toUInt64.toFloat d.exponent = some f ∧
      IsPositive f q ∧ 2 ^ 52 ≤ q ∧ Within d.value (value q) ∧
      (d.exponent.natAbs ≤ 22 → Nearest d.value q) := by
  obtain ⟨m, k⟩ := d
  dsimp only at positive few range ⊢
  obtain ⟨p, -, normal, finite, exact⟩ := significand_close positive (by omega)
  obtain ⟨t, close, normal', finite', exact'⟩ := powerOfTen_close (by omega : k.natAbs ≤ 308)
  have one : (1 : ℚ) ≤ m := by exact_mod_cast positive
  have many : (m : ℚ) ≤ 2 ^ 53 := by exact_mod_cast few
  have large : (1 : ℚ) ≤ 10 ^ k.natAbs := one_le_pow₀ (by norm_num)
  have small : (10 : ℚ) ^ k.natAbs ≤ 10 ^ 50 := pow_le_pow_right₀ (by norm_num) range
  have above : 0 < value t := close.pos (by linarith)
  have ratio := close.ratio above
  have bounds : 1 / 2 ≤ value t ∧ value t ≤ 2 * 10 ^ 50 := by
    constructor <;> linarith [close.low, close.high]
  rcases Int.lt_or_le k 0 with below | nonneg
  · obtain ⟨q, nearest, eq⟩ := div_nearest finite finite'
    rw [exact few] at nearest
    have value : Decimal.value ⟨m, k⟩ = m / 10 ^ k.natAbs := by
      obtain ⟨e, rfl⟩ := Int.exists_eq_neg_ofNat below.le
      simp [Decimal.value, div_eq_mul_inv]
    have low : 2 ^ 52 * least ≤ m / Pattern.value t := by
      have scaled := mul_le_mul least_normal_lt.le bounds.2 above.le (by norm_num)
      rw [le_div_iff₀ above]
      linarith
    have high : m / Pattern.value t ≤ 2 ^ 240 := by
      rw [div_le_iff₀ above]
      linarith
    obtain ⟨finite'', normal'', close'⟩ := close_of_nearest nearest eq low high
    have within := close'.div ratio (by positivity) (by positivity)
    rw [div_div_div_cancel_right₀ above.ne', div_one, ← value] at within
    refine ⟨_, q, ?_, finite'', normal'', within, fun exactly => ?_⟩
    · rw [scale?, if_pos (by omega), if_neg (by omega)]
    · rwa [exact' exactly, ← value] at nearest
  · obtain ⟨q, nearest, eq⟩ := mul_nearest finite finite' normal
    rw [exact few] at nearest
    have value : Decimal.value ⟨m, k⟩ = m * 10 ^ k.natAbs := by
      obtain ⟨e, rfl⟩ := Int.eq_ofNat_of_zero_le nonneg
      simp [Decimal.value]
    have low : 2 ^ 52 * least ≤ m * Pattern.value t := by
      have scaled := mul_le_mul one bounds.1 (by norm_num) (by linarith)
      linarith [least_normal_lt]
    have high : m * Pattern.value t ≤ 2 ^ 240 := by
      have scaled := mul_le_mul many bounds.2 above.le (by norm_num)
      linarith
    obtain ⟨finite'', normal'', close'⟩ := close_of_nearest nearest eq low high
    have within := close'.mul ratio (by positivity) (by positivity)
    rw [mul_assoc, mul_div_cancel₀ _ above.ne', mul_one, ← value] at within
    refine ⟨_, q, ?_, finite'', normal'', within, fun exactly => ?_⟩
    · rw [scale?, if_pos (by omega), if_pos nonneg]
      dsimp only
      rw [isInf_eq_false finite''.bits finite''.lt, if_neg Bool.false_ne_true]
    · rwa [exact' exactly, ← value] at nearest

end Json.Numeral

namespace Decimal

variable {d : Decimal} {j k m p q : Nat} {t v : ℚ} {close : Bool}

/-- What is within two units of a decimal is on the same side of a number that the decimal is clear of. -/
theorem lt_of_clear (within : Within d.value v) (clear : Clear d.value t) (positive : 0 < d.value) :
    (t ≤ d.value → t < v) ∧ (d.value ≤ t → v < t) := by
  constructor <;> intro le <;> rcases clear with below | above <;> linarith [within.low, within.high]

/-- The same where the decimal may be the number, if that is a binary64 value: then it is read as it is. -/
theorem ClearOf.sides (clear : d.ClearOf t) (positive : 0 < d.value) (within : Within d.value (Pattern.value q))
    (nearest : d.exponent.natAbs ≤ 22 → Nearest d.value q) {n : Nat} (eq : n * unit k = t) (few : n ≤ 2 ^ 53) :
    (t ≤ d.value → t < Pattern.value q ∨ Pattern.value q = t ∧ d.value = t) ∧
      (d.value ≤ t → Pattern.value q < t ∨ Pattern.value q = t ∧ d.value = t) := by
  rcases clear with clear | ⟨tie, exact⟩
  · have sides := lt_of_clear within clear positive
    exact ⟨fun le => .inl (sides.1 le), fun le => .inl (sides.2 le)⟩
  · obtain ⟨r, units⟩ := exists_units_eq k few
    have same : Pattern.value r = t := by
      rw [← eq, Pattern.value, units, unit, Nat.cast_mul, Nat.cast_pow, Nat.cast_two, mul_assoc]
    have read : Pattern.value q = t := by
      rw [(nearest exact).unique (tie ▸ same ▸ nearest_value r), same]
    exact ⟨fun _ => .inr ⟨read, tie⟩, fun _ => .inr ⟨read, tie⟩⟩

namespace Written

/-- Reading stays on the number's side of both ends, and on one of them only where the number is even. -/
theorem between (written : Written d j m close) (positive : 0 < m) (few : m < 2 ^ 24)
    (within : Within d.value (Pattern.value q)) (nearest : d.exponent.natAbs ≤ 22 → Nearest d.value q) :
    Between (Pattern.value q) ((m - reach close) * unit (j + 925)) ((m + 1 / 2) * unit (j + 925)) (m % 2 = 0) := by
  have above : 0 < d.value := mul_pos (by exact_mod_cast written.some_digit) (ten_zpow_pos _)
  have even_of_tie
      (tie : d.value = (m - reach close) * unit (j + 925) ∨ d.value = (m + 1 / 2) * unit (j + 925)) : m % 2 = 0 := by
    by_contra odd
    obtain ⟨low, high⟩ := written.strict (by omega)
    rcases tie with tie | tie <;> linarith
  have low := written.clear_low.sides above within nearest (end_low positive j close) (by omega)
  have high := written.clear_high.sides above within nearest (end_high j m) (by omega)
  exact ⟨(low.1 written.low).imp_right fun ⟨read, tie⟩ => ⟨read, even_of_tie (.inl tie)⟩,
    (high.2 written.high).imp_right fun ⟨read, tie⟩ => ⟨read, even_of_tie (.inr tie)⟩⟩

theorem narrows (written : Written d j m close) (single : Single p j m) (positive : 0 < m)
    (close_iff : close = true ↔ m = 2 ^ 23 ∧ 0 < j) (within : Within d.value (Pattern.value q))
    (nearest : d.exponent.natAbs ≤ 22 → Nearest d.value q) :
    ∃ i n, i * 2 ^ 23 + n = p ∧ Narrows (Pattern.value q) i n := by
  have between := written.between positive single.lt within nearest
  cases close with
  | true =>
    rw [reach, if_pos rfl] at between
    exact single.narrows_least positive (close_iff.1 rfl) between
  | false =>
    rw [reach, if_neg Bool.false_ne_true] at between
    have usual : ¬(m = 2 ^ 23 ∧ 0 < j) := fun least => Bool.false_ne_true (close_iff.2 least)
    exact ⟨j, m, single.eq.symm, single.narrows_of_ne positive usual between⟩

end Written

end Decimal

namespace Binary64

variable {x : Binary64} {j m q : Nat}

theorem narrow_of_narrows (normal : 2 ^ 52 ≤ x.magnitude) (finite : x.magnitude < infinite)
    (narrows : Narrows (value x.magnitude) j m) :
    x.narrow.bits.toNat = (if x.isNegative then 2 ^ 31 else 0) + (j * 2 ^ 23 + m) := by
  obtain ⟨J, n, split, few⟩ := exists_splits x.magnitude
  have reading := reading_of_lt finite split few
  have large : 2 ^ 52 ≤ n := by
    have := split.eq
    have := split.normal
    omega
  have high := narrows.high
  rw [split.value_eq_zpow] at narrows high
  have le : (J - 1074 : ℤ) ≤ j - 149 := by
    by_contra above
    have unit := unit_pos (j + 925)
    have power : Pattern.unit (j + 925) ≤ 2 ^ (J - 1074 : ℤ) := by
      rw [unit_single]
      exact zpow_le_zpow_right₀ (by norm_num) (by omega)
    have digits : (2 ^ 24 : ℚ) ≤ n := by exact_mod_cast (by omega : 2 ^ 24 ≤ n)
    linarith [mul_le_mul digits power unit.le (by linarith)]
  exact (narrow_toNat reading (by omega) le narrows).trans (by rw [isNegative])

theorem narrow_ofFloat {f : Float} (read : IsPositive f q) (normal : 2 ^ 52 ≤ q) (narrows : Narrows (value q) j m) :
    (ofFloat f).narrow.bits.toNat = j * 2 ^ 23 + m ∧
      (ofFloat (-f)).narrow.bits.toNat = 2 ^ 31 + (j * 2 ^ 23 + m) := by
  have lt := read.lt
  have small : q < 2 ^ 63 := by
    unfold infinite at lt
    omega
  have plus : (ofFloat f).bits.toNat = q := read.bits
  have minus : (ofFloat (-f)).bits.toNat = 2 ^ 63 + q := bits_neg read.bits lt
  have magnitude : (ofFloat f).magnitude = q := by
    rw [Binary64.magnitude, plus, Nat.mod_eq_of_lt small]
  have magnitude' : (ofFloat (-f)).magnitude = q := by
    rw [Binary64.magnitude, minus, Nat.add_mod_left, Nat.mod_eq_of_lt small]
  have sign : (ofFloat f).isNegative = false := by
    rw [isNegative, plus, decide_eq_false_iff_not]
    omega
  have sign' : (ofFloat (-f)).isNegative = true := by
    rw [isNegative, minus, decide_eq_true_iff]
    omega
  have first := narrow_of_narrows (x := ofFloat f) (by rwa [magnitude]) (by rwa [magnitude]) (by rwa [magnitude])
  have second := narrow_of_narrows (x := ofFloat (-f)) (by rwa [magnitude']) (by rwa [magnitude'])
    (by rwa [magnitude'])
  rw [sign, if_neg Bool.false_ne_true, Nat.zero_add] at first
  rw [sign', if_pos rfl] at second
  exact ⟨first, second⟩

end Binary64

namespace Decimal

variable {d : Decimal} {j m p : Nat} {close : Bool}

/-- The text of a decimal is read, with either sign, and narrowed to a binary32 pattern. -/
def ReadsTo (d : Decimal) (p : Nat) : Prop :=
  let e := layout32.spelled d
  d.Proper ∧ e.digits < UInt64.size ∧ d.leading.natAbs < 0x80000000 ∧
    (scale? (e.exponent.natAbs / 308 + 1) e.digits.toUInt64.toFloat e.exponent).map
      (fun f => ((Binary64.ofFloat f).narrow.bits.toNat, (Binary64.ofFloat (-f)).narrow.bits.toNat))
        = some (p, 2 ^ 31 + p)

instance (d : Decimal) : Decidable d.Proper := inferInstanceAs (Decidable (_ ∨ _))

instance (d : Decimal) (p : Nat) : Decidable (d.ReadsTo p) := inferInstanceAs (Decidable (_ ∧ _))

theorem readsTo_zero : ReadsTo ⟨0, 0⟩ 0 := by decide +kernel

/-- The neighbours of the midpoint that is too near to a multiple of a power of ten. -/
theorem readsTo_unclear : ∀ m, m = 11420669 ∨ m = 11420670 →
    (shortest m (42 - 149) false).ReadsTo (42 * 2 ^ 23 + m) := by
  rintro m (rfl | rfl) <;> decide +kernel

theorem Written.readsTo (written : Written d j m close) (single : Single p j m) (positive : 0 < m)
    (close_iff : close = true ↔ m = 2 ^ 23 ∧ 0 < j) : d.ReadsTo p := by
  obtain ⟨e, spelled⟩ : ∃ e, e = layout32.spelled d := ⟨_, rfl⟩
  have finite := single.finite
  have value : e.value = d.value := spelled ▸ layout32.value_spelled d
  obtain ⟨least, most⟩ := written.exponent
  have few := written.few
  have length : d.digitList.length ≤ 9 := (Nat.length_toDigits_le_iff (by decide) (by decide)).2 (by omega)
  unfold power at least most
  have leading : d.leading.natAbs < 0x80000000 := by
    unfold leading
    omega
  have range : 0 < e.digits ∧ e.digits ≤ 2 ^ 53 ∧ e.exponent.natAbs ≤ 50 ∧
      (d.exponent.natAbs ≤ 22 → e.exponent.natAbs ≤ 22) := by
    have some_digit := written.some_digit
    rcases layout32.spelled_cases d with same | ⟨n, eq, -, lt⟩
    · rw [spelled, same]
      exact ⟨some_digit, by omega, by omega, id⟩
    · have short : 10 ^ (layout32.highest + 2).toNat < 2 ^ 53 := by decide
      rw [spelled, eq]
      exact ⟨by positivity, (lt.trans short).le, by norm_num, by norm_num⟩
  obtain ⟨some_digit, fits, small, exactly⟩ := range
  obtain ⟨f, q, scaled, read, normal, within, nearest⟩ := Json.Numeral.scale?_within some_digit fits small
  rw [value] at within nearest
  obtain ⟨i, n, rfl, narrows⟩ := written.narrows single positive close_iff within fun exact => nearest (exactly exact)
  obtain ⟨plus, minus⟩ := Binary64.narrow_ofFloat read normal narrows
  unfold ReadsTo
  rw [← spelled]
  dsimp only
  rw [scaled]
  exact ⟨.inl written.some_digit, lt_of_le_of_lt fits (by decide), leading, by rw [Option.map_some, plus, minus]⟩

theorem readsTo_shortest (single : Single p j m) (positive : 0 < m) :
    (shortest m (j - 149) (decide (m = 2 ^ 23 ∧ 0 < j))).ReadsTo p := by
  by_cases unclear : j = 42 ∧ (m = 11420669 ∨ m = 11420670)
  · obtain ⟨rfl, odd⟩ := unclear
    rw [decide_eq_false (by omega), single.eq]
    exact readsTo_unclear m odd
  · exact (written_shortest single positive unclear decide_eq_true_iff rfl).readsTo single positive decide_eq_true_iff

end Decimal

namespace Binary32

variable {x : Binary32} {j m : Nat} {rest : List Char}

def IsFinite (x : Binary32) : Prop :=
  ∃ negative significand exponent, x.reading = .finite negative significand exponent

def magnitude (x : Binary32) : Nat := x.bits.toNat % 2 ^ 31

def isNegative (x : Binary32) : Bool := decide (2 ^ 31 ≤ x.bits.toNat)

theorem toNat_bits (x : Binary32) : x.bits.toNat = (if x.isNegative then 2 ^ 31 else 0) + x.magnitude := by
  have lt := x.bits.toNat_lt
  unfold isNegative magnitude
  split <;> simp_all <;> omega

theorem reading_of_single (single : Single x.magnitude j m) : x.reading = .finite x.isNegative m (j - 149) := by
  obtain ⟨eq, lt, normal, finite⟩ := single
  unfold magnitude at eq
  have exponent : x.bits.toNat / 2 ^ 23 % 2 ^ 8 = x.bits.toNat % 2 ^ 31 / 2 ^ 23 := by omega
  have fraction : x.bits.toNat % 2 ^ 23 = x.bits.toNat % 2 ^ 31 % 2 ^ 23 := by omega
  unfold reading Reading.ofPattern isNegative
  simp only [Nat.pow_eq, exponent, fraction]
  rw [if_neg (by omega)]
  split <;> simp only [Reading.finite.injEq, true_and] <;> omega

theorem magnitude_lt (finite : x.IsFinite) : x.magnitude < 255 * 2 ^ 23 := by
  obtain ⟨_, _, _, finite⟩ := finite
  exact Reading.lt_of_ofPattern finite

theorem isFinite_of_lt (lt : x.magnitude < 255 * 2 ^ 23) : x.IsFinite := by
  obtain ⟨j, m, single⟩ := exists_single lt
  exact ⟨_, _, _, reading_of_single single⟩

theorem exists_readsTo (finite : x.IsFinite) : ∃ d, x.shortest? = some (x.isNegative, d) ∧ d.ReadsTo x.magnitude := by
  obtain ⟨j, m, single⟩ := exists_single (magnitude_lt finite)
  have reading := reading_of_single single
  rcases Nat.eq_zero_or_pos m with rfl | positive
  · have zero : x.magnitude = 0 := by
      have := single.eq
      have := single.normal
      omega
    refine ⟨⟨0, 0⟩, ?_, zero ▸ Decimal.readsTo_zero⟩
    rw [shortest?, reading]
    rfl
  · refine ⟨_, ?_, Decimal.readsTo_shortest single positive⟩
    have close : decide (m = 2 ^ 23 ∧ (-149 : Int) < j - 149) = decide (m = 2 ^ 23 ∧ 0 < j) := by
      rw [decide_eq_decide]
      omega
    rw [shortest?, reading, ← close]
    obtain ⟨m, rfl⟩ := Nat.exists_eq_succ_of_ne_zero positive.ne'
    rfl

theorem float32_writeBinary32 (finite : x.IsFinite) (ends : Stops rest) :
    Reader.float32 (Json.writeBinary32 x ++ rest) = .ok (x, rest) := by
  obtain ⟨d, shortest, proper, fits, leading, scaled⟩ := exists_readsTo finite
  obtain ⟨f, found, narrowed⟩ := Option.map_eq_some_iff.1 scaled
  obtain ⟨plus, minus⟩ := Prod.mk.inj narrowed
  obtain ⟨n, read, same⟩ : ∃ n, Json.Numeral.read? (layout32.write x.isNegative d ++ rest) = some (n, rest) ∧
      n.value? = Json.Numeral.float? x.isNegative (layout32.spelled d).digits (layout32.spelled d).exponent :=
    Json.FloatLayout.read?_write proper ends fits leading
  have value : n.value? = some (.float (.ofFloat (if x.isNegative then -f else f))) := by
    rw [same, Json.Numeral.float?, found]
  have text : Json.writeBinary32 x = layout32.write x.isNegative d := by
    rw [Json.writeBinary32, shortest]
    rfl
  have narrow : (Binary64.ofFloat (if x.isNegative then -f else f)).narrow = x := by
    have eq := x.toNat_bits
    have same : (Binary64.ofFloat (if x.isNegative then -f else f)).narrow.bits.toNat = x.bits.toNat := by
      rw [eq]
      split
      · exact minus
      · exact plus.trans (Nat.zero_add _).symm
    generalize (Binary64.ofFloat (if x.isNegative then -f else f)).narrow = y at same
    cases x
    cases y
    exact congrArg _ (UInt32.toNat_inj.1 same)
  have taken : Reader.float32 (layout32.write x.isNegative d ++ rest) = .ok (Binary64.narrow _, rest) :=
    Json.Reader.ofNumber_read _ read value rfl
  rw [text, taken, narrow]

end Binary32

end VectorGraph
