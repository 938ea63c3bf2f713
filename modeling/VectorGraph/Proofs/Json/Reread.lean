import VectorGraph.Json.Forms
import VectorGraph.Proofs.Json.Record
import VectorGraph.Proofs.Json.Scaling
import Mathlib.Data.List.Basic

/-!
What edges and properties are read to from their own compact texts. Everything but the number comes back as it
was. The number is written as its shortest decimal, which rounds to it, but reading scales the decimal's digits
by a power of ten and rounds on the way, so that some numbers come back as a neighbour or as the one after.
-/
namespace VectorGraph

open Pattern
open Json (Form Stops Reader layout64)

/-- Only a number has another exponent field than all ones. -/
theorem Reading.lt_of_ofPattern {exponentBits fractionBits pattern significand : Nat} {negative : Bool} {exponent : Int}
    (finite : ofPattern exponentBits fractionBits pattern = .finite negative significand exponent) :
    pattern % 2 ^ (exponentBits + fractionBits) < (2 ^ exponentBits - 1) * 2 ^ fractionBits := by
  let field := pattern / 2 ^ fractionBits % 2 ^ exponentBits
  have fields : pattern % 2 ^ (exponentBits + fractionBits) = pattern % 2 ^ fractionBits + 2 ^ fractionBits * field := by
    rw [Nat.add_comm exponentBits, Nat.pow_add, Nat.mod_mul]
  have ones : field + 1 ≠ 2 ^ exponentBits := by
    intro ones
    unfold ofPattern at finite
    simp only [Nat.pow_eq] at finite
    rw [if_pos ones] at finite
    split at finite <;> cases finite
  have fits : field < 2 ^ exponentBits := Nat.mod_lt _ (by positivity)
  calc
    _ < 2 ^ fractionBits + 2 ^ fractionBits * field := by
      rw [fields]
      exact Nat.add_lt_add_right (Nat.mod_lt _ (by positivity)) _
    _ = (field + 1) * 2 ^ fractionBits := by ring
    _ ≤ _ := Nat.mul_le_mul_right _ (by omega)

namespace Binary64

variable {x : Binary64} {j m : Nat}

def IsFinite (x : Binary64) : Prop :=
  ∃ negative significand exponent, x.reading = .finite negative significand exponent

def magnitude (x : Binary64) : Nat := x.bits.toNat % 2 ^ 63

theorem reading_of_lt (lt : x.magnitude < infinite) (split : Splits x.magnitude j m) (few : m < 2 ^ 53) :
    x.reading = .finite (decide (2 ^ 63 ≤ x.bits.toNat)) m (j - 1074) := by
  have eq := split.eq
  have normal := split.normal
  unfold magnitude infinite at *
  have exponent : x.bits.toNat / 2 ^ 52 % 2 ^ 11 = x.bits.toNat % 2 ^ 63 / 2 ^ 52 := by omega
  have fraction : x.bits.toNat % 2 ^ 52 = x.bits.toNat % 2 ^ 63 % 2 ^ 52 := by omega
  unfold reading Reading.ofPattern
  simp only [Nat.pow_eq, exponent, fraction]
  rw [if_neg (by omega)]
  split
  · simp only [Reading.finite.injEq, true_and]
    omega
  · simp only [Reading.finite.injEq, true_and]
    omega

theorem magnitude_lt (finite : x.IsFinite) : x.magnitude < infinite := by
  obtain ⟨_, _, _, finite⟩ := finite
  exact Reading.lt_of_ofPattern finite

def isNegative (x : Binary64) : Bool := decide (2 ^ 63 ≤ x.bits.toNat)

theorem shortest?_zero (zero : x.magnitude = 0) : x.shortest? = some (x.isNegative, ⟨0, 0⟩) := by
  have split : Splits x.magnitude 0 0 := ⟨zero, by norm_num, .inl rfl⟩
  rw [shortest?, reading_of_lt (by rw [zero]; norm_num [infinite]) split (by norm_num)]
  rfl

theorem shortest?_pos (finite : x.IsFinite) (split : Splits x.magnitude j m) (few : m < 2 ^ 53)
    (positive : 0 < m) :
    x.shortest? = some (x.isNegative, .shortest m (j - 1074) (decide (m = 2 ^ 52 ∧ 0 < j))) := by
  have close : decide (m = 2 ^ 52 ∧ (-1074 : Int) < j - 1074) = decide (m = 2 ^ 52 ∧ 0 < j) := by
    rw [decide_eq_decide]
    omega
  rw [shortest?, reading_of_lt (magnitude_lt finite) split few, ← close]
  obtain ⟨m, rfl⟩ := Nat.exists_eq_succ_of_ne_zero positive.ne'
  rfl

end Binary64

namespace Json

variable {x : Nat} {d : Decimal}

/-- A text has the decimal's own digits, or those of a whole number with its zeros. -/
theorem FloatLayout.spelled_cases (l : FloatLayout) (d : Decimal) : l.spelled d = d ∨
    ∃ n : Nat, l.spelled d = ⟨d.digits * 10 ^ (n + 1), -1⟩ ∧ d.exponent = n ∧
      d.digits * 10 ^ (n + 1) < 10 ^ (l.highest + 2).toNat := by
  by_cases whole : (l.lowest ≤ d.leading ∧ d.leading ≤ l.highest) ∧ 0 ≤ d.exponent
  · right
    obtain ⟨short, nonneg⟩ := whole
    obtain ⟨n, exponent⟩ := Int.eq_ofNat_of_zero_le nonneg
    have bound : d.digits < 10 ^ d.digitList.length :=
      (Nat.length_toDigits_le_iff (by decide) Nat.length_toDigits_pos).1 le_rfl
    have total : d.digitList.length + (n + 1) ≤ (l.highest + 2).toNat := by
      have short := short.2
      unfold Decimal.leading at short
      omega
    refine ⟨n, ?_, exponent, ?_⟩
    · rw [spelled, if_pos short, Decimal.spelled, if_pos nonneg, exponent, Int.toNat_natCast]
    · calc d.digits * 10 ^ (n + 1) < 10 ^ d.digitList.length * 10 ^ (n + 1) :=
            Nat.mul_lt_mul_of_pos_right bound (by positivity)
        _ = 10 ^ (d.digitList.length + (n + 1)) := (pow_add ..).symm
        _ ≤ 10 ^ (l.highest + 2).toNat := Nat.pow_le_pow_right (by norm_num) total
  · left
    rw [spelled, Decimal.spelled]
    split <;> simp_all

theorem FloatLayout.value_spelled (l : FloatLayout) (d : Decimal) : (l.spelled d).value = d.value := by
  rcases l.spelled_cases d with same | ⟨n, eq, exponent, -⟩
  · rw [same]
  · rw [eq, Decimal.value, Decimal.value, exponent]
    push_cast
    rw [zpow_natCast, pow_succ, zpow_neg_one]
    field_simp

/-- The significand and power that reading takes from the text of a short decimal. -/
theorem spelled_spec (positive : 0 < d.digits) (few : d.digits < 10 ^ 18) (least : -324 ≤ d.exponent)
    (most : d.exponent ≤ 308) :
    let e := layout64.spelled d
    e.value = d.value ∧ 0 < e.digits ∧ e.digits < 2 ^ 64 ∧ -324 ≤ e.exponent ∧ e.exponent ≤ 308 := by
  intro e
  refine ⟨layout64.value_spelled d, ?_⟩
  rcases layout64.spelled_cases d with same | ⟨n, eq, -, lt⟩
  · rw [show e = d from same]
    exact ⟨positive, by omega, least, most⟩
  · rw [show e = _ from eq]
    have short : 10 ^ (layout64.highest + 2).toNat < 2 ^ 64 := by decide
    exact ⟨by positivity, lt.trans short, by norm_num, by norm_num⟩

theorem leading_lt (few : d.digits < 10 ^ 18) (least : -324 ≤ d.exponent) (most : d.exponent ≤ 308) :
    d.leading.natAbs < 0x80000000 := by
  have length : d.digitList.length ≤ 18 := (Nat.length_toDigits_le_iff (by decide) (by decide)).2 few
  unfold Decimal.leading
  omega

open Numeral

/-- The text of a finite number has a magnitude near the number's. -/
theorem scale?_shortest {j m : Nat} (split : Splits x j m) (lt : m < 2 ^ 53) (positive : 0 < m)
    (finite : x < infinite) (shortest : d = .shortest m (j - 1074) (decide (m = 2 ^ 52 ∧ 0 < j))) :
    let e := layout64.spelled d
    ∃ f, scale? (e.exponent.natAbs / 308 + 1) e.digits.toUInt64.toFloat e.exponent = some f ∧ Near f x ∧
      (e.digits ≤ 2 ^ 53 → e.exponent.natAbs ≤ 22 → bits f = x) := by
  obtain ⟨nearest, some_digit, few, least, most⟩ := Decimal.shortest_spec split lt positive finite shortest
  obtain ⟨value, some_digit', few', least', most'⟩ := spelled_spec some_digit few least most
  by_cases room : x + 2 < infinite
  · exact scale?_near some_digit' few' least' most' (value ▸ nearest) room
  · -- The two largest numbers are left, which differ from the largest by at most one.
    have eq := split.eq
    have normal := split.normal
    unfold infinite at finite room
    obtain rfl : j = 2045 := by omega
    have two : m = 2 ^ 53 - 1 ∨ m = 2 ^ 53 - 2 := by omega
    have open' : decide (m = 2 ^ 52 ∧ 0 < 2045) = false := by
      rw [decide_eq_false_iff_not]
      omega
    rw [open'] at shortest
    obtain ⟨long, read⟩ := scale?_largest m two
    have same : d = .shortest m 971 false := shortest
    rw [← same] at long read
    obtain ⟨f, scaled, read⟩ := Option.map_eq_some_iff.1 read
    unfold infinite at read
    exact ⟨f, scaled, ⟨by unfold infinite; omega, by omega, by omega⟩, fun small => absurd long (not_lt.2 small)⟩

end Json

namespace Binary64

open Json.Numeral (scale? float? Near)

variable {x : Binary64}

/-- The significand and the power of ten that reading takes from the number's text are values of their own. -/
def ReadsExactly (x : Binary64) : Prop := ∀ negative d, x.shortest? = some (negative, d) →
  (layout64.spelled d).digits ≤ 2 ^ 53 ∧ (layout64.spelled d).exponent.natAbs ≤ 22

/-- What reading its own text makes of a number: a finite number of the same sign that is at most two patterns
away, and the number itself where it reads exactly. -/
structure Rereads (x y : Binary64) : Prop where
  sign : y.isNegative = x.isNegative
  finite : y.IsFinite
  high : y.bits.toNat ≤ x.bits.toNat + 2
  low : x.bits.toNat ≤ y.bits.toNat + 2
  exact : x.ReadsExactly → y = x

theorem exists_scaled (finite : x.IsFinite) : ∃ d f, x.shortest? = some (x.isNegative, d) ∧ d.Proper ∧
    (layout64.spelled d).digits < UInt64.size ∧ d.leading.natAbs < 0x80000000 ∧
    scale? ((layout64.spelled d).exponent.natAbs / 308 + 1) (layout64.spelled d).digits.toUInt64.toFloat
        (layout64.spelled d).exponent = some f ∧
      Near f x.magnitude ∧
      ((layout64.spelled d).digits ≤ 2 ^ 53 → (layout64.spelled d).exponent.natAbs ≤ 22 →
        Pattern.bits f = x.magnitude) := by
  have lt := magnitude_lt finite
  rcases Nat.eq_zero_or_pos x.magnitude with zero | some_bit
  · have zeros : Pattern.bits ((0 : Nat).toUInt64.toFloat / Json.Numeral.powerOfTen 1) = 0 := by decide +kernel
    exact ⟨⟨0, 0⟩, (0 : Nat).toUInt64.toFloat / Json.Numeral.powerOfTen 1, shortest?_zero zero, .inr rfl, by decide,
      by decide, rfl, ⟨by rw [zeros]; decide, by omega, by omega⟩, fun _ _ => zeros.trans zero.symm⟩
  · obtain ⟨j, m, split, few⟩ := exists_splits x.magnitude
    have positive : 0 < m := by
      have := split.eq
      have := split.normal
      omega
    obtain ⟨-, some_digit, short, least, most⟩ := Decimal.shortest_spec split few positive lt rfl
    obtain ⟨-, -, fits, -, -⟩ := Json.spelled_spec some_digit short least most
    obtain ⟨f, scaled, near, exact⟩ := Json.scale?_shortest split few positive lt rfl
    exact ⟨_, f, shortest?_pos finite split few positive, .inl some_digit, fits, Json.leading_lt short least most,
      scaled, near, exact⟩

theorem toNat_bits (x : Binary64) : x.bits.toNat = (if x.isNegative then 2 ^ 63 else 0) + x.magnitude := by
  have lt := x.bits.toNat_lt
  unfold isNegative magnitude
  split <;> simp_all <;> omega

theorem isFinite_of_lt (lt : x.magnitude < infinite) : x.IsFinite := by
  obtain ⟨j, m, split, few⟩ := exists_splits x.magnitude
  exact ⟨_, _, _, reading_of_lt lt split few⟩

theorem rereads_of_near {f : Float} (near : Near f x.magnitude)
    (exact : x.ReadsExactly → Pattern.bits f = x.magnitude) :
    x.Rereads (.ofFloat (if x.isNegative then -f else f)) := by
  obtain ⟨lt, high, low⟩ := near
  have eq := x.toNat_bits
  have bits : (ofFloat (if x.isNegative then -f else f)).bits.toNat
      = (if x.isNegative then 2 ^ 63 else 0) + Pattern.bits f := by
    cases x.isNegative with
    | false => exact (Nat.zero_add _).symm
    | true => exact bits_neg rfl lt
  generalize ofFloat (if x.isNegative then -f else f) = y at bits
  have small : Pattern.bits f < 2 ^ 63 := by
    unfold infinite at lt
    omega
  have sign : y.isNegative = x.isNegative := by
    unfold isNegative at bits ⊢
    rw [decide_eq_decide]
    simp only [decide_eq_true_iff] at bits
    split at bits <;> omega
  have magnitude : y.magnitude = Pattern.bits f := by
    unfold Binary64.magnitude
    split at bits <;> omega
  exact {
    sign
    finite := isFinite_of_lt (by rw [magnitude]; exact lt)
    high := by omega
    low := by omega
    exact := fun exactly => by
      have same : y.bits.toNat = x.bits.toNat := by rw [bits, eq, exact exactly]
      cases x
      cases y
      exact congrArg _ (UInt64.toNat_inj.1 same) }

theorem float64_writeBinary64 (finite : x.IsFinite) : ∃ y, x.Rereads y ∧
    ∀ rest, Stops rest → Reader.float64 (Json.writeBinary64 x ++ rest) = .ok (y, rest) := by
  obtain ⟨d, f, shortest, proper, fits, leading, scaled, near, exact⟩ := exists_scaled finite
  have value : float? x.isNegative (layout64.spelled d).digits (layout64.spelled d).exponent
      = some (.float (.ofFloat (if x.isNegative then -f else f))) := by
    rw [float?, scaled]
  refine ⟨_, rereads_of_near near fun exactly => ?_, fun rest ends => ?_⟩
  · exact exact (exactly _ _ shortest).1 (exactly _ _ shortest).2
  · obtain ⟨n, read, same⟩ := Json.FloatLayout.read?_write proper ends fits leading
    have text : Json.writeBinary64 x = layout64.write x.isNegative d := by
      rw [Json.writeBinary64, shortest]
      rfl
    rw [text]
    exact Json.Reader.ofNumber_read _ read (same.trans value) rfl

/-- Some numbers are off by two. -/
example : Reader.float64 (Json.writeBinary64 ⟨0x16cda791d8a50636⟩) = .ok (⟨0x16cda791d8a50638⟩, []) := by
  decide +kernel

end Binary64

theorem Edge.read_compact {e : Edge} {x : Binary64}
    (weight : ∀ rest, Stops rest → Reader.float64 (Json.writeBinary64 e.weight ++ rest) = .ok (x, rest)) :
    Edge.form.read.run (.ofList (Edge.form.toJson e).compact) = .ok { e with weight := x } := by
  have returns : List.Forall₂ (Json.Field.Returns · e ·) Edge.form.fields _ :=
    .cons .ref <| .cons .ref <| .cons .ref <| .cons .word <| .cons (.float64 weight) <| .cons .word <|
      .cons .link <| .cons .link <| .cons .link <| .cons .link .nil
  exact Form.run_compact (by decide) returns

theorem Property.read_compact {p : Property} {x : Binary64}
    (value : ∀ rest, Stops rest → Reader.float64 (Json.writeBinary64 p.value ++ rest) = .ok (x, rest)) :
    Property.form.read.run (.ofList (Property.form.toJson p).compact) = .ok { p with value := x } := by
  have returns : List.Forall₂ (Json.Field.Returns · p ·) Property.form.fields _ :=
    .cons .ref <| .cons .id <| .cons .word <| .cons (.float64 value) .nil
  exact Form.run_compact (by decide) returns

/-- An edge or a property with a finite number is read back from its own text, with every handle, link and word
as it was and a number that is off by at most two patterns. -/
theorem records_reread :
    (∀ e : Edge, e.weight.IsFinite → ∃ x, e.weight.Rereads x ∧
      Edge.form.read.run (.ofList (Edge.form.toJson e).compact) = .ok { e with weight := x }) ∧
    ∀ p : Property, p.value.IsFinite → ∃ x, p.value.Rereads x ∧
      Property.form.read.run (.ofList (Property.form.toJson p).compact) = .ok { p with value := x } := by
  constructor
  · intro e finite
    obtain ⟨x, rereads, weight⟩ := Binary64.float64_writeBinary64 finite
    exact ⟨x, rereads, Edge.read_compact weight⟩
  · intro p finite
    obtain ⟨x, rereads, value⟩ := Binary64.float64_writeBinary64 finite
    exact ⟨x, rereads, Property.read_compact value⟩

/-- The largest number, on an edge with links, and the negative number next to zero. -/
theorem records_reread_extremes :
    (∃ x, Binary64.Rereads ⟨0x7fefffffffffffff⟩ x ∧
      Edge.form.read.run (.ofList (Edge.form.toJson
          ⟨⟨⟨4294967298⟩⟩, ⟨⟨4294967297⟩⟩, ⟨⟨4294967297⟩⟩, 7, ⟨0x7fefffffffffffff⟩, 18446744073709551615,
            ⟨some ⟨⟨4294967297⟩⟩, none⟩, ⟨none, some ⟨⟨8589934595⟩⟩⟩⟩).compact)
        = .ok ⟨⟨⟨4294967298⟩⟩, ⟨⟨4294967297⟩⟩, ⟨⟨4294967297⟩⟩, 7, x, 18446744073709551615,
            ⟨some ⟨⟨4294967297⟩⟩, none⟩, ⟨none, some ⟨⟨8589934595⟩⟩⟩⟩) ∧
    ∃ x, Binary64.Rereads ⟨0x8000000000000001⟩ x ∧
      Property.form.read.run (.ofList (Property.form.toJson
          ⟨⟨⟨4294967297⟩⟩, ⟨4294967297⟩, 3, ⟨0x8000000000000001⟩⟩).compact)
        = .ok ⟨⟨⟨4294967297⟩⟩, ⟨4294967297⟩, 3, x⟩ :=
  ⟨records_reread.1 ⟨⟨⟨4294967298⟩⟩, ⟨⟨4294967297⟩⟩, ⟨⟨4294967297⟩⟩, 7, ⟨0x7fefffffffffffff⟩, 18446744073709551615,
      ⟨some ⟨⟨4294967297⟩⟩, none⟩, ⟨none, some ⟨⟨8589934595⟩⟩⟩⟩ ⟨_, _, _, rfl⟩,
    records_reread.2 ⟨⟨⟨4294967297⟩⟩, ⟨4294967297⟩, 3, ⟨0x8000000000000001⟩⟩ ⟨_, _, _, rfl⟩⟩

/-- The odd number `2 ^ 53 - 1` has a text that is read as the even one below it. -/
theorem records_reread_inexact :
    (¬∀ e : Edge, e.weight.IsFinite →
      Edge.form.read.run (.ofList (Edge.form.toJson e).compact) = .ok e) ∧
    ¬∀ p : Property, p.value.IsFinite →
      Property.form.read.run (.ofList (Property.form.toJson p).compact) = .ok p := by
  constructor
  · intro always
    have same := always ⟨⟨⟨4294967297⟩⟩, ⟨⟨4294967297⟩⟩, ⟨⟨4294967297⟩⟩, 1, ⟨0x433fffffffffffff⟩, 0, {}, {}⟩
      ⟨_, _, _, rfl⟩
    revert same
    decide +kernel
  · intro always
    have same := always ⟨⟨⟨4294967297⟩⟩, ⟨4294967297⟩, 3, ⟨0x433fffffffffffff⟩⟩ ⟨_, _, _, rfl⟩
    revert same
    decide +kernel

end VectorGraph
