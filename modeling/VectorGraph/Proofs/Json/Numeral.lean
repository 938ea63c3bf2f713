import VectorGraph.Json.Numeral
import VectorGraph.Json.Value
import Mathlib.Data.List.TakeDrop
import Mathlib.Tactic.IntervalCases
import Mathlib.Tactic.Ring

/-!
The texts of numerals. A well-formed numeral is read back from its text, and a decimal is written as the text
of a numeral that holds its digits, so reading the text applies the decimal's power of ten to them. A whole
number has a zero after the point, which is taken into the significand.
-/
namespace VectorGraph.Json

/-- A text that carries no numeral on. -/
def Stops (rest : List Char) : Prop := ∀ c ∈ rest.head?, c.isDigit = false ∧ c ≠ '.' ∧ c ≠ 'e' ∧ c ≠ 'E'

theorem stops_comma (rest : List Char) : Stops (',' :: rest) := by simp [Stops]

theorem stops_brace (rest : List Char) : Stops ('\x7d' :: rest) := by simp [Stops]

namespace Numeral

def point : List Char → List Char
  | [] => []
  | ds => '.' :: ds

def power : Option (Bool × List Char) → List Char
  | none => []
  | some (negative, ds) => 'e' :: (if negative then '-' else '+') :: ds

def text (n : Numeral) : List Char := signed n.negative (n.whole ++ (point n.fraction ++ power n.exponent))

structure WellFormed (n : Numeral) : Prop where
  whole : ∀ c ∈ n.whole, c.isDigit = true
  whole_ne_nil : n.whole ≠ []
  /-- A zero is not followed by another digit. -/
  leads : ∀ c cs, n.whole ≠ '0' :: c :: cs
  fraction : ∀ c ∈ n.fraction, c.isDigit = true
  exponent : ∀ negative ds, n.exponent = some (negative, ds) → ds ≠ [] ∧ ∀ c ∈ ds, c.isDigit = true
  isFloat : n.isFloat = (!n.fraction.isEmpty || n.exponent.isSome)

variable {rest ds : List Char}

theorem digits?_append (digits : ∀ c ∈ ds, c.isDigit = true) (some_digit : ds ≠ [])
    (stops : ∀ c ∈ rest.head?, c.isDigit = false) : digits? (ds ++ rest) = some (ds, rest) := by
  have taken : rest.takeWhile Char.isDigit = [] := by cases rest <;> simp_all
  have left : rest.dropWhile Char.isDigit = rest := by cases rest <;> simp_all
  have split : (ds ++ rest).span Char.isDigit = (ds, rest) := by
    rw [List.span_eq_takeWhile_dropWhile, List.takeWhile_append_of_pos digits,
      List.dropWhile_append_of_pos digits, taken, left, List.append_nil]
  unfold digits?
  rw [split]
  cases ds with
  | nil => exact absurd rfl some_digit
  | cons => rfl

theorem fraction?_append (digits : ∀ c ∈ ds, c.isDigit = true)
    (stops : ∀ c ∈ rest.head?, c.isDigit = false ∧ c ≠ '.') :
    fraction? (point ds ++ rest) = some (ds, rest) := by
  cases ds with
  | nil =>
    cases rest with
    | nil => rfl
    | cons c cs =>
      unfold point fraction?
      split
      · simp_all
      · rfl
  | cons c cs => exact digits?_append digits (by simp) fun c mem => (stops c mem).1

theorem exponent?_append {e : Option (Bool × List Char)} (ends : Stops rest)
    (digits : ∀ negative ds, e = some (negative, ds) → ds ≠ [] ∧ ∀ c ∈ ds, c.isDigit = true) :
    exponent? (power e ++ rest) = some (e, rest) := by
  cases e with
  | none =>
    cases rest with
    | nil => rfl
    | cons c cs =>
      have other := ends c (by simp)
      simp [power, exponent?, other]
  | some e =>
    obtain ⟨negative, ds⟩ := e
    obtain ⟨some_digit, digits⟩ := digits negative ds rfl
    have taken := digits?_append digits some_digit fun c mem => (ends c mem).1
    cases negative <;> simp [power, exponent?, taken]

theorem power_stops (e : Option (Bool × List Char)) (ends : Stops rest) :
    ∀ c ∈ (power e ++ rest).head?, c.isDigit = false ∧ c ≠ '.' := by
  cases e with
  | none => exact fun c mem => ⟨(ends c mem).1, (ends c mem).2.1⟩
  | some e => simp [power]

theorem point_stops (ds : List Char) (e : Option (Bool × List Char)) (ends : Stops rest) :
    ∀ c ∈ (point ds ++ (power e ++ rest)).head?, c.isDigit = false := by
  cases ds with
  | nil => exact fun c mem => (power_stops e ends c mem).1
  | cons => simp [point]

variable {n : Numeral}

theorem read?_text (wellFormed : n.WellFormed) (ends : Stops rest) : read? (n.text ++ rest) = some (n, rest) := by
  have whole := digits?_append wellFormed.whole wellFormed.whole_ne_nil
    (point_stops n.fraction n.exponent ends)
  have whole : whole? (n.whole ++ (point n.fraction ++ (power n.exponent ++ rest)))
      = some (n.whole, point n.fraction ++ (power n.exponent ++ rest)) := by
    unfold whole?
    rw [whole]
    split
    · rename_i c cs _ same
      simp only [Option.some.injEq, Prod.mk.injEq] at same
      exact absurd same.1 (wellFormed.leads c cs)
    · rfl
  have fraction := fraction?_append wellFormed.fraction (power_stops n.exponent ends)
  have exponent := exponent?_append ends wellFormed.exponent
  have isFloat := wellFormed.isFloat
  obtain ⟨negative, w, f, e, i⟩ := n
  cases negative with
  | true => simp_all [read?, text, signed]
  | false =>
    obtain ⟨c, cs, rfl⟩ := List.exists_cons_of_ne_nil wellFormed.whole_ne_nil
    have digit : c ≠ '-' := by
      rintro rfl
      exact absurd (wellFormed.whole '-' (by simp)) (by decide)
    simp only [text, signed, List.cons_append, List.append_assoc, Bool.false_eq_true, if_false] at whole ⊢
    unfold read?
    split
    simp_all

theorem le_ofDigitChars (ds : List Char) (s : Nat) : s ≤ Nat.ofDigitChars 10 ds s := by
  induction ds generalizing s with
  | nil => simp
  | cons c cs ih =>
    rw [Nat.ofDigitChars_cons]
    exact le_trans (by omega) (ih _)

theorem absorb_eq {s : Nat} (fits : Nat.ofDigitChars 10 ds s < UInt64.size) :
    absorb s ds = (Nat.ofDigitChars 10 ds s, []) := by
  induction ds generalizing s with
  | nil => simp [absorb]
  | cons c cs ih =>
    rw [Nat.ofDigitChars_cons] at fits ⊢
    have small : 10 * s + digit c < UInt64.size := (le_ofDigitChars cs _).trans_lt fits
    rw [absorb, if_pos small]
    exact ih fits

def significand (n : Numeral) : Nat := Nat.ofDigitChars 10 (n.whole ++ n.fraction) 0

/-- The power of ten of the last digit. -/
def last (n : Numeral) : Int :=
  (match n.exponent with
    | none => 0
    | some (negative, ds) => if negative then -(Nat.ofDigitChars 10 ds 0 : Int) else Nat.ofDigitChars 10 ds 0)
  - n.fraction.length

theorem absorb_whole (fits : n.significand < UInt64.size) :
    absorb 0 n.whole = (Nat.ofDigitChars 10 n.whole 0, []) := by
  unfold significand at fits
  rw [Nat.ofDigitChars_append] at fits
  exact absorb_eq ((le_ofDigitChars n.fraction _).trans_lt fits)

theorem absorb_fraction (fits : n.significand < UInt64.size) :
    absorb (Nat.ofDigitChars 10 n.whole 0) n.fraction = (n.significand, []) := by
  unfold significand at fits ⊢
  rw [Nat.ofDigitChars_append] at fits ⊢
  exact absorb_eq fits

theorem value?_of_isFloat (isFloat : n.isFloat = true) (fits : n.significand < UInt64.size)
    (near : ∀ negative ds, n.exponent = some (negative, ds) → Nat.ofDigitChars 10 ds 0 < 0x80000000) :
    n.value? = float? n.negative n.significand n.last := by
  unfold value? last
  rw [absorb_whole fits]
  simp only [absorb_fraction fits, isFloat]
  cases exponent : n.exponent with
  | none => simp
  | some e =>
    obtain ⟨negative, ds⟩ := e
    have near := near negative ds exponent
    rw [Nat.ofDigitChars_eq_foldl] at near
    simp only [Nat.ofDigitChars_eq_foldl]
    cases negative <;> simp_all [digit, sub_eq_add_neg, add_comm]

theorem value?_whole (isFloat : n.isFloat = false)
    (positive : n.negative = false) (fits : Nat.ofDigitChars 10 n.whole 0 < UInt64.size) :
    n.value? = some (.unsigned (Nat.ofDigitChars 10 n.whole 0)) := by
  unfold value?
  rw [absorb_eq fits]
  simp [isFloat, positive]

end Numeral

end VectorGraph.Json

namespace VectorGraph

open Json (Numeral)

namespace Decimal

def Proper (d : Decimal) : Prop := 0 < d.digits ∨ d.exponent = 0

theorem isDigit_of_mem_digitList (d : Decimal) : ∀ c ∈ d.digitList, c.isDigit = true :=
  fun _ => Nat.isDigit_of_mem_toDigits (by decide) (by decide)

theorem digitList_ne_nil (d : Decimal) : d.digitList ≠ [] := Nat.toDigits_ne_nil

theorem ofDigitChars_digitList (d : Decimal) : Nat.ofDigitChars 10 d.digitList 0 = d.digits :=
  Nat.ofDigitChars_ten_toDigits

theorem toDigits_lead {n : Nat} (positive : 0 < n) (cs : List Char) : Nat.toDigits 10 n ≠ '0' :: cs := by
  induction n using Nat.strongRecOn generalizing cs with
  | ind n ih =>
    by_cases small : n < 10
    · rw [Nat.toDigits_of_lt_base small]
      interval_cases n <;> simp [Nat.digitChar]
    · rw [Nat.toDigits_of_base_le (by decide) (by omega)]
      intro same
      cases rest : Nat.toDigits 10 (n / 10) with
      | nil => exact Nat.toDigits_ne_nil rest
      | cons c rest' =>
        rw [rest, List.cons_append, List.cons.injEq] at same
        exact ih (n / 10) (by omega) (by omega) rest' (by rw [rest, same.1])

theorem digitList_lead (d : Decimal) (c : Char) (cs : List Char) : d.digitList ≠ '0' :: c :: cs := by
  rcases Nat.eq_zero_or_pos d.digits with zero | positive
  · simp [digitList, zero]
  · exact toDigits_lead positive _

variable {negative : Bool} {d : Decimal}

def pointed (negative : Bool) (d : Decimal) : Numeral :=
  let places := (-d.exponent).toNat
  let whole := d.digitList.length - places
  if 0 ≤ d.exponent then ⟨negative, d.digitList ++ List.replicate d.exponent.toNat '0', ['0'], none, true⟩
  else if places < d.digitList.length then
    ⟨negative, d.digitList.take whole, d.digitList.drop whole, none, true⟩
  else ⟨negative, ['0'], List.replicate (places - d.digitList.length) '0' ++ d.digitList, none, true⟩

def powered (negative : Bool) (d : Decimal) : Numeral :=
  ⟨negative, d.digitList.take 1, d.digitList.drop 1,
    some (decide (d.leading < 0), Nat.toDigits 10 d.leading.natAbs), true⟩

theorem text_pointed (negative : Bool) (d : Decimal) : (d.pointed negative).text = signed negative d.positional := by
  have some_digit := d.digitList_ne_nil
  unfold pointed positional
  dsimp only
  split
  · simp [Numeral.text, Numeral.point, Numeral.power]
  split
  · rename_i places
    have some_left : d.digitList.drop (d.digitList.length - (-d.exponent).toNat) ≠ [] := by
      simp [List.drop_eq_nil_iff]; omega
    obtain ⟨c, cs, left⟩ := List.exists_cons_of_ne_nil some_left
    simp [Numeral.text, Numeral.point, Numeral.power, left]
  · obtain ⟨c, cs, digits⟩ := List.exists_cons_of_ne_nil some_digit
    cases zeros : (-d.exponent).toNat - d.digitList.length <;>
      simp_all [Numeral.text, Numeral.point, Numeral.power, List.replicate_succ]

theorem text_powered (negative : Bool) (d : Decimal) :
    (d.powered negative).text = signed negative d.scientific := by
  obtain ⟨c, cs, digits⟩ := List.exists_cons_of_ne_nil d.digitList_ne_nil
  unfold powered scientific
  cases cs <;> by_cases below : d.leading < 0 <;>
    simp [Numeral.text, Numeral.point, Numeral.power, digits, below]

theorem wellFormed_pointed (proper : d.Proper) : (d.pointed negative).WellFormed := by
  have digit := d.isDigit_of_mem_digitList
  have zero : ∀ n, ∀ c ∈ List.replicate n '0', c.isDigit = true := by
    intro n c mem
    rw [(List.mem_replicate.1 mem).2]
    rfl
  unfold pointed
  dsimp only
  split
  · exact {
      whole := fun c mem => (List.mem_append.1 mem).elim (digit c) (zero _ c)
      whole_ne_nil := by simp [d.digitList_ne_nil]
      leads := by
        intro c cs same
        rcases proper with positive | one
        · obtain ⟨c', cs', digits⟩ := List.exists_cons_of_ne_nil d.digitList_ne_nil
          simp only [digits, List.cons_append, List.cons.injEq] at same
          exact toDigits_lead positive cs' (same.1 ▸ digits)
        · exact d.digitList_lead c cs (by simpa [one] using same)
      fraction := by simp
      exponent := by simp
      isFloat := rfl }
  split
  · exact {
      whole := fun c mem => digit c (List.mem_of_mem_take mem)
      whole_ne_nil := by simp [List.take_eq_nil_iff, d.digitList_ne_nil]; omega
      leads := by
        intro c cs same
        have lead := d.digitList_lead c (cs ++ d.digitList.drop (d.digitList.length - (-d.exponent).toNat))
        rw [← List.cons_append, ← List.cons_append, ← same, List.take_append_drop] at lead
        exact lead rfl
      fraction := fun c mem => digit c (List.mem_of_mem_drop mem)
      exponent := by simp
      isFloat := by
        have left : d.digitList.drop (d.digitList.length - (-d.exponent).toNat) ≠ [] := by
          simp [List.drop_eq_nil_iff]; omega
        simp [left] }
  · exact {
      whole := by simp
      whole_ne_nil := by simp
      leads := by simp
      fraction := fun c mem => (List.mem_append.1 mem).elim (zero _ c) (digit c)
      exponent := by simp
      isFloat := by simp [d.digitList_ne_nil] }

theorem wellFormed_powered : (d.powered negative).WellFormed where
  whole c mem := d.isDigit_of_mem_digitList c (List.mem_of_mem_take mem)
  whole_ne_nil := by simp [powered, List.take_eq_nil_iff, d.digitList_ne_nil]
  leads c cs same := by
    have short := congrArg List.length same
    simp [powered] at short
    omega
  fraction c mem := d.isDigit_of_mem_digitList c (List.mem_of_mem_drop mem)
  exponent := by
    intro negative ds same
    cases same
    exact ⟨Nat.toDigits_ne_nil, fun c => Nat.isDigit_of_mem_toDigits (by decide) (by decide)⟩
  isFloat := by simp [powered]

/-- What the numeral without an exponent holds: a whole number has its zeros, and one more after the point. -/
def spelled (d : Decimal) : Decimal :=
  if 0 ≤ d.exponent then ⟨d.digits * 10 ^ (d.exponent.toNat + 1), -1⟩ else d

theorem significand_pointed (negative : Bool) (d : Decimal) :
    (d.pointed negative).significand = d.spelled.digits := by
  have digits := d.ofDigitChars_digitList
  unfold pointed spelled Numeral.significand
  dsimp only
  split
  · have zero : Nat.ofDigitChars 10 ['0'] (10 ^ d.exponent.toNat * d.digits)
        = d.digits * 10 ^ (d.exponent.toNat + 1) := by
      simp [Nat.ofDigitChars_cons, pow_succ]
      ring
    rw [Nat.ofDigitChars_append, Nat.ofDigitChars_append, digits, Nat.ofDigitChars_replicate_zero, zero]
  split
  · rw [List.take_append_drop, digits]
  · simp [Nat.ofDigitChars_cons, Nat.ofDigitChars_append, digits]

theorem last_pointed (negative : Bool) (d : Decimal) : (d.pointed negative).last = d.spelled.exponent := by
  unfold pointed spelled
  dsimp only
  split
  · simp [Numeral.last]
  split
  · simp only [Numeral.last, List.length_drop]
    omega
  · simp only [Numeral.last, List.length_append, List.length_replicate]
    omega

theorem significand_powered (negative : Bool) (d : Decimal) : (d.powered negative).significand = d.digits := by
  simp only [powered, Numeral.significand, List.take_append_drop, ofDigitChars_digitList]

theorem last_powered (negative : Bool) (d : Decimal) : (d.powered negative).last = d.exponent := by
  have some_digit := List.length_pos_iff.2 d.digitList_ne_nil
  simp only [powered, Numeral.last, Nat.ofDigitChars_ten_toDigits, decide_eq_true_eq, List.length_drop]
  unfold leading
  split <;> omega

end Decimal

namespace Json

variable {l : FloatLayout} {negative : Bool} {d : Decimal} {rest : List Char}

/-- The significand and power of ten that reading takes from a decimal's text. -/
def FloatLayout.spelled (l : FloatLayout) (d : Decimal) : Decimal :=
  if l.lowest ≤ d.leading ∧ d.leading ≤ l.highest then d.spelled else d

theorem FloatLayout.read?_write (proper : d.Proper) (ends : Stops rest)
    (fits : (l.spelled d).digits < UInt64.size) (near : d.leading.natAbs < 0x80000000) :
    ∃ n, Numeral.read? (l.write negative d ++ rest) = some (n, rest) ∧
      n.value? = Numeral.float? negative (l.spelled d).digits (l.spelled d).exponent := by
  unfold spelled write at *
  split at fits <;> rename_i within
  · have isFloat : (d.pointed negative).isFloat = true ∧ (d.pointed negative).exponent = none ∧
        (d.pointed negative).negative = negative := by
      unfold Decimal.pointed
      dsimp only
      split <;> [simp; split <;> simp]
    refine ⟨d.pointed negative, ?_, ?_⟩
    · rw [if_pos within, ← Decimal.text_pointed]
      exact Numeral.read?_text (Decimal.wellFormed_pointed proper) ends
    · rw [if_pos within, Numeral.value?_of_isFloat isFloat.1 (Decimal.significand_pointed negative d ▸ fits)
        (by simp [isFloat]), Decimal.significand_pointed, Decimal.last_pointed, isFloat.2.2]
  · refine ⟨d.powered negative, ?_, ?_⟩
    · rw [if_neg within, ← Decimal.text_powered]
      exact Numeral.read?_text Decimal.wellFormed_powered ends
    · rw [if_neg within, Numeral.value?_of_isFloat rfl (Decimal.significand_powered negative d ▸ fits) ?_,
        Decimal.significand_powered, Decimal.last_powered]
      · rfl
      · intro negative ds same
        cases same
        rwa [Nat.ofDigitChars_ten_toDigits]

end Json

end VectorGraph
