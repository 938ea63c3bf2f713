import VectorGraph.Decimal

/-!
Numbers in JSON text: their grammar, and the values that they stand for.

A significand takes digits while it fits 64 bits; further digits before the point only raise the exponent
and those after it are dropped. The power of ten is then applied in binary64 arithmetic, so the value of a
long numeral need not be the nearest one.
-/
namespace VectorGraph.Json

/-- The digits of a number as written. -/
structure Numeral where
  negative : Bool
  whole : List Char
  fraction : List Char
  /-- The exponent's sign and digits. -/
  exponent : Option (Bool × List Char)
  /-- Whether there is a point or an exponent. -/
  isFloat : Bool
deriving DecidableEq

inductive Number where
  | unsigned (n : Nat)
  /-- Below zero, and at least `-2 ^ 63`. -/
  | negative (n : Int)
  | float (x : Binary64)
deriving DecidableEq

namespace Numeral

/-- At least one digit. -/
def digits? (cs : List Char) : Option (List Char × List Char) :=
  match cs.span Char.isDigit with
  | ([], _) => none
  | split => some split

def fraction? : List Char → Option (List Char × List Char)
  | '.' :: cs => digits? cs
  | cs => some ([], cs)

/-- The sign is true for a negative exponent. -/
def exponent? : List Char → Option (Option (Bool × List Char) × List Char)
  | c :: cs =>
    if c = 'e' ∨ c = 'E' then
      let (negative, cs) := match cs with
        | '+' :: cs => (false, cs)
        | '-' :: cs => (true, cs)
        | cs => (false, cs)
      (digits? cs).map fun (ds, rest) => (some (negative, ds), rest)
    else some (none, c :: cs)
  | [] => some (none, [])

/-- A zero is not followed by another digit. -/
def whole? (cs : List Char) : Option (List Char × List Char) :=
  match digits? cs with
  | some ('0' :: _ :: _, _) => none
  | split => split

def read? (cs : List Char) : Option (Numeral × List Char) := do
  let (negative, cs) := match cs with
    | '-' :: cs => (true, cs)
    | cs => (false, cs)
  let (whole, cs) ← whole? cs
  let (fraction, cs) ← fraction? cs
  let (exponent, cs) ← exponent? cs
  return (⟨negative, whole, fraction, exponent, !fraction.isEmpty || exponent.isSome⟩, cs)

def digit (c : Char) : Nat := c.toNat - '0'.toNat

/-- Takes digits into a significand while it stays below `2 ^ 64`, and gives the digits that are left. -/
def absorb (significand : Nat) : List Char → Nat × List Char
  | [] => (significand, [])
  | c :: cs =>
    if 10 * significand + digit c < UInt64.size then absorb (10 * significand + digit c) cs
    else (significand, c :: cs)

def powerOfTen (e : Nat) : Float := Float.ofScientific 1 false e

/-- Multiplies by `10 ^ exponent`, in steps where the power itself is out of range; none for an infinite
result. -/
def scale? : (count : Nat) → Float → (exponent : Int) → Option Float
  | 0, f, _ => some f
  | count + 1, f, exponent =>
    if exponent.natAbs ≤ 308 then
      if 0 ≤ exponent then
        let product := f * powerOfTen exponent.natAbs
        if product.isInf then none else some product
      else some (f / powerOfTen exponent.natAbs)
    else if f == 0 then some f
    else if 0 ≤ exponent then none
    else scale? count (f / powerOfTen 308) (exponent + 308)

def float? (negative : Bool) (significand : Nat) (exponent : Int) : Option Number :=
  match scale? (exponent.natAbs / 308 + 1) significand.toUInt64.toFloat exponent with
  | some f => some (.float (.ofFloat (if negative then -f else f)))
  | none => none

/-- The value of a numeral; none where it is out of range. Integers that do not fit 64 bits are floats, and
so is minus zero. -/
def value? (n : Numeral) : Option Number :=
  let (significand, dropped) := absorb 0 n.whole
  if !n.isFloat && dropped.isEmpty then
    if !n.negative then some (.unsigned significand)
    else if 0 < significand ∧ significand ≤ 0x8000000000000000 then some (.negative (-significand))
    else float? true significand 0
  else
    let (significand, unread) := absorb significand n.fraction
    let start : Int := (dropped.length : Int) - ((n.fraction.length - unread.length : Nat) : Int)
    match n.exponent with
    | none => float? n.negative significand start
    | some (negative, ds) =>
      let shift := ds.foldl (fun e c => 10 * e + digit c) 0
      if shift < 0x80000000 then
        float? n.negative significand (if negative then start - shift else start + shift)
      else if significand ≠ 0 ∧ !negative then none
      else float? n.negative 0 0

end Numeral

end VectorGraph.Json
