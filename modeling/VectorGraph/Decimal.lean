import VectorGraph.Binary

/-!
Decimal text of binary numbers. The digits of a finite value are those of the shortest decimal that rounds
back to it, found on the coarsest power-of-ten grid that has a point in the value's rounding interval.
-/
namespace VectorGraph

/-- The number `digits * 10 ^ exponent`. -/
structure Decimal where
  digits : Nat
  exponent : Int
deriving DecidableEq

/-- The numbers that round to one value, and the value itself, as numerators over `scale`. The ends belong
to the span where it is closed. -/
structure RoundingSpan where
  low : Nat
  value : Nat
  high : Nat
  scale : Nat
  closed : Bool

namespace RoundingSpan

/-- The span of `significand * 2 ^ exponent` reaches half a unit to either side, but a quarter downwards
where the next value below is half as far. Ties round to an even significand. -/
def ofBinary (significand : Nat) (exponent : Int) (closeBelow : Bool) : RoundingSpan :=
  let unit := Nat.pow 2 (exponent - 2).toNat
  { low := (4 * significand - if closeBelow then 1 else 2) * unit
    value := 4 * significand * unit
    high := (4 * significand + 2) * unit
    scale := Nat.pow 2 (2 - exponent).toNat
    closed := significand % 2 == 0 }

/-- The multiple of `10 ^ k` within the span that is nearest to the value, as a factor; of two equally
near, the even one. Only the value's two neighbours on the grid can be it. -/
def onGrid? (s : RoundingSpan) (k : Int) : Option Nat :=
  let fine := Nat.pow 10 (-k).toNat
  let step := s.scale * Nat.pow 10 k.toNat
  let value := s.value * fine
  let inside (d : Nat) : Bool :=
    if s.closed then decide (s.low * fine ≤ d * step ∧ d * step ≤ s.high * fine)
    else decide (s.low * fine < d * step ∧ d * step < s.high * fine)
  let below := value / step
  let gap := 2 * (value % step)
  if inside below && inside (below + 1) then
    if gap < step ∨ gap = step ∧ below % 2 = 0 then some below else some (below + 1)
  else if inside below then some below
  else if inside (below + 1) then some (below + 1)
  else none

/-- Tries grids from `10 ^ k` on, each ten times finer than the one before. The last one holds the value
itself. -/
def scan (s : RoundingSpan) : (count : Nat) → (k : Int) → Decimal
  | 0, k => ⟨s.value * Nat.pow 10 (-k).toNat / s.scale, k⟩
  | count + 1, k =>
    match s.onGrid? k with
    | some digits => ⟨digits, k⟩
    | none => s.scan count (k - 1)

end RoundingSpan

namespace Decimal

def digitList (d : Decimal) : List Char := Nat.toDigits 10 d.digits

/-- The shortest decimal that rounds to `significand * 2 ^ exponent`. -/
def shortest (significand : Nat) (exponent : Int) (closeBelow : Bool) : Decimal :=
  let span := RoundingSpan.ofBinary significand exponent closeBelow
  let top := (Nat.toDigits 10 (span.value / span.scale)).length
  span.scan (top + (2 - exponent).toNat) top

/-- The power of ten of the first digit. -/
def leading (d : Decimal) : Int := d.digitList.length + d.exponent - 1

/-- Without an exponent; a whole number ends in `.0`. -/
def positional (d : Decimal) : List Char :=
  let digits := d.digitList
  if 0 ≤ d.exponent then digits ++ List.replicate d.exponent.toNat '0' ++ ['.', '0']
  else
    let places := (-d.exponent).toNat
    if places < digits.length then
      digits.take (digits.length - places) ++ '.' :: digits.drop (digits.length - places)
    else '0' :: '.' :: (List.replicate (places - digits.length) '0' ++ digits)

/-- One digit before the point, and an exponent with its sign. -/
def scientific (d : Decimal) : List Char :=
  let mantissa := match d.digitList with
    | first :: second :: rest => first :: '.' :: second :: rest
    | digits => digits
  let sign := if d.leading < 0 then '-' else '+'
  mantissa ++ 'e' :: sign :: Nat.toDigits 10 d.leading.natAbs

end Decimal

/-- The shortest decimal of a value with its sign, for a format of `fractionBits` whose least exponent is
`least`; none for what is not finite. -/
def Reading.shortest? (fractionBits : Nat) (least : Int) : Reading → Option (Bool × Decimal)
  | .finite negative 0 _ => some (negative, ⟨0, 0⟩)
  | .finite negative significand exponent =>
    let closeBelow := decide (significand = Nat.pow 2 fractionBits ∧ least < exponent)
    some (negative, .shortest significand exponent closeBelow)
  | .infinite _ => none
  | .nan => none

def Binary32.shortest? (x : Binary32) : Option (Bool × Decimal) := x.reading.shortest? 23 (-149)

def Binary64.shortest? (x : Binary64) : Option (Bool × Decimal) := x.reading.shortest? 52 (-1074)

def signed (negative : Bool) (digits : List Char) : List Char := if negative then '-' :: digits else digits

/-- Without an exponent, however long. -/
def Binary64.positional (x : Binary64) : String :=
  match x.reading, x.shortest? with
  | .infinite negative, _ => .ofList (signed negative ['i', 'n', 'f'])
  | _, some (negative, d) => .ofList (signed negative d.positional)
  | _, none => "NaN"

/-- With `places` digits after the point, rounded to nearest with ties to even. -/
def Reading.fixed (places : Nat) : Reading → String
  | .finite negative significand exponent =>
    let numerator := significand * Nat.pow 2 exponent.toNat * Nat.pow 10 places
    let denominator := Nat.pow 2 (-exponent).toNat
    let below := numerator / denominator
    let gap := 2 * (numerator % denominator)
    let rounded := if gap < denominator ∨ gap = denominator ∧ below % 2 = 0 then below else below + 1
    let fraction := Nat.toDigits 10 (rounded % Nat.pow 10 places)
    let padded := List.replicate (places - fraction.length) '0' ++ fraction
    let tail := if places = 0 then [] else '.' :: padded
    .ofList (signed negative (Nat.toDigits 10 (rounded / Nat.pow 10 places) ++ tail))
  | .infinite negative => .ofList (signed negative ['i', 'n', 'f'])
  | .nan => "NaN"

def Binary64.ofDecimal (negative : Bool) (d : Decimal) : Binary64 :=
  let magnitude := Float.ofScientific d.digits (decide (d.exponent < 0)) d.exponent.natAbs
  .ofFloat (if negative then -magnitude else magnitude)

def Binary64.narrow (x : Binary64) : Binary32 :=
  match x.reading with
  | .finite negative significand exponent =>
    let sign := if negative then .negative else .positive
    .ofFloat (.ofModel (.pack (.normalize .binary32 (sign.apply significand) exponent sign)))
  | .infinite negative => if negative then ⟨0xff800000⟩ else .infinity
  | .nan => ⟨0x7fc00000⟩

end VectorGraph
