/-!
IEEE binary32 and binary64 numbers as bit patterns. Records keep the pattern itself, so a NaN keeps its
sign and payload; arithmetic rounds to nearest and gives every NaN one pattern.
-/
namespace VectorGraph

/-- What a bit pattern stands for; a finite value is `significand * 2 ^ exponent` with a sign. -/
inductive Reading where
  | finite (negative : Bool) (significand : Nat) (exponent : Int)
  | infinite (negative : Bool)
  | nan
deriving DecidableEq

/-- Reads sign, exponent and fraction fields from a pattern of `1 + exponentBits + fractionBits` bits. -/
def Reading.ofPattern (exponentBits fractionBits pattern : Nat) : Reading :=
  let negative := decide (Nat.pow 2 (exponentBits + fractionBits) ≤ pattern)
  let exponent := pattern / Nat.pow 2 fractionBits % Nat.pow 2 exponentBits
  let fraction := pattern % Nat.pow 2 fractionBits
  let least : Int := 2 - (Nat.pow 2 (exponentBits - 1) : Nat) - fractionBits
  if exponent + 1 = Nat.pow 2 exponentBits then
    if fraction = 0 then .infinite negative else .nan
  else if exponent = 0 then .finite negative fraction least
  else .finite negative (Nat.pow 2 fractionBits + fraction) (least + exponent - 1)

structure Binary32 where
  bits : UInt32
deriving DecidableEq, Inhabited

namespace Binary32

def toFloat (x : Binary32) : Float32 := .ofBits x.bits

def ofFloat (x : Float32) : Binary32 := ⟨x.toBits⟩

def zero : Binary32 := ⟨0⟩

def negativeZero : Binary32 := ⟨0x80000000⟩

def infinity : Binary32 := ⟨0x7f800000⟩

def add (x y : Binary32) : Binary32 := ofFloat (x.toFloat + y.toFloat)

def sub (x y : Binary32) : Binary32 := ofFloat (x.toFloat - y.toFloat)

def mul (x y : Binary32) : Binary32 := ofFloat (x.toFloat * y.toFloat)

/-- An exponent field of all ones with a fraction other than zero. -/
def isNaN (x : Binary32) : Bool := decide (0x7f800000 < x.bits.toNat % 0x80000000)

def reading (x : Binary32) : Reading := .ofPattern 8 23 x.bits.toNat

/-- The place of a pattern in the total order: negative patterns from the largest magnitude down, then
the positive ones up, with `-0.0` just below `+0.0` and NaNs outermost. -/
def rank (x : Binary32) : Int :=
  if x.bits.toNat < 0x80000000 then x.bits.toNat else 0x7fffffff - (x.bits.toNat : Int)

end Binary32

structure Binary64 where
  bits : UInt64
deriving DecidableEq, Inhabited

namespace Binary64

def toFloat (x : Binary64) : Float := .ofBits x.bits

def ofFloat (x : Float) : Binary64 := ⟨x.toBits⟩

def isNaN (x : Binary64) : Bool := decide (0x7ff0000000000000 < x.bits.toNat % 0x8000000000000000)

def reading (x : Binary64) : Reading := .ofPattern 11 52 x.bits.toNat

end Binary64

end VectorGraph
